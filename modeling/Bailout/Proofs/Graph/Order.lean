import Bailout.Graph

/-!
# The depth-first search

Whatever is on the path of the search or has been emitted is in its result. So the search sees only
blocks that it emits: a graph that agrees with another on those has the same order, `order_congr`. The
order of a given graph is found by evaluation, `order_of_within`.
-/

namespace Bailout

namespace Graph

variable {g g' : Graph} {path : List Visit} {marked post : List BlockId} {id : BlockId}

theorem mem_walk_of_mem_post (h : id ∈ post) : id ∈ g.walk path marked post := by
  fun_induction walk g path marked post with
  | case1 => exact h
  | case2 _ _ _ _ ih => exact ih (List.mem_cons_of_mem _ h)
  | case3 _ _ _ _ _ _ _ ih => exact ih h
  | case4 _ _ _ _ _ _ _ ih => exact ih h

theorem mem_walk_of_mem_path {v : Visit} (h : v ∈ path) : v.id ∈ g.walk path marked post := by
  fun_induction walk g path marked post generalizing v with
  | case1 => simp at h
  | case2 marked post id path ih =>
    rcases List.mem_cons.1 h with rfl | h
    · exact mem_walk_of_mem_post List.mem_cons_self
    · exact ih h
  | case3 marked post id s rest path _ ih =>
    rcases List.mem_cons.1 h with rfl | h
    · exact ih (v := ⟨id, rest⟩) (by simp)
    · exact ih (List.mem_cons_of_mem _ (List.mem_cons_of_mem _ h))
  | case4 marked post id s rest path _ ih =>
    rcases List.mem_cons.1 h with rfl | h
    · exact ih (v := ⟨id, rest⟩) (by simp)
    · exact ih (List.mem_cons_of_mem _ h)

theorem entry_mem_order (g : Graph) : g.entry ∈ g.order :=
  mem_walk_of_mem_path (v := ⟨g.entry, g.successors g.entry⟩) (by simp)

theorem order_of_leaf (h : g.successors g.entry = []) : g.order = [g.entry] := by
  simp [order, walk, h]

/-- The search in at most so many steps, for evaluation. -/
def walkWithin (g : Graph) : Nat → List Visit → List BlockId → List BlockId → Option (List BlockId)
  | 0, _, _, _ => none
  | _ + 1, [], _, post => some post
  | n + 1, ⟨id, []⟩ :: path, marked, post => walkWithin g n path marked (id :: post)
  | n + 1, ⟨id, s :: rest⟩ :: path, marked, post =>
    if g.contains s ∧ ¬ marked.contains s then
      walkWithin g n (⟨s, g.successors s⟩ :: ⟨id, rest⟩ :: path) (s :: marked) post
    else walkWithin g n (⟨id, rest⟩ :: path) marked post

theorem walk_of_within {n : Nat} {ids : List BlockId}
    (h : g.walkWithin n path marked post = some ids) : g.walk path marked post = ids := by
  fun_induction walkWithin g n path marked post with
  | case1 => cases h
  | case2 =>
    rw [walk]
    exact Option.some.inj h
  | case3 _ _ _ _ _ ih => rw [walk, ih h]
  | case4 _ _ _ _ _ _ _ hnew ih => rw [walk, dif_pos hnew, ih h]
  | case5 _ _ _ _ _ _ _ hold ih => rw [walk, dif_neg hold, ih h]

theorem order_of_within (n : Nat) {ids : List BlockId}
    (h : g.walkWithin n [⟨g.entry, g.successors g.entry⟩] [g.entry] [] = some ids) : g.order = ids :=
  walk_of_within h

/-- The search takes the same way through two graphs that agree on the blocks it emits. -/
theorem walk_congr (hsub : ∀ id, g'.contains id → g.contains id)
    (hsame : ∀ id ∈ g.walk path marked post,
      (g.contains id → g'.contains id) ∧ g'.successors id = g.successors id) :
    g'.walk path marked post = g.walk path marked post := by
  fun_induction walk g path marked post with
  | case1 => rw [walk]
  | case2 marked post id path ih => rw [walk, ih hsame]
  | case3 marked post id s rest path hnew ih =>
    obtain ⟨hcontains, hsucc⟩ := hsame s (mem_walk_of_mem_path (v := ⟨s, g.successors s⟩) (by simp))
    rw [walk, dif_pos ⟨hcontains hnew.1, hnew.2⟩, hsucc, ih hsame]
  | case4 marked post id s rest path hold ih =>
    have hold' : ¬ (g'.contains s ∧ ¬ marked.contains s) := fun h => hold ⟨hsub s h.1, h.2⟩
    rw [walk, dif_neg hold', ih hsame]

theorem order_congr (hentry : g'.entry = g.entry) (hsub : ∀ id, g'.contains id → g.contains id)
    (hsame : ∀ id ∈ g.order,
      (g.contains id → g'.contains id) ∧ g'.successors id = g.successors id) :
    g'.order = g.order := by
  have hsucc := (hsame g.entry g.entry_mem_order).2
  unfold order at hsame ⊢
  rw [hentry, hsucc]
  exact walk_congr hsub hsame

end Graph

end Bailout
