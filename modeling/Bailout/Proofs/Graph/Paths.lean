import Bailout.Proofs.Graph.Order
import Mathlib.Data.List.Chain

/-!
# Paths and the order

`Graph.Path` follows edges from the entry, round loops as often as one likes. The order lists the blocks
that paths lead to: it is closed under edges (`order_closed`), and in front of each block but the entry
it lists one with an edge to it (`order_led`). Both are read off the search, the first from what it has
marked and the second from the path it is on.
-/

namespace Bailout

namespace Graph

variable {g : Graph} {path : List Visit} {marked post : List BlockId} {id next : BlockId}

/-- Control can pass from the entry through the given blocks, in order, and arrive at a block. -/
inductive Path (g : Graph) : List BlockId → BlockId → Prop where
  | entry : g.Path [] g.entry
  | step {done : List BlockId} {id next : BlockId} :
      g.Path done id → next ∈ g.successors id → g.Path (done ++ [id]) next

theorem contains_of_mem_successors (h : next ∈ g.successors id) : g.contains id := by
  unfold successors at h
  unfold contains
  cases hb : g.block? id with
  | none => simp [hb] at h
  | some b => rfl

/-! ## The search is closed under edges -/

/-- What has been marked is on the path or emitted, and every edge taken leads to a marked block. -/
structure Swept (g : Graph) (path : List Visit) (marked post : List BlockId) : Prop where
  seen : ∀ id ∈ marked, id ∈ post ∨ ∃ v ∈ path, v.id = id
  emitted : ∀ id ∈ post, ∀ s ∈ g.successors id, g.contains s → s ∈ marked
  taken : ∀ v ∈ path, ∀ s ∈ g.successors v.id, g.contains s → s ∈ marked ∨ s ∈ v.rest

theorem Swept.emit {id : BlockId} (h : g.Swept (⟨id, []⟩ :: path) marked post) :
    g.Swept path marked (id :: post) where
  seen := by
    intro m hm
    rcases h.seen m hm with hpost | ⟨v, hv, rfl⟩
    · exact .inl (List.mem_cons_of_mem _ hpost)
    · rcases List.mem_cons.1 hv with rfl | hv
      · exact .inl List.mem_cons_self
      · exact .inr ⟨v, hv, rfl⟩
  emitted := by
    intro u hu s hs hc
    rcases List.mem_cons.1 hu with rfl | hu
    · exact (h.taken _ List.mem_cons_self s hs hc).resolve_right (by simp)
    · exact h.emitted u hu s hs hc
  taken v hv := h.taken v (List.mem_cons_of_mem _ hv)

theorem Swept.enter {id s : BlockId} {rest : List BlockId}
    (h : g.Swept (⟨id, s :: rest⟩ :: path) marked post) :
    g.Swept (⟨s, g.successors s⟩ :: ⟨id, rest⟩ :: path) (s :: marked) post where
  seen := by
    intro m hm
    rcases List.mem_cons.1 hm with rfl | hm
    · exact .inr ⟨_, List.mem_cons_self, rfl⟩
    · rcases h.seen m hm with hpost | ⟨v, hv, rfl⟩
      · exact .inl hpost
      · rcases List.mem_cons.1 hv with rfl | hv
        · exact .inr ⟨⟨id, rest⟩, by simp, rfl⟩
        · exact .inr ⟨v, by simp [hv], rfl⟩
  emitted u hu t ht hc := List.mem_cons_of_mem _ (h.emitted u hu t ht hc)
  taken := by
    intro v hv t ht hc
    rcases List.mem_cons.1 hv with rfl | hv
    · exact .inr ht
    · rcases List.mem_cons.1 hv with rfl | hv
      · rcases h.taken _ List.mem_cons_self t ht hc with hm | hr
        · exact .inl (List.mem_cons_of_mem _ hm)
        · rcases List.mem_cons.1 hr with rfl | hr
          · exact .inl List.mem_cons_self
          · exact .inr hr
      · exact (h.taken v (List.mem_cons_of_mem _ hv) t ht hc).imp_left (List.mem_cons_of_mem _)

theorem Swept.skip {id s : BlockId} {rest : List BlockId}
    (h : g.Swept (⟨id, s :: rest⟩ :: path) marked post) (hs : g.contains s → s ∈ marked) :
    g.Swept (⟨id, rest⟩ :: path) marked post where
  seen := by
    intro m hm
    rcases h.seen m hm with hpost | ⟨v, hv, rfl⟩
    · exact .inl hpost
    · rcases List.mem_cons.1 hv with rfl | hv
      · exact .inr ⟨⟨id, rest⟩, List.mem_cons_self, rfl⟩
      · exact .inr ⟨v, List.mem_cons_of_mem _ hv, rfl⟩
  emitted := h.emitted
  taken := by
    intro v hv t ht hc
    rcases List.mem_cons.1 hv with rfl | hv
    · rcases h.taken _ List.mem_cons_self t ht hc with hm | hr
      · exact .inl hm
      · rcases List.mem_cons.1 hr with rfl | hr
        · exact .inl (hs hc)
        · exact .inr hr
    · exact h.taken v (List.mem_cons_of_mem _ hv) t ht hc

theorem Swept.walk_closed (h : g.Swept path marked post) :
    ∀ id ∈ g.walk path marked post, ∀ s ∈ g.successors id, g.contains s →
      s ∈ g.walk path marked post := by
  fun_induction walk g path marked post with
  | case1 =>
    intro id hid s hs hc
    exact (h.seen s (h.emitted id hid s hs hc)).resolve_right (by simp)
  | case2 _ _ _ _ ih => exact ih h.emit
  | case3 _ _ _ _ _ _ _ ih => exact ih h.enter
  | case4 _ _ _ _ _ _ hold ih => exact ih (h.skip fun hc => by simpa [hc] using hold)

theorem swept_start (g : Graph) : g.Swept [⟨g.entry, g.successors g.entry⟩] [g.entry] [] where
  seen m hm := .inr ⟨_, List.mem_cons_self, (List.mem_singleton.1 hm).symm⟩
  emitted u hu := absurd hu List.not_mem_nil
  taken := by
    intro v hv s hs _
    obtain rfl := List.mem_singleton.1 hv
    exact .inr hs

/-- An edge from a listed block leads to a hole or a listed block. -/
theorem order_closed (hid : id ∈ g.order) (hs : next ∈ g.successors id) (hc : g.contains next) :
    next ∈ g.order :=
  g.swept_start.walk_closed id hid next hs hc

/-! ## Every block is led to -/

/-- Each block of the list is the entry or has an edge from one further left. -/
def Led (g : Graph) (l : List BlockId) : Prop :=
  ∀ left id right, l = left ++ id :: right → id = g.entry ∨ ∃ u ∈ left, id ∈ g.successors u

theorem Led.concat {l : List BlockId} (h : g.Led l)
    (hid : id = g.entry ∨ ∃ u ∈ l, id ∈ g.successors u) : g.Led (l ++ [id]) := by
  intro left v right hsplit
  rcases List.eq_nil_or_concat right with rfl | ⟨right, w, rfl⟩
  · obtain ⟨rfl, hv⟩ := List.append_inj' hsplit rfl
    obtain rfl := List.singleton_inj.1 hv
    exact hid
  · rw [List.concat_eq_append, ← List.cons_append, ← List.append_assoc] at hsplit
    exact h left v right (List.append_inj' hsplit rfl).1

/-- The path of the search goes along edges, starting at the entry. -/
structure Trail (g : Graph) (path : List Visit) : Prop where
  rest : ∀ v ∈ path, v.rest ⊆ g.successors v.id
  edges : path.IsChain fun v w => v.id ∈ g.successors w.id
  bottom : ∀ v ∈ path.getLast?, v.id = g.entry

theorem Trail.tail {v : Visit} (h : g.Trail (v :: path)) : g.Trail path where
  rest w hw := h.rest w (List.mem_cons_of_mem _ hw)
  edges := h.edges.tail
  bottom := by
    intro w hw
    refine h.bottom w ?_
    rw [List.getLast?_cons]
    simp_all

/-- The head of the path is the entry or has an edge from a block below. -/
theorem Trail.head {v : Visit} (h : g.Trail (v :: path)) :
    v.id = g.entry ∨ ∃ w ∈ path, v.id ∈ g.successors w.id := by
  cases path with
  | nil => exact .inl (h.bottom v (by simp))
  | cons w path => exact .inr ⟨w, List.mem_cons_self, (List.isChain_cons_cons.1 h.edges).1⟩

theorem Trail.advance {id s : BlockId} {rest : List BlockId}
    (h : g.Trail (⟨id, s :: rest⟩ :: path)) : g.Trail (⟨id, rest⟩ :: path) where
  rest := by
    intro v hv
    rcases List.mem_cons.1 hv with rfl | hv
    · exact fun t ht => h.rest _ List.mem_cons_self (List.mem_cons_of_mem _ ht)
    · exact h.rest v (List.mem_cons_of_mem _ hv)
  edges := by
    cases path with
    | nil => exact .singleton _
    | cons w path =>
      obtain ⟨hw, htail⟩ := List.isChain_cons_cons.1 h.edges
      exact List.isChain_cons_cons.2 ⟨hw, htail⟩
  bottom := by
    intro v hv
    cases path with
    | nil =>
      obtain rfl : _ = v := by simpa using hv
      exact h.bottom ⟨id, s :: rest⟩ (by simp)
    | cons w path => exact h.bottom v (by simpa using hv)

theorem Trail.enter {id s : BlockId} {rest : List BlockId} (h : g.Trail (⟨id, s :: rest⟩ :: path)) :
    g.Trail (⟨s, g.successors s⟩ :: ⟨id, rest⟩ :: path) where
  rest := by
    intro v hv
    rcases List.mem_cons.1 hv with rfl | hv
    · exact List.Subset.refl _
    · exact h.advance.rest v hv
  edges := List.isChain_cons_cons.2 ⟨h.rest _ List.mem_cons_self List.mem_cons_self, h.advance.edges⟩
  bottom v hv := h.advance.bottom v (by simpa using hv)

/-- The search puts blocks in front of those it has emitted, each of them led to, and among them all
that are on its path. -/
theorem Trail.walk_led (h : g.Trail path) (marked post : List BlockId) :
    ∃ found, g.walk path marked post = found ++ post ∧ g.Led found ∧ ∀ v ∈ path, v.id ∈ found := by
  fun_induction walk g path marked post with
  | case1 => exact ⟨[], rfl, by simp [Led], by simp⟩
  | case2 marked post id path ih =>
    obtain ⟨found, hwalk, hled, hpath⟩ := ih h.tail
    refine ⟨found ++ [id], by simpa using hwalk, hled.concat ?_, ?_⟩
    · rcases h.head with hid | ⟨w, hw, hid⟩
      · exact .inl hid
      · exact .inr ⟨w.id, hpath w hw, hid⟩
    · intro v hv
      rcases List.mem_cons.1 hv with rfl | hv
      · simp
      · simp [hpath v hv]
  | case3 marked post id s rest path _ ih =>
    obtain ⟨found, hwalk, hled, hpath⟩ := ih h.enter
    refine ⟨found, hwalk, hled, ?_⟩
    intro v hv
    rcases List.mem_cons.1 hv with rfl | hv
    · exact hpath ⟨id, rest⟩ (by simp)
    · exact hpath v (by simp [hv])
  | case4 marked post id s rest path _ ih =>
    obtain ⟨found, hwalk, hled, hpath⟩ := ih h.advance
    refine ⟨found, hwalk, hled, ?_⟩
    intro v hv
    rcases List.mem_cons.1 hv with rfl | hv
    · exact hpath ⟨id, rest⟩ (by simp)
    · exact hpath v (by simp [hv])

theorem trail_start (g : Graph) : g.Trail [⟨g.entry, g.successors g.entry⟩] :=
  ⟨by simp, .singleton _, by simp⟩

theorem order_led (g : Graph) : g.Led g.order := by
  obtain ⟨found, hwalk, hled, -⟩ := g.trail_start.walk_led [g.entry] []
  rw [order, hwalk, List.append_nil]
  exact hled

/-! ## The order and the paths -/

theorem path_of_mem_order (h : id ∈ g.order) : ∃ done, g.Path done id := by
  obtain ⟨left, right, hsplit⟩ := List.append_of_mem h
  clear h
  -- By induction on the part of the order in front of the block.
  induction hn : left.length using Nat.strongRecOn generalizing left id right with
  | _ n ih =>
    rcases g.order_led left id right hsplit with rfl | ⟨u, hu, hid⟩
    · exact ⟨[], .entry⟩
    · obtain ⟨left', right', rfl⟩ := List.append_of_mem hu
      obtain ⟨done, hdone⟩ := ih left'.length (by simp [← hn]) left' (right' ++ id :: right)
        (by simpa using hsplit) rfl
      exact ⟨_, hdone.step hid⟩

theorem mem_order_of_path {done : List BlockId} (h : g.Path done id)
    (hc : g.contains id) : id ∈ g.order := by
  induction h with
  | entry => exact g.entry_mem_order
  | step _ hnext ih => exact order_closed (ih (contains_of_mem_successors hnext)) hnext hc

end Graph

end Bailout
