import Bailout.Proofs.Heap.Shares

/-!
# Releasing in any order

One step of a release reads one cell, writes that cell, and puts the references of a freed object on the
list. Steps at different cells do not meet, and no step brings back what another took away. So the order
of the list decides only in which order cells become free: `releaseAll_perm`.
-/

namespace Bailout

/-- What is left of a cell once a share is given back, and the references to release with it. A cell
without shares has none to give back. -/
def HeapCell.giveBack? (c : HeapCell) : Option (Option HeapCell × List Handle) :=
  if c.count = 0 then none
  else if 1 < c.count ∨ c.immortal then some (some { c with count := c.count - 1 }, [])
  else some (none, c.object.children.reverse)

theorem HeapCell.count_giveBack? {c : HeapCell} {left : Option HeapCell} {refs : List Handle}
    (h : c.giveBack? = some (left, refs)) : (left.map (·.count)).getD 0 < c.count := by
  unfold giveBack? at h
  split at h
  · cases h
  · next hz =>
    split at h
    · obtain ⟨rfl, rfl⟩ := Prod.mk.inj (Option.some.inj h)
      show c.count - 1 < c.count
      omega
    · obtain ⟨rfl, rfl⟩ := Prod.mk.inj (Option.some.inj h)
      show 0 < c.count
      omega

namespace Heap

variable {heap heap' other next last : Heap} {h k : Handle} {c : HeapCell} {l l' refs refs' : List Handle}

/-- Writes what is left of a live cell. -/
def store (heap : Heap) (h : Handle) : Option HeapCell → Heap
  | some c => heap.put h (some c)
  | none => heap.freeCell h

theorem cell?_store (hc : heap.cell? h = some c) (left : Option HeapCell) (k : Handle) :
    (heap.store h left).cell? k = if k = h then left else heap.cell? k := by
  cases left with
  | some d => exact cell?_put hc (some d) k
  | none => exact cell?_freeCell hc k

/-- One step of a release gives back a share of `h`, after which `refs` are left to release. -/
def GivesBack (heap : Heap) (h : Handle) (refs : List Handle) (next : Heap) : Prop :=
  ∃ c left, heap.cell? h = some c ∧ c.giveBack? = some (left, refs) ∧ heap.store h left = next

theorem GivesBack.totalCount_lt (g : heap.GivesBack h refs next) :
    next.totalCount < heap.totalCount := by
  obtain ⟨c, left, hc, hleft, rfl⟩ := g
  have hlt := totalCount_put_lt hc (HeapCell.count_giveBack? hleft)
  cases left with
  | some d => exact hlt
  | none => exact hlt

theorem releaseAll_cons_eq_ok : heap.releaseAll (h :: l) = .ok heap' ↔
    ∃ refs next, heap.GivesBack h refs next ∧ next.releaseAll (refs ++ l) = .ok heap' := by
  unfold GivesBack
  cases hc : heap.cell? h with
  | none =>
    have herr : heap.releaseAll (h :: l) = .error (.dangling h) := by
      rw [releaseAll]
      split <;> simp_all
    simp [herr]
  | some c =>
    by_cases hz : c.count = 0
    · have herr : heap.releaseAll (h :: l) = .error (.countUnderflow h) := by
        rw [releaseAll]
        split <;> simp_all
      simp [herr, HeapCell.giveBack?, hz]
    · by_cases hmany : 1 < c.count ∨ c.immortal
      · rw [releaseAll_lower hc (Nat.pos_of_ne_zero hz) hmany]
        simp [HeapCell.giveBack?, hz, hmany, store]
      · have hlast := hmany
        simp only [not_or, Bool.not_eq_true] at hlast
        rw [releaseAll_free hc (by omega) hlast.2]
        simp [HeapCell.giveBack?, hz, hmany, store]

/-! ## Heaps that differ in their free lists -/

/-- The same cells and the same number of objects. The empty cells may be listed in another order. -/
structure SameCells (heap other : Heap) : Prop where
  cells : heap.cells = other.cells
  live : heap.live = other.live
  free : heap.free.Perm other.free

namespace SameCells

theorem refl (heap : Heap) : heap.SameCells heap := ⟨rfl, rfl, .refl _⟩

theorem trans (s : heap.SameCells other) (s' : other.SameCells last) :
    heap.SameCells last :=
  ⟨s.cells.trans s'.cells, s.live.trans s'.live, s.free.trans s'.free⟩

theorem cell? (s : heap.SameCells other) (h : Handle) : heap.cell? h = other.cell? h := by
  unfold Heap.cell?
  rw [s.cells]

theorem store (s : heap.SameCells other) (h : Handle) (left : Option HeapCell) :
    (heap.store h left).SameCells (other.store h left) := by
  cases left with
  | some c => exact ⟨congrArg (·.set h.index (some c)) s.cells, s.live, s.free⟩
  | none => exact ⟨congrArg (·.set h.index none) s.cells, congrArg (· - 1) s.live, s.free.cons _⟩

end SameCells

theorem store_store (heap : Heap) (hne : h ≠ k) (left left' : Option HeapCell) :
    ((heap.store h left).store k left').SameCells ((heap.store k left').store h left) := by
  have hindex : h.index ≠ k.index := by
    intro heq
    obtain ⟨i⟩ := h
    obtain ⟨j⟩ := k
    exact hne (congrArg Handle.mk heq)
  cases left with
  | some c =>
    cases left' with
    | some d => exact ⟨List.set_comm _ _ hindex, rfl, .refl _⟩
    | none => exact ⟨List.set_comm _ _ hindex, rfl, .refl _⟩
  | none =>
    cases left' with
    | some d => exact ⟨List.set_comm _ _ hindex, rfl, .refl _⟩
    | none => exact ⟨List.set_comm _ _ hindex, rfl, .swap _ _ _⟩

theorem GivesBack.same (g : heap.GivesBack h refs next) (s : heap.SameCells other) :
    ∃ next', other.GivesBack h refs next' ∧ next.SameCells next' := by
  obtain ⟨c, left, hc, hleft, rfl⟩ := g
  exact ⟨other.store h left, ⟨c, left, s.cell? h ▸ hc, hleft, rfl⟩, s.store h left⟩

theorem GivesBack.swap (hne : h ≠ k) (g : heap.GivesBack h refs next)
    (g' : next.GivesBack k refs' last) :
    ∃ next' last', heap.GivesBack k refs' next' ∧ next'.GivesBack h refs last' ∧
      last.SameCells last' := by
  obtain ⟨c, left, hc, hleft, rfl⟩ := g
  obtain ⟨d, left', hd, hleft', rfl⟩ := g'
  rw [cell?_store hc, if_neg hne.symm] at hd
  refine ⟨heap.store k left', _, ⟨d, left', hd, hleft', rfl⟩, ⟨c, left, ?_, hleft, rfl⟩,
    store_store heap hne left left'⟩
  rw [cell?_store hd, if_neg hne, hc]

/-! ## The order of the list -/

/-- Two orders of one list that start differently share what is left without both heads. -/
theorem exists_rest_of_perm {t t' : List Handle} (hne : h ≠ k) (hp : (h :: t).Perm (k :: t')) :
    ∃ rest, t.Perm (k :: rest) ∧ t'.Perm (h :: rest) := by
  have hk : k ∈ t := by
    rcases List.mem_cons.1 (hp.mem_iff.2 List.mem_cons_self) with hkh | hk
    · exact absurd hkh.symm hne
    · exact hk
  have ht : t.Perm (k :: t.erase k) := List.perm_cons_erase hk
  refine ⟨t.erase k, ht, List.Perm.cons_inv (a := k) ?_⟩
  exact hp.symm.trans ((ht.cons h).trans (.swap k h _))

/-- A release that does not fail does not fail in any other order, and leaves the same cells. -/
theorem releaseAll_perm (s : heap.SameCells other) (hp : l.Perm l')
    (hrel : heap.releaseAll l = .ok heap') :
    ∃ other', other.releaseAll l' = .ok other' ∧ heap'.SameCells other' := by
  -- Each step lowers the total of the counts. Two lists that start with the same reference go on from
  -- the same cells; otherwise each first step is moved behind the other's.
  induction hn : heap.totalCount using Nat.strongRecOn generalizing heap other l l' heap' with
  | _ n ih =>
    subst hn
    cases l with
    | nil =>
      obtain rfl := hp.nil_eq
      rw [releaseAll] at hrel ⊢
      obtain rfl := Except.ok.inj hrel
      exact ⟨other, rfl, s⟩
    | cons h t =>
      obtain ⟨refs, next, g, hrel⟩ := releaseAll_cons_eq_ok.1 hrel
      cases l' with
      | nil => exact absurd hp.eq_nil (List.cons_ne_nil _ _)
      | cons k t' =>
        by_cases hhk : h = k
        · subst hhk
          obtain ⟨next', g', s'⟩ := g.same s
          obtain ⟨other', hother, s''⟩ :=
            ih _ g.totalCount_lt s' (hp.cons_inv.append_left refs) hrel rfl
          exact ⟨other', releaseAll_cons_eq_ok.2 ⟨refs, next', g', hother⟩, s''⟩
        · obtain ⟨rest, ht, ht'⟩ := exists_rest_of_perm hhk hp
          obtain ⟨mid, hmid, smid⟩ := ih _ g.totalCount_lt (.refl _)
            ((ht.append_left refs).trans List.perm_middle) hrel rfl
          obtain ⟨refs', both, g', hmid⟩ := releaseAll_cons_eq_ok.1 hmid
          obtain ⟨first, swapped, gk, gh, sswap⟩ := g.swap hhk g'
          have hrefs : (refs' ++ (refs ++ rest)).Perm (refs ++ (refs' ++ rest)) := by
            rw [← List.append_assoc, ← List.append_assoc]
            exact List.perm_append_comm.append_right _
          obtain ⟨final, hfinal, sfinal⟩ :=
            ih _ (g'.totalCount_lt.trans g.totalCount_lt) sswap hrefs hmid rfl
          have hback : first.releaseAll (h :: (refs' ++ rest)) = .ok final :=
            releaseAll_cons_eq_ok.2 ⟨refs, swapped, gh, hfinal⟩
          obtain ⟨first', gk', sfirst⟩ := gk.same s
          obtain ⟨other', hother, s'⟩ := ih _ gk.totalCount_lt sfirst
            (List.perm_middle.symm.trans (ht'.symm.append_left refs')) hback rfl
          exact ⟨other', releaseAll_cons_eq_ok.2 ⟨refs', first', gk', hother⟩,
            smid.trans (sfinal.trans s')⟩

end Heap

end Bailout
