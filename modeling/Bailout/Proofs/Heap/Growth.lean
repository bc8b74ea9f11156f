import Bailout.Proofs.Heap.Shares

/-!
# Heaps that only grow

`old.Grows new taken`: from one heap to the other, one share of each reference in `taken` was taken, and
nothing else happened to the objects that were there. Objects that were not there have no children and
no shares but those in `taken`. Taking a share and allocating are growth, growth composes, and shares
of immortal or new objects can be given back again.
-/

namespace Bailout

namespace Heap

variable {old heap new : Heap} {h : Handle} {c : HeapCell} {taken more : List Handle}

structure Grows (old new : Heap) (taken : List Handle) : Prop where
  kept : ∀ h c, old.cell? h = some c →
    new.cell? h = some { c with count := c.count + taken.count h }
  fresh : ∀ h c, old.cell? h = none → new.cell? h = some c →
    c.count = taken.count h ∧ c.immortal = false ∧ c.object.children = []
  live : ∀ h ∈ taken, ∃ c, new.cell? h = some c

namespace Grows

theorem refl (heap : Heap) : heap.Grows heap [] where
  kept h c hc := by simpa using hc
  fresh h c hnone hc := by simp [hnone] at hc
  live h hh := by simp at hh

theorem perm (g : old.Grows new taken) (hp : taken.Perm more) : old.Grows new more where
  kept h c hc := by rw [g.kept h c hc, hp.count_eq]
  fresh h c hnone hc := by rw [← hp.count_eq]; exact g.fresh h c hnone hc
  live h hh := g.live h (hp.mem_iff.2 hh)

/-- A reference taken between two heaps names no object that is absent from the second. -/
theorem count_eq_zero (g : old.Grows new taken) (hnone : new.cell? h = none) : taken.count h = 0 := by
  refine List.count_eq_zero.2 fun hh => ?_
  obtain ⟨c, hc⟩ := g.live h hh
  simp [hnone] at hc

theorem trans (g : old.Grows heap taken) (g' : heap.Grows new more) :
    old.Grows new (taken ++ more) where
  kept h c hc := by rw [g'.kept h _ (g.kept h c hc), List.count_append, Nat.add_assoc]
  fresh h c hnone hc := by
    cases hmid : heap.cell? h with
    | none =>
      obtain ⟨hcount, hrest⟩ := g'.fresh h c hmid hc
      rw [List.count_append, g.count_eq_zero hmid, Nat.zero_add]
      exact ⟨hcount, hrest⟩
    | some d =>
      obtain ⟨hcount, hrest⟩ := g.fresh h d hnone hmid
      obtain rfl := Option.some.inj ((g'.kept h d hmid).symm.trans hc)
      exact ⟨by simp [hcount], hrest⟩
  live h hh := by
    rcases List.mem_append.1 hh with hh | hh
    · obtain ⟨c, hc⟩ := g.live h hh
      exact ⟨_, g'.kept h c hc⟩
    · exact g'.live h hh

theorem get? (g : old.Grows new taken) {object : Object} (ho : old.get? h = some object) :
    new.get? h = some object := by
  obtain ⟨c, hc, rfl⟩ := Option.map_eq_some_iff.1 ho
  simp [Heap.get?, g.kept h c hc]

theorem cell?_eq_none (g : old.Grows new taken) (hnone : new.cell? h = none) : old.cell? h = none := by
  cases hc : old.cell? h with
  | none => rfl
  | some c => simp [g.kept h c hc] at hnone

theorem isLive (g : old.Grows new taken) (hl : old.isLive h) : new.isLive h := by
  obtain ⟨c, hc⟩ := isLive_iff.1 hl
  exact isLive_iff.2 ⟨_, g.kept h c hc⟩

end Grows

/-! ## Single steps -/

theorem grows_incref (hc : heap.cell? h = some c) (hlt : c.count < HeapCell.maxCount) :
    ∃ new, heap.incref h = .ok new ∧ heap.Grows new [h] := by
  refine ⟨_, incref_eq_ok.2 ⟨c, hc, hlt, rfl⟩, ?_⟩
  constructor
  · intro k d hd
    rw [cell?_put hc]
    split
    · next hk =>
      subst hk
      obtain rfl : c = d := by simpa [hc] using hd
      simp
    · next hk => simpa [Ne.symm hk] using hd
  · intro k d hnone hd
    rw [cell?_put hc] at hd
    split at hd
    · next hk =>
      subst hk
      simp [hc] at hnone
    · simp [hnone] at hd
  · intro k hk
    obtain rfl := List.mem_singleton.1 hk
    exact ⟨_, by rw [cell?_put hc, if_pos rfl]⟩

theorem grows_alloc (hs : heap.Sound) {object : Object} (ho : object.children = []) :
    heap.Grows (heap.alloc object).2 [(heap.alloc object).1] := by
  have hfresh := cell?_allocCell_fst hs ⟨object, 1, false⟩
  constructor
  · intro k d hd
    have hne : k ≠ (heap.allocCell ⟨object, 1, false⟩).1 := fun hk => by simp [hk, hfresh] at hd
    rw [alloc, cell?_allocCell hs, if_neg hne, hd]
    simp [Ne.symm hne]
  · intro k d hnone hd
    rw [alloc, cell?_allocCell hs] at hd
    split at hd
    · next hk =>
      obtain rfl := Option.some.inj hd
      simp [alloc, hk, ho]
    · simp [hnone] at hd
  · intro k hk
    obtain rfl := List.mem_singleton.1 hk
    exact ⟨_, by rw [alloc, cell?_allocCell hs, if_pos rfl]⟩

/-! ## Giving shares back -/

theorem Grows.lower (g : old.Grows new (h :: taken)) (hc : new.cell? h = some c) :
    old.Grows (new.put h (some { c with count := c.count - 1 })) taken := by
  constructor
  · intro k d hd
    rw [cell?_put hc]
    split
    · next hk =>
      subst hk
      obtain rfl := Option.some.inj ((g.kept k d hd).symm.trans hc)
      simp [← Nat.add_assoc]
    · next hk => simpa [List.count_cons_of_ne (Ne.symm hk)] using g.kept k d hd
  · intro k d hnone hd
    rw [cell?_put hc] at hd
    split at hd
    · next hk =>
      subst hk
      obtain rfl := Option.some.inj hd
      obtain ⟨hcount, hrest⟩ := g.fresh k c hnone hc
      exact ⟨by simp [hcount], hrest⟩
    · next hk => simpa [List.count_cons_of_ne (Ne.symm hk)] using g.fresh k d hnone hd
  · intro k hk
    rw [cell?_put hc]
    split
    · exact ⟨_, rfl⟩
    · exact g.live k (List.mem_cons_of_mem _ hk)

theorem Grows.free (g : old.Grows new (h :: taken)) (hc : new.cell? h = some c)
    (hnone : old.cell? h = none) (hcount : taken.count h = 0) :
    old.Grows (new.freeCell h) taken := by
  constructor
  · intro k d hd
    have hne : k ≠ h := fun hk => by simp [hk, hnone] at hd
    rw [cell?_freeCell hc, if_neg hne]
    simpa [List.count_cons_of_ne (Ne.symm hne)] using g.kept k d hd
  · intro k d hnone' hd
    rw [cell?_freeCell hc] at hd
    split at hd
    · simp at hd
    · next hk => simpa [List.count_cons_of_ne (Ne.symm hk)] using g.fresh k d hnone' hd
  · intro k hk
    have hne : k ≠ h := fun hkh => List.count_eq_zero.1 hcount (hkh ▸ hk)
    rw [cell?_freeCell hc, if_neg hne]
    exact g.live k (List.mem_cons_of_mem _ hk)

/-- A share of an immortal or a new object can be given back. A new object whose last share it was is
gone again. -/
theorem Grows.release (g : old.Grows new (h :: taken))
    (hh : ∀ c, old.cell? h = some c → c.immortal) :
    ∃ new', new.releaseAll [h] = .ok new' ∧ old.Grows new' taken := by
  obtain ⟨c, hc⟩ := g.live h List.mem_cons_self
  have hpos : 0 < c.count := by
    cases hold : old.cell? h with
    | none => rw [(g.fresh h c hold hc).1]; simp
    | some d =>
      obtain rfl := Option.some.inj ((g.kept h d hold).symm.trans hc)
      change 0 < d.count + (h :: taken).count h
      rw [List.count_cons_self]
      omega
  by_cases hmany : 1 < c.count ∨ c.immortal
  · refine ⟨_, ?_, g.lower hc⟩
    rw [releaseAll_lower hc hpos hmany, releaseAll]
  · simp only [not_or, Nat.not_lt, Bool.not_eq_true] at hmany
    have hnone : old.cell? h = none := by
      cases hold : old.cell? h with
      | none => rfl
      | some d =>
        have himm := hh d hold
        obtain rfl := Option.some.inj ((g.kept h d hold).symm.trans hc)
        simp [himm] at hmany
    obtain ⟨hcount, -, hchildren⟩ := g.fresh h c hnone hc
    simp only [List.count_cons_self] at hcount
    refine ⟨_, ?_, g.free hc hnone (by omega)⟩
    rw [releaseAll_free hc (by omega) hmany.2, hchildren, List.reverse_nil, List.nil_append, releaseAll]

theorem Grows.releaseAll {back : List Handle} (g : old.Grows new (back ++ taken))
    (hback : ∀ h ∈ back, ∀ c, old.cell? h = some c → c.immortal) :
    ∃ new', new.releaseAll back = .ok new' ∧ old.Grows new' taken := by
  induction back generalizing new with
  | nil => exact ⟨new, by rw [Heap.releaseAll], g⟩
  | cons h back ih =>
    rw [List.forall_mem_cons] at hback
    obtain ⟨mid, hmid, g⟩ := g.release hback.1
    obtain ⟨new', hnew, g⟩ := ih g hback.2
    refine ⟨new', ?_, g⟩
    rw [← List.singleton_append, releaseAll_append, hmid, ok_bind, hnew]

end Heap

end Bailout
