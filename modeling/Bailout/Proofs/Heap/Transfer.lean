import Bailout.Proofs.Heap.Growth

/-!
# Transfers of shares

A list of transfers takes shares of objects and gives shares back, in order; giving back the last share
of an object frees it and whatever it alone kept alive. No object is made on the way, so what is there
afterwards was there before: `transferAll_survivor`.

A second heap may carry objects of its own beside the first, and more shares of immortal ones. Then the
transfers do the same to both: `Grows.incref` and `Grows.releaseAll_both`.
-/

namespace Bailout

inductive Transfer where
  | take (h : Handle)
  | drop (h : Handle)
deriving DecidableEq, Repr

namespace Transfer

def taken? : Transfer → Option Handle
  | take h => some h
  | drop _ => none

def dropped? : Transfer → Option Handle
  | take _ => none
  | drop h => some h

end Transfer

namespace Heap

def transfer (heap : Heap) : Transfer → Except Fault Heap
  | .take h => heap.incref h
  | .drop h => heap.decref h

def transferAll (heap : Heap) (ts : List Transfer) : Except Fault Heap := ts.foldlM transfer heap

variable {heap heap' old new old' : Heap} {h k : Handle} {c : HeapCell} {l taken : List Handle}
  {ts us : List Transfer}

theorem filterMap_dropped_drop (l : List Handle) :
    (l.map Transfer.drop).filterMap Transfer.dropped? = l := by
  rw [List.filterMap_map]
  exact List.filterMap_some

theorem transferAll_append (heap : Heap) (ts us : List Transfer) :
    heap.transferAll (ts ++ us) = (heap.transferAll ts >>= (·.transferAll us)) :=
  List.foldlM_append

theorem transferAll_drop (heap : Heap) (l : List Handle) :
    heap.transferAll (l.map .drop) = heap.releaseAll l := by
  rw [transferAll, List.foldlM_map]
  exact foldlM_decref l heap

/-- Every transfer moves one external share. -/
theorem external_transferAll (h : heap.transferAll ts = .ok heap') (k : Handle) :
    heap'.external k =
      heap.external k + (ts.filterMap Transfer.taken?).count k -
        (ts.filterMap Transfer.dropped?).count k := by
  induction ts generalizing heap with
  | nil =>
    obtain rfl : heap = heap' := by simpa [transferAll] using h
    simp
  | cons t ts ih =>
    obtain ⟨now, ht, h⟩ := foldlM_cons_eq_ok.1 h
    rw [ih h]
    cases t with
    | take x =>
      have hx := external_incref ht k
      simp only [List.filterMap_cons, Transfer.taken?, Transfer.dropped?, List.count_cons,
        List.count_nil] at hx ⊢
      omega
    | drop x =>
      have hx := external_releaseAll ht k
      simp only [List.filterMap_cons, Transfer.taken?, Transfer.dropped?, List.count_cons,
        List.count_nil] at hx ⊢
      omega

theorem incref_survivor (hi : heap.incref h = .ok heap') (hk : heap'.cell? k = some c) :
    ∃ old, heap.cell? k = some old ∧ c.object = old.object ∧ c.immortal = old.immortal := by
  obtain ⟨d, hd, -, rfl⟩ := incref_eq_ok.1 hi
  rw [cell?_put hd] at hk
  split at hk
  · next hkh =>
    obtain rfl := Option.some.inj hk
    exact ⟨d, hkh ▸ hd, rfl, rfl⟩
  · exact ⟨c, hk, rfl, rfl⟩

theorem transferAll_survivor (ht : heap.transferAll ts = .ok heap') (hk : heap'.cell? k = some c) :
    ∃ old, heap.cell? k = some old ∧ c.object = old.object ∧ c.immortal = old.immortal := by
  refine foldlM_induct (fun now => ∀ c, now.cell? k = some c →
    ∃ old, heap.cell? k = some old ∧ c.object = old.object ∧ c.immortal = old.immortal)
    ?_ (fun c hc => ⟨c, hc, rfl, rfl⟩) ht c hk
  intro t _ now next ih hstep c hc
  have hmid : ∃ mid, now.cell? k = some mid ∧ c.object = mid.object ∧ c.immortal = mid.immortal := by
    cases t with
    | take x => exact incref_survivor hstep hc
    | drop x => exact releaseAll_survivor hstep hc
  obtain ⟨mid, hmid, hobject, himm⟩ := hmid
  obtain ⟨first, hfirst, hobject', himm'⟩ := ih mid hmid
  exact ⟨first, hfirst, hobject.trans hobject', himm.trans himm'⟩

theorem cell?_setCount {d : HeapCell} (hd : heap.cell? h = some d) (hc : heap.cell? k = some c)
    (n : Nat) : ∃ m, (heap.put h (some { d with count := n })).cell? k = some { c with count := m } := by
  by_cases hkh : k = h
  · subst hkh
    obtain rfl := Option.some.inj (hc.symm.trans hd)
    exact ⟨n, (cell?_put hd _ k).trans (if_pos rfl)⟩
  · exact ⟨c.count, ((cell?_put hd _ k).trans (if_neg hkh)).trans hc⟩

theorem releaseAll_immortal (hrel : heap.releaseAll l = .ok heap') (hc : heap.cell? k = some c)
    (himm : c.immortal) : ∃ m, heap'.cell? k = some { c with count := m } := by
  refine releaseAll_induct (fun now _ => ∃ m, now.cell? k = some { c with count := m })
    ?lower ?free hrel ⟨c.count, hc⟩
  case lower =>
    rintro now h l' d hd - - ⟨m, hm⟩
    exact cell?_setCount hd hm _
  case free =>
    rintro now h l' d hd - hmortal ⟨m, hm⟩
    refine ⟨m, ?_⟩
    rw [cell?_freeCell hd, if_neg ?_, hm]
    rintro rfl
    obtain rfl := Option.some.inj (hm.symm.trans hd)
    exact Bool.false_ne_true (hmortal.symm.trans himm)

theorem transferAll_immortal (ht : heap.transferAll ts = .ok heap') (hc : heap.cell? k = some c)
    (himm : c.immortal) : ∃ m, heap'.cell? k = some { c with count := m } := by
  refine foldlM_induct (fun now => ∃ m, now.cell? k = some { c with count := m }) ?_ ⟨c.count, hc⟩ ht
  rintro t - now next ⟨m, hm⟩ hstep
  cases t with
  | take x =>
    obtain ⟨d, hd, -, rfl⟩ := incref_eq_ok.1 hstep
    exact cell?_setCount hd hm _
  | drop x => exact releaseAll_immortal (c := { c with count := m }) hstep hm himm

/-- No object is gone when a share of it is to be taken, if each has a share more than will be given
back. -/
theorem transferAll_ne_dangling
    (hcovers : ∀ k, ((ts.filterMap Transfer.dropped?).count k : Int) ≤ heap.external k)
    (hheld : ∀ h, .take h ∈ ts → ((ts.filterMap Transfer.dropped?).count h : Int) < heap.external h)
    (k : Handle) : heap.transferAll ts ≠ .error (.dangling k) := by
  induction ts generalizing heap with
  | nil =>
    intro h
    cases h
  | cons t ts ih =>
    rw [transferAll, List.foldlM_cons]
    cases t with
    | take h =>
      have hpos : 0 < heap.external h := by
        have := hheld h List.mem_cons_self
        omega
      obtain ⟨c, hc, -⟩ := live_of_external hpos
      by_cases hlt : c.count < HeapCell.maxCount
      · have hinc : heap.incref h = .ok (heap.put h (some { c with count := c.count + 1 })) :=
          incref_eq_ok.2 ⟨c, hc, hlt, rfl⟩
        have hmore : ∀ x, heap.external x ≤
            (heap.put h (some { c with count := c.count + 1 })).external x := by
          intro x
          have := external_incref hinc x
          omega
        show (heap.incref h >>= _) ≠ _
        rw [hinc]
        refine ih (fun x => Int.le_trans (hcovers x) (hmore x)) fun x hx => ?_
        exact Int.lt_of_lt_of_le (hheld x (List.mem_cons_of_mem _ hx)) (hmore x)
      · simp [transfer, Heap.incref, cell, hc, hlt]
    | drop h =>
      have hcount : ∀ x, ((Transfer.drop h :: ts).filterMap Transfer.dropped?).count x =
          [h].count x + (ts.filterMap Transfer.dropped?).count x := by
        intro x
        rw [← List.count_append]
        rfl
      have hone : ∀ x, ([h].count x : Int) ≤ heap.external x := by
        intro x
        have := hcovers x
        rw [hcount] at this
        omega
      obtain ⟨next, hnext⟩ := releaseAll_ok hone
      have hless := external_releaseAll hnext
      show (heap.releaseAll [h] >>= _) ≠ _
      rw [hnext]
      refine ih (fun x => ?_) fun x hx => ?_
      · have := hcovers x
        rw [hcount] at this
        rw [hless]
        omega
      · have := hheld x (List.mem_cons_of_mem _ hx)
        rw [hcount] at this
        rw [hless]
        omega

/-! ## Two heaps side by side -/

/-- The references name no mortal object of the heap. -/
def Foreign (heap : Heap) (l : List Handle) : Prop :=
  ∀ h ∈ l, ∀ c, heap.cell? h = some c → c.immortal

theorem Foreign.transferAll (hf : heap.Foreign l) (ht : heap.transferAll ts = .ok heap') :
    heap'.Foreign l := by
  intro h hh c hc
  obtain ⟨old, hold, -, himm⟩ := transferAll_survivor ht hc
  rw [himm]
  exact hf h hh old hold

theorem Grows.setCount (g : old.Grows new taken) (hc : old.cell? h = some c) (n : Nat) :
    (old.put h (some { c with count := n })).Grows
      (new.put h (some { c with count := n + taken.count h })) taken := by
  have hnew := g.kept h c hc
  constructor
  · intro k d hd
    rw [cell?_put hc] at hd
    rw [cell?_put hnew]
    split at hd
    · next hk =>
      obtain rfl := Option.some.inj hd
      rw [if_pos hk, hk]
    · next hk =>
      rw [if_neg hk]
      exact g.kept k d hd
  · intro k d hnone hd
    rw [cell?_put hc] at hnone
    rw [cell?_put hnew] at hd
    split at hnone
    · cases hnone
    · next hk =>
      rw [if_neg hk] at hd
      exact g.fresh k d hnone hd
  · intro k hk
    rw [cell?_put hnew]
    split
    · exact ⟨_, rfl⟩
    · exact g.live k hk

theorem Grows.incref (g : old.Grows new taken) (hc : old.cell? h = some c)
    (hlt : c.count + taken.count h < HeapCell.maxCount) :
    ∃ old' new', old.incref h = .ok old' ∧ new.incref h = .ok new' ∧ old'.Grows new' taken := by
  refine ⟨_, _, incref_eq_ok.2 ⟨c, hc, by omega, rfl⟩,
    incref_eq_ok.2 ⟨_, g.kept h c hc, hlt, rfl⟩, ?_⟩
  have hcount : c.count + taken.count h + 1 = c.count + 1 + taken.count h := by omega
  rw [hcount]
  exact g.setCount hc (c.count + 1)

theorem Grows.freeCell (g : old.Grows new taken) (hc : old.cell? h = some c)
    (hout : taken.count h = 0) : (old.freeCell h).Grows (new.freeCell h) taken := by
  have hnew := g.kept h c hc
  constructor
  · intro k d hd
    rw [cell?_freeCell hc] at hd
    rw [cell?_freeCell hnew]
    split at hd
    · cases hd
    · next hk =>
      rw [if_neg hk]
      exact g.kept k d hd
  · intro k d hnone hd
    rw [cell?_freeCell hc] at hnone
    rw [cell?_freeCell hnew] at hd
    split at hd
    · cases hd
    · next hk =>
      rw [if_neg hk] at hnone
      exact g.fresh k d hnone hd
  · intro k hk
    have hne : k ≠ h := by
      rintro rfl
      exact List.count_eq_zero.1 hout hk
    rw [cell?_freeCell hnew, if_neg hne]
    exact g.live k hk

/-- A release does the same to both heaps: what only the second has is not freed, since the release
starts from objects of the first and those have no other children. -/
theorem Grows.releaseAll_both (g : old.Grows new taken) (hf : old.Foreign taken)
    (hrel : old.releaseAll l = .ok old') :
    ∃ new', new.releaseAll l = .ok new' ∧ old'.Grows new' taken := by
  fun_induction Heap.releaseAll old l generalizing new with
  | case1 old =>
    obtain rfl := Except.ok.inj hrel
    exact ⟨new, by rw [Heap.releaseAll], g⟩
  | case2 => cases hrel
  | case3 => cases hrel
  | case4 old h l c hc hz hmany ih =>
    have hpos : 0 < c.count := Nat.pos_of_ne_zero hz
    have hcount : c.count + taken.count h - 1 = c.count - 1 + taken.count h := by omega
    have hmany' : 1 < c.count + taken.count h ∨ c.immortal := by
      rcases hmany with hmany | himm
      · exact .inl (by omega)
      · exact .inr himm
    rw [releaseAll_lower (g.kept h c hc) (Nat.lt_of_lt_of_le hpos (Nat.le_add_right _ _)) hmany']
    show ∃ new', (new.put h (some { c with count := c.count + taken.count h - 1 })).releaseAll l = _ ∧ _
    rw [hcount]
    refine ih (g.setCount hc _) ?_ hrel
    intro k hk d hd
    rw [cell?_put hc] at hd
    split at hd
    · next hkh =>
      obtain rfl := Option.some.inj hd
      exact hf k hk c (hkh ▸ hc)
    · exact hf k hk d hd
  | case5 old h l c hc hz hlast ih =>
    simp only [not_or, Bool.not_eq_true] at hlast
    have hout : taken.count h = 0 := by
      refine List.count_eq_zero.2 fun hh => ?_
      have himm := hf h hh c hc
      rw [hlast.2] at himm
      cases himm
    have hnew : new.cell? h = some c := by
      rw [g.kept h c hc, hout]
      rfl
    rw [releaseAll_free hnew (by omega) hlast.2]
    refine ih (g.freeCell hc hout) ?_ hrel
    intro k hk d hd
    rw [cell?_freeCell hc] at hd
    split at hd
    · cases hd
    · exact hf k hk d hd

end Heap

end Bailout
