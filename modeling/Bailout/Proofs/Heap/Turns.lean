import Bailout.Proofs.Heap.History

/-!
# The release loop, turn by turn

A release works through a list of references that grows whenever an object is freed. Each turn of the
loop takes one share out of the heap, whatever the object graph looks like, so the shares of all live
objects bound the number of turns: `Release.decref_ends`. An object that is freed is not there to be freed
again, and the free list grows by exactly the objects that were freed.
-/

namespace Bailout

/-- The loop of a release between two turns. -/
structure Release where
  heap : Heap
  /-- The references to release, the next one first. -/
  pending : List Handle
  /-- The objects freed so far, the last one first. -/
  freed : List Handle := []

namespace Release

/-- One turn of the loop, which is over when nothing is pending. -/
def turn (s : Release) : Option (Except Fault Release) :=
  match s.pending with
  | [] => none
  | h :: pending => some do
    let c ← s.heap.cell h
    if c.count = 0 then throw (.countUnderflow h)
    else if 1 < c.count ∨ c.immortal then
      return { s with heap := s.heap.put h (some { c with count := c.count - 1 }), pending }
    else
      return ⟨s.heap.freeCell h, c.object.children.reverse ++ pending, h :: s.freed⟩

/-- The loop with at most `n` turns: where it ends and what stops it, or nothing if it needs more. A turn
that faults is the last one. -/
def within : Nat → Release → Option (Release × Option Fault)
  | 0, s => if s.pending.isEmpty then some (s, none) else none
  | n + 1, s =>
    match s.turn with
    | none => some (s, none)
    | some (.error e) => some (s, some e)
    | some (.ok s') => within n s'

variable {s s' last : Release} {heap : Heap} {e : Fault} {stop : Option Fault} {n : Nat}

/-! ## One turn -/

theorem turn_eq_none : s.turn = none ↔ s.pending = [] := by
  unfold turn
  cases s.pending <;> simp

theorem turn_eq_error (h : s.turn = some (.error e)) :
    ∃ k pending, s.pending = k :: pending ∧
      (s.heap.cell? k = none ∧ e = .dangling k ∨
        ∃ c, s.heap.cell? k = some c ∧ c.count = 0 ∧ e = .countUnderflow k) := by
  unfold turn at h
  cases hp : s.pending with
  | nil =>
    rw [hp] at h
    cases h
  | cons k pending =>
    rw [hp] at h
    have h := Option.some.inj h
    refine ⟨k, pending, rfl, ?_⟩
    cases hc : s.heap.cell? k with
    | none =>
      rw [Heap.cell, hc] at h
      exact .inl ⟨rfl, (Except.error.inj h).symm⟩
    | some c =>
      rw [Heap.cell_eq_ok.2 hc, ok_bind] at h
      split at h
      · next hz => exact .inr ⟨c, rfl, hz, (Except.error.inj h).symm⟩
      · split at h <;> cases h

/-- A turn that does not fault lowers a count, or frees an object and makes its children pending. -/
theorem turn_eq_ok (h : s.turn = some (.ok s')) :
    ∃ k pending c, s.pending = k :: pending ∧ s.heap.cell? k = some c ∧
      (0 < c.count ∧ (1 < c.count ∨ c.immortal) ∧
          s' = { s with heap := s.heap.put k (some { c with count := c.count - 1 }), pending } ∨
        c.count = 1 ∧ c.immortal = false ∧
          s' = ⟨s.heap.freeCell k, c.object.children.reverse ++ pending, k :: s.freed⟩) := by
  unfold turn at h
  cases hp : s.pending with
  | nil =>
    rw [hp] at h
    cases h
  | cons k pending =>
    rw [hp] at h
    obtain ⟨c, hc, h⟩ := bind_eq_ok.1 (Option.some.inj h)
    refine ⟨k, pending, c, rfl, Heap.cell_eq_ok.1 hc, ?_⟩
    split at h
    · cases h
    · next hz =>
      split at h
      · next hmany => exact .inl ⟨Nat.pos_of_ne_zero hz, hmany, (Except.ok.inj h).symm⟩
      · next hlast =>
        simp only [not_or, Bool.not_eq_true] at hlast
        exact .inr ⟨by omega, hlast.2, (Except.ok.inj h).symm⟩

/-! ## The number of turns -/

theorem totalCount_turn (h : s.turn = some (.ok s')) :
    s'.heap.totalCount + 1 = s.heap.totalCount := by
  rw [Heap.totalCount_eq_total, Heap.totalCount_eq_total]
  obtain ⟨k, pending, c, -, hc, ⟨hpos, -, rfl⟩ | ⟨hone, -, rfl⟩⟩ := turn_eq_ok h
  · have hput := Heap.total_put (·.count) hc (some { c with count := c.count - 1 })
    simp only [Option.map_some, Option.getD_some] at hput
    show (s.heap.put k _).total _ + 1 = _
    omega
  · have hput : (s.heap.freeCell k).total (·.count) + c.count = s.heap.total (·.count) + 0 :=
      Heap.total_put (·.count) hc none
    show (s.heap.freeCell k).total _ + 1 = _
    omega

/-- The shares of all live objects and one turn more are enough. -/
theorem within_of_totalCount_lt (hn : s.heap.totalCount < n) :
    ∃ last stop, s.within n = some (last, stop) := by
  induction n generalizing s with
  | zero => exact absurd hn (Nat.not_lt_zero _)
  | succ n ih =>
    cases ht : s.turn with
    | none => exact ⟨s, none, by rw [within, ht]⟩
    | some result =>
      cases result with
      | error e => exact ⟨s, some e, by rw [within, ht]⟩
      | ok s' =>
        have := totalCount_turn ht
        obtain ⟨last, stop, hrest⟩ := ih (s := s') (by omega)
        exact ⟨last, stop, by rw [within, ht]; exact hrest⟩

/-- What every turn keeps, the loop keeps. -/
theorem within_induct (P : Release → Prop) (hturn : ∀ s s', P s → s.turn = some (.ok s') → P s')
    (hs : P s) (h : s.within n = some (last, stop)) :
    P last ∧ (stop = none ∧ last.turn = none ∨ ∃ e, stop = some e ∧ last.turn = some (.error e)) := by
  induction n generalizing s with
  | zero =>
    unfold within at h
    split at h
    · next hempty =>
      obtain ⟨rfl, rfl⟩ := Prod.mk.inj (Option.some.inj h)
      exact ⟨hs, .inl ⟨rfl, turn_eq_none.2 (List.isEmpty_iff.1 hempty)⟩⟩
    · cases h
  | succ n ih =>
    unfold within at h
    split at h
    · next ht =>
      obtain ⟨rfl, rfl⟩ := Prod.mk.inj (Option.some.inj h)
      exact ⟨hs, .inl ⟨rfl, ht⟩⟩
    · next e ht =>
      obtain ⟨rfl, rfl⟩ := Prod.mk.inj (Option.some.inj h)
      exact ⟨hs, .inr ⟨e, rfl, ht⟩⟩
    · next s' ht => exact ih (hturn s s' hs ht) h

/-! ## What is freed -/

/-- How far the loop has come from a heap: the objects freed are those that were there and are gone, and
the free list has grown by their cells. -/
structure Frees (heap : Heap) (s : Release) : Prop where
  nodup : s.freed.Nodup
  mem : ∀ k, k ∈ s.freed ↔ heap.isLive k ∧ ¬ s.heap.isLive k
  /-- No object is made. -/
  old : ∀ k, s.heap.isLive k → heap.isLive k
  free : s.heap.free = s.freed.map (·.index) ++ heap.free
  /-- The counter of live objects never goes below zero where it was exact. -/
  live : heap.live = heap.occupied →
    s.heap.live + s.freed.length = heap.live ∧ s.heap.live = s.heap.occupied

theorem Frees.turn (hf : Frees heap s) (h : s.turn = some (.ok s')) : Frees heap s' := by
  obtain ⟨k, pending, c, -, hc, ⟨-, -, rfl⟩ | ⟨-, -, rfl⟩⟩ := turn_eq_ok h
  · refine ⟨hf.nodup, fun j => ?_, fun j hj => hf.old j ?_, hf.free, fun hlive => ?_⟩
    · rw [Heap.isLive_put hc]
      exact hf.mem j
    · rwa [Heap.isLive_put hc] at hj
    · rw [Heap.occupied_put hc]
      exact hf.live hlive
  · have hk : s.heap.isLive k := Heap.isLive_iff.2 ⟨c, hc⟩
    have hnew : k ∉ s.freed := fun hmem => ((hf.mem k).1 hmem).2 hk
    refine ⟨List.nodup_cons.2 ⟨hnew, hf.nodup⟩, fun j => ?_, fun j hj => ?_, ?_, fun hlive => ?_⟩
    · rw [List.mem_cons, hf.mem, Heap.isLive_freeCell hc]
      by_cases hj : j = k
      · simp [hj, hf.old k hk]
      · simp [hj]
    · exact hf.old j ((Heap.isLive_freeCell hc).1 hj).2
    · exact congrArg (k.index :: ·) hf.free
    · obtain ⟨hcount, hexact⟩ := hf.live hlive
      have hoccupied := Heap.occupied_freeCell hc
      show s.heap.live - 1 + (s.freed.length + 1) = _ ∧ s.heap.live - 1 = (s.heap.freeCell k).occupied
      omega

theorem Frees.start (heap : Heap) (pending : List Handle) : Frees heap { heap, pending } where
  nodup := List.nodup_nil
  mem k := by simp
  old k hk := hk
  free := rfl
  live hlive := ⟨rfl, hlive⟩

/-! ## The loop -/

theorem releaseAll_turn (h : s.turn = some (.ok s')) :
    s.heap.releaseAll s.pending = s'.heap.releaseAll s'.pending := by
  obtain ⟨k, pending, c, hp, hc, ⟨hpos, hmany, rfl⟩ | ⟨hone, hmortal, rfl⟩⟩ := turn_eq_ok h
  · rw [hp, Heap.releaseAll_lower hc hpos hmany]
  · rw [hp, Heap.releaseAll_free hc hone hmortal]

theorem releaseAll_fault (h : s.turn = some (.error e)) : s.heap.releaseAll s.pending = .error e := by
  obtain ⟨k, pending, hp, ⟨hc, rfl⟩ | ⟨c, hc, hz, rfl⟩⟩ := turn_eq_error h
  · rw [hp, Heap.releaseAll]
    split <;> simp_all
  · rw [hp, Heap.releaseAll]
    split <;> simp_all

/-- **Giving back a share comes to an end**, on any heap and for any reference, after at most as many turns
as live objects have shares, and one. It ends well, or with a reference to a freed object or a count that
is used up, and has freed no object twice. -/
theorem decref_ends (heap : Heap) (h : Handle) :
    ∃ last stop, within (heap.totalCount + 1) { heap, pending := [h] } = some (last, stop) ∧
      heap.decref h = stop.elim (.ok last.heap) .error ∧
      (∀ e, stop = some e → ∃ k, e = .dangling k ∨ e = .countUnderflow k) ∧ Frees heap last := by
  obtain ⟨last, stop, hends⟩ :=
    within_of_totalCount_lt (s := { heap, pending := [h] }) (Nat.lt_succ_self _)
  have hkept : ∀ s s' : Release,
      heap.decref h = s.heap.releaseAll s.pending ∧ Frees heap s → s.turn = some (.ok s') →
        heap.decref h = s'.heap.releaseAll s'.pending ∧ Frees heap s' :=
    fun s s' hs ht => ⟨hs.1.trans (releaseAll_turn ht), hs.2.turn ht⟩
  obtain ⟨⟨hrel, hfrees⟩, hstop⟩ := within_induct _ hkept ⟨rfl, .start heap [h]⟩ hends
  refine ⟨last, stop, hends, ?_, ?_, hfrees⟩
  · rcases hstop with ⟨rfl, ht⟩ | ⟨e, rfl, ht⟩
    · rw [hrel, turn_eq_none.1 ht, Heap.releaseAll]
      rfl
    · rw [hrel, releaseAll_fault ht]
      rfl
  · rintro e rfl
    rcases hstop with ⟨hnone, -⟩ | ⟨e', he, ht⟩
    · cases hnone
    · obtain rfl := Option.some.inj he
      obtain ⟨k, pending, -, ⟨-, rfl⟩ | ⟨c, -, -, rfl⟩⟩ := turn_eq_error ht
      · exact ⟨k, .inl rfl⟩
      · exact ⟨k, .inr rfl⟩

end Release

end Bailout
