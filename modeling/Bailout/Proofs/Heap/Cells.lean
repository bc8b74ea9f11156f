import Bailout.Heap.Basic
import Bailout.Proofs.Fallible
import Mathlib.Algebra.BigOperators.Group.List.Basic
import Mathlib.Algebra.Order.Ring.Nat

/-!
# Heap cells

The heap seen through `cell?`: what a handle names after a cell is overwritten, emptied or taken into
use. A sound heap keeps its free list exact, so a new object never lands on a live one. `total` adds up
a measure of the live objects, and follows the same three changes.
-/

namespace Bailout

namespace Heap

variable {heap heap' : Heap} {h k : Handle} {c d : HeapCell}

theorem cell?_eq_some : heap.cell? h = some c ↔ heap.cells[h.index]? = some (some c) := by
  unfold cell?
  rcases heap.cells[h.index]? with _ | _ | x <;> simp

theorem cell_eq_ok : heap.cell h = .ok c ↔ heap.cell? h = some c := by
  unfold cell
  cases heap.cell? h <;> simp

theorem isLive_iff : heap.isLive h ↔ ∃ c, heap.cell? h = some c := Option.isSome_iff_exists

/-- The free list is exact: it lists every empty cell once. -/
structure Sound (heap : Heap) : Prop where
  nodup : heap.free.Nodup
  vacant : ∀ i, i ∈ heap.free ↔ heap.cells[i]? = some none

theorem sound_initial : initial.Sound := by
  refine ⟨by decide, fun i => ?_⟩
  match i with
  | 0 | 1 | 2 => decide
  | i + 3 => simp [initial, allocImmortal, allocCell]

/-! ## Overwriting a live cell -/

theorem cell?_put (hc : heap.cell? h = some c) (x : Option HeapCell) (k : Handle) :
    (heap.put h x).cell? k = if k = h then x else heap.cell? k := by
  have hlt : h.index < heap.cells.length := (List.getElem?_eq_some_iff.1 (cell?_eq_some.1 hc)).1
  obtain ⟨i⟩ := h
  obtain ⟨j⟩ := k
  by_cases hij : j = i
  · subst hij
    simp [cell?, put, hlt]
  · simp [cell?, put, hij, Ne.symm hij]

theorem Sound.put (hs : heap.Sound) (hc : heap.cell? h = some c) (d : HeapCell) :
    (heap.put h (some d)).Sound := by
  refine ⟨hs.nodup, fun i => ?_⟩
  have hlt : h.index < heap.cells.length := (List.getElem?_eq_some_iff.1 (cell?_eq_some.1 hc)).1
  by_cases hi : h.index = i
  · subst hi
    have : h.index ∉ heap.free := fun hm => by simp [cell?_eq_some.1 hc, hs.vacant] at hm
    simpa [Heap.put, hlt] using this
  · simpa [Heap.put, List.getElem?_set_ne hi] using hs.vacant i

/-! ## Emptying a live cell -/

theorem cell?_freeCell (hc : heap.cell? h = some c) (k : Handle) :
    (heap.freeCell h).cell? k = if k = h then none else heap.cell? k :=
  cell?_put hc none k

theorem Sound.freeCell (hs : heap.Sound) (hc : heap.cell? h = some c) : (heap.freeCell h).Sound := by
  have hlt : h.index < heap.cells.length := (List.getElem?_eq_some_iff.1 (cell?_eq_some.1 hc)).1
  have hout : h.index ∉ heap.free := fun hm => by simp [cell?_eq_some.1 hc, hs.vacant] at hm
  refine ⟨List.nodup_cons.2 ⟨hout, hs.nodup⟩, fun i => ?_⟩
  by_cases hi : h.index = i
  · subst hi
    simp [Heap.freeCell, Heap.put, hlt]
  · simpa [Heap.freeCell, Heap.put, List.getElem?_set_ne hi, Ne.symm hi] using hs.vacant i

/-! ## Taking a cell into use -/

theorem cell?_allocCell_fst (hs : heap.Sound) (c : HeapCell) :
    heap.cell? (heap.allocCell c).1 = none := by
  unfold allocCell
  split
  · next i free hfree => simp [cell?, (hs.vacant i).1 (by simp [hfree])]
  · simp [cell?]

theorem cell?_allocCell (hs : heap.Sound) (c : HeapCell) (k : Handle) :
    (heap.allocCell c).2.cell? k = if k = (heap.allocCell c).1 then some c else heap.cell? k := by
  obtain ⟨j⟩ := k
  unfold allocCell
  split
  · next i free hfree =>
    have hlt : i < heap.cells.length :=
      (List.getElem?_eq_some_iff.1 ((hs.vacant i).1 (by simp [hfree]))).1
    by_cases hj : j = i
    · subst hj
      simp [cell?, hlt]
    · simp [cell?, hj, Ne.symm hj]
  · rcases Nat.lt_trichotomy j heap.cells.length with hj | hj | hj
    · simp [cell?, List.getElem?_append_left hj, Nat.ne_of_lt hj]
    · subst hj
      simp [cell?]
    · have hnone : heap.cells[j]? = none := List.getElem?_eq_none (Nat.le_of_lt hj)
      have hnone' : (heap.cells ++ [some c])[j]? = none := by
        refine List.getElem?_eq_none ?_
        rw [List.length_append, List.length_singleton]
        exact hj
      simp [cell?, Nat.ne_of_gt hj, hnone, hnone']

theorem Sound.allocCell (hs : heap.Sound) (c : HeapCell) : (heap.allocCell c).2.Sound := by
  unfold Heap.allocCell
  split
  · next i free hfree =>
    have hv := (hs.vacant i).1 (by simp [hfree])
    have hnd := hs.nodup
    rw [hfree, List.nodup_cons] at hnd
    refine ⟨hnd.2, fun j => ?_⟩
    by_cases hj : i = j
    · subst hj
      simp [hnd.1, (List.getElem?_eq_some_iff.1 hv).1]
    · simpa [hfree, List.getElem?_set_ne hj, Ne.symm hj] using hs.vacant j
  · next hfree =>
    refine ⟨by simp [hfree], fun j => ?_⟩
    have hv := hs.vacant j
    rw [hfree] at hv
    rcases Nat.lt_or_ge j heap.cells.length with hj | hj
    · simpa [List.getElem?_append_left hj, hfree] using hv
    · simp [hfree, List.getElem?_append_right hj]
      rcases j - heap.cells.length with _ | n <;> simp

/-! ## Changing a share count -/

theorem incref_eq_ok : heap.incref h = .ok heap' ↔
    ∃ c, heap.cell? h = some c ∧ c.count < HeapCell.maxCount ∧
      heap.put h (some { c with count := c.count + 1 }) = heap' := by
  unfold incref
  rw [bind_eq_ok]
  simp only [cell_eq_ok]
  refine exists_congr fun c => and_congr_right fun _ => ?_
  split
  · next hlt => simp [hlt]
  · next hlt => simp [hlt]

theorem Sound.incref (hs : heap.Sound) (h' : heap.incref h = .ok heap') : heap'.Sound := by
  obtain ⟨c, hc, -, rfl⟩ := incref_eq_ok.1 h'
  exact hs.put hc _

theorem setGenStatus_eq_ok {status : GenStatus} (h' : heap.setGenStatus h status = .ok heap') :
    ∃ c code old, heap.cell? h = some c ∧ c.object = .generator code old ∧
      heap.put h (some { c with object := .generator code status }) = heap' := by
  simp only [setGenStatus, get, set, bind_eq_ok, map_eq_ok, cell_eq_ok] at h'
  obtain ⟨object, ⟨c, hc, rfl⟩, h'⟩ := h'
  split at h'
  · next code old hobj =>
    obtain ⟨c', hc', h'⟩ := bind_eq_ok.1 h'
    rw [cell_eq_ok, hc] at hc'
    obtain rfl : c = c' := by simpa using hc'
    exact ⟨c, code, old, hc, hobj, by simpa using h'⟩
  · simp at h'

/-! ## Measures of the live objects -/

/-- Adds up a measure of the live objects. -/
def total (measure : HeapCell → Nat) (heap : Heap) : Nat :=
  (heap.cells.map fun c => (c.map measure).getD 0).sum

theorem sum_set_add {l : List Nat} {i n : Nat} (hi : l[i]? = some n) (m : Nat) :
    (l.set i m).sum + n = l.sum + m := by
  obtain ⟨hlt, rfl⟩ := List.getElem?_eq_some_iff.1 hi
  have hold := List.sum_set l i l[i]
  rw [List.set_getElem_self, if_pos hlt] at hold
  rw [List.sum_set, if_pos hlt, hold]
  omega

theorem total_put (measure : HeapCell → Nat) (hc : heap.cell? h = some c) (x : Option HeapCell) :
    (heap.put h x).total measure + measure c = heap.total measure + (x.map measure).getD 0 := by
  unfold total Heap.put
  rw [List.map_set]
  exact sum_set_add (by simp [cell?_eq_some.1 hc]) _

theorem total_allocCell (measure : HeapCell → Nat) (hs : heap.Sound) (c : HeapCell) :
    (heap.allocCell c).2.total measure = heap.total measure + measure c := by
  unfold total Heap.allocCell
  split
  · next i free hfree =>
    have hv := (hs.vacant i).1 (by simp [hfree])
    have := sum_set_add (l := heap.cells.map fun c => (c.map measure).getD 0) (i := i) (n := 0)
      (by simp [hv]) (measure c)
    simpa [List.map_set] using this
  · simp

theorem totalCount_eq_total (heap : Heap) : heap.totalCount = heap.total (·.count) := by
  rw [totalCount, total, List.sum_eq_foldr]

end Heap

end Bailout
