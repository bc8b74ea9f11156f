import Mathlib.Data.List.ReduceOption
import Bailout.Proofs.Heap.Cells

/-!
# Shares held from outside the heap

`external` is what is left of an object's count once the references among live objects are taken off:
the shares held by frames, footers, native code and callers. Taking a share raises it by one, a new
object enters with its first share, and releasing a list of references lowers it by exactly their
number, whatever cascade of frees that starts: `external_releaseAll`. When the external shares cover
the list, the release does not fail: `releaseAll_ok`.
-/

namespace Bailout

namespace Heap

variable {heap heap' : Heap} {h k : Handle} {c : HeapCell} {l l' : List Handle}

/-- The shares of an object; a freed one has none. -/
def shares (heap : Heap) (h : Handle) : Nat := (heap.count? h).getD 0

/-- How often live objects refer to an object. -/
def childRefs (heap : Heap) (h : Handle) : Nat := heap.total fun c => c.object.children.count h

/-- The shares that no live object holds. Negative where an object has fewer shares than live objects
refer to it. -/
def external (heap : Heap) (h : Handle) : Int := heap.shares h - heap.childRefs h

theorem shares_eq (hc : heap.cell? h = some c) : heap.shares h = c.count := by
  simp [shares, count?, hc]

theorem shares_eq_zero (hc : heap.cell? h = none) : heap.shares h = 0 := by
  simp [shares, count?, hc]

theorem live_of_external (hx : 0 < heap.external h) : ∃ c, heap.cell? h = some c ∧ 0 < c.count := by
  unfold external at hx
  cases hc : heap.cell? h with
  | none => simp [shares_eq_zero hc] at hx; omega
  | some c => exact ⟨c, rfl, by rw [shares_eq hc] at hx; omega⟩

/-! ## One change -/

theorem external_put (hc : heap.cell? h = some c) {d : HeapCell}
    (hd : d.object.children = c.object.children) (k : Handle) :
    (heap.put h (some d)).external k =
      heap.external k + (if k = h then (d.count - c.count : Int) else 0) := by
  have href := total_put (fun c => c.object.children.count k) hc (some d)
  simp only [Option.map_some, Option.getD_some, hd] at href
  by_cases hk : k = h
  · subst hk
    simp only [external, childRefs, shares, count?, cell?_put hc, hc, if_true, Option.map_some,
      Option.getD_some]
    omega
  · simp only [external, childRefs, shares, count?, cell?_put hc, hk, if_false]
    omega

theorem external_setCount (hc : heap.cell? h = some c) (n : Nat) (k : Handle) :
    (heap.put h (some { c with count := n })).external k =
      heap.external k + (if k = h then (n - c.count : Int) else 0) :=
  external_put hc (d := { c with count := n }) rfl k

/-- Freeing a cell drops its shares, and hands the shares of its children over. -/
theorem external_freeCell (hc : heap.cell? h = some c) (k : Handle) :
    (heap.freeCell h).external k =
      heap.external k - (if k = h then (c.count : Int) else 0) + c.object.children.count k := by
  have href : (heap.freeCell h).total (fun c => c.object.children.count k) + _ = _ :=
    total_put (fun c => c.object.children.count k) hc none
  simp only [Option.map_none, Option.getD_none] at href
  by_cases hk : k = h
  · subst hk
    simp only [external, childRefs, shares, count?, cell?_freeCell hc, hc, if_true, Option.map_some,
      Option.map_none, Option.getD_some, Option.getD_none]
    omega
  · simp only [external, childRefs, shares, count?, cell?_freeCell hc, hk, if_false]
    omega

/-- A new object takes over one share of each of its children. -/
theorem external_allocCell (hs : heap.Sound) (c : HeapCell) (k : Handle) :
    (heap.allocCell c).2.external k =
      heap.external k + (if k = (heap.allocCell c).1 then (c.count : Int) else 0) -
        c.object.children.count k := by
  have href := total_allocCell (fun c => c.object.children.count k) hs c
  by_cases hk : k = (heap.allocCell c).1
  · have hfresh : heap.cell? k = none := hk ▸ cell?_allocCell_fst hs c
    simp only [external, childRefs, shares, count?, cell?_allocCell hs, hk, if_true, Option.map_some,
      Option.getD_some, cell?_allocCell_fst hs, Option.map_none, Option.getD_none] at href ⊢
    omega
  · simp only [external, childRefs, shares, count?, cell?_allocCell hs, hk, if_false]
    omega

theorem external_alloc (hs : heap.Sound) {object : Object} (ho : object.children = []) (k : Handle) :
    (heap.alloc object).2.external k = heap.external k + [(heap.alloc object).1].count k := by
  rw [alloc, external_allocCell hs]
  by_cases hk : k = (heap.allocCell ⟨object, 1, false⟩).1
  · simp [hk, ho]
  · simp [hk, ho, Ne.symm hk]

theorem external_incref (hinc : heap.incref h = .ok heap') (k : Handle) :
    heap'.external k = heap.external k + [h].count k := by
  obtain ⟨c, hc, -, rfl⟩ := incref_eq_ok.1 hinc
  rw [external_setCount hc]
  by_cases hk : k = h
  · subst hk
    rw [if_pos rfl, List.count_singleton_self]
    omega
  · simp [hk, Ne.symm hk]

theorem external_setGenStatus {status : GenStatus} (hset : heap.setGenStatus h status = .ok heap')
    (k : Handle) : heap'.external k = heap.external k := by
  obtain ⟨c, code, old, hc, hobj, rfl⟩ := setGenStatus_eq_ok hset
  rw [external_put hc (by simp [hobj, Object.children])]
  simp

/-! ## Releasing -/

/-- What every step of a release keeps, the release keeps. A step lowers a count, or frees an object and
puts its children on the list. -/
theorem releaseAll_induct (P : Heap → List Handle → Prop)
    (lower : ∀ heap h l c, heap.cell? h = some c → 0 < c.count → 1 < c.count ∨ c.immortal →
      P heap (h :: l) → P (heap.put h (some { c with count := c.count - 1 })) l)
    (free : ∀ heap h l c, heap.cell? h = some c → c.count = 1 → c.immortal = false → P heap (h :: l) →
      P (heap.freeCell h) (c.object.children.reverse ++ l))
    (hrel : heap.releaseAll l = .ok heap') (hP : P heap l) : P heap' [] := by
  fun_induction releaseAll heap l with
  | case1 heap =>
    obtain rfl : heap = heap' := by simpa using hrel
    exact hP
  | case2 => simp at hrel
  | case3 => simp at hrel
  | case4 heap h l c hc hz hmany ih =>
    exact ih hrel (lower heap h l c hc (Nat.pos_of_ne_zero hz) hmany hP)
  | case5 heap h l c hc hz hlast ih =>
    simp only [not_or, Bool.not_eq_true] at hlast
    exact ih hrel (free heap h l c hc (by omega) hlast.2 hP)

theorem Sound.releaseAll (hs : heap.Sound) (hrel : heap.releaseAll l = .ok heap') : heap'.Sound :=
  releaseAll_induct (fun heap _ => heap.Sound) (fun _ _ _ _ hc _ _ hs => hs.put hc _)
    (fun _ _ _ _ hc _ _ hs => hs.freeCell hc) hrel hs

/-- A release takes exactly one external share of each reference in the list. -/
theorem external_releaseAll (hrel : heap.releaseAll l = .ok heap') (k : Handle) :
    heap'.external k = heap.external k - l.count k := by
  suffices h : heap'.external k - ([] : List Handle).count k = heap.external k - l.count k by
    simpa using h
  refine releaseAll_induct (fun now l' => now.external k - l'.count k = heap.external k - l.count k)
    ?lower ?free hrel rfl
  case lower =>
    intro now h l' c hc hpos _ ih
    rw [external_setCount hc, ← ih]
    by_cases hk : k = h
    · subst hk; simp; omega
    · simp [hk, List.count_cons_of_ne (Ne.symm hk)]
  case free =>
    intro now h l' c hc hone _ ih
    rw [external_freeCell hc, ← ih]
    by_cases hk : k = h
    · subst hk; simp [hone]; omega
    · simp [hk, List.count_cons_of_ne (Ne.symm hk)]; omega

/-- A release neither makes objects nor changes what they contain. -/
theorem releaseAll_survivor (hrel : heap.releaseAll l = .ok heap') (hk : heap'.cell? k = some c) :
    ∃ old, heap.cell? k = some old ∧ c.object = old.object ∧ c.immortal = old.immortal := by
  refine releaseAll_induct (fun now _ => ∀ c, now.cell? k = some c →
    ∃ old, heap.cell? k = some old ∧ c.object = old.object ∧ c.immortal = old.immortal)
    ?lower ?free hrel (fun c hc => ⟨c, hc, rfl, rfl⟩) c hk
  case lower =>
    intro now h l' d hd _ _ ih c hc
    rw [cell?_put hd] at hc
    split at hc
    · next hkh =>
      obtain rfl := Option.some.inj hc
      exact ih d (hkh ▸ hd)
    · exact ih c hc
  case free =>
    intro now h l' d hd _ _ ih c hc
    rw [cell?_freeCell hd] at hc
    split at hc
    · simp at hc
    · exact ih c hc

theorem get?_of_releaseAll (hrel : heap.releaseAll l = .ok heap') {object : Object}
    (hget : heap.get? k = some object) (hk : heap'.isLive k) : heap'.get? k = some object := by
  obtain ⟨c, hc⟩ := isLive_iff.1 hk
  obtain ⟨old, hold, hobject, -⟩ := releaseAll_survivor hrel hc
  obtain rfl : old.object = object := by simpa [get?, hold] using hget
  simp [get?, hc, hobject]

/-- A release that the external shares cover does not fail. -/
theorem releaseAll_ok (hl : ∀ k, (l.count k : Int) ≤ heap.external k) :
    ∃ heap', heap.releaseAll l = .ok heap' := by
  fun_induction releaseAll heap l with
  | case1 heap => exact ⟨heap, rfl⟩
  | case2 heap h l hc =>
    have hpos : 0 < heap.external h := by have := hl h; simp at this; omega
    obtain ⟨c, hc', -⟩ := live_of_external hpos
    simp [hc] at hc'
  | case3 heap h l c hc hz =>
    have hpos : 0 < heap.external h := by have := hl h; simp at this; omega
    obtain ⟨c', hc', hpos⟩ := live_of_external hpos
    obtain rfl : c = c' := by simpa [hc] using hc'
    omega
  | case4 heap h l c hc hz hmany ih =>
    refine ih fun k => ?_
    have := hl k
    rw [external_setCount hc]
    by_cases hk : k = h
    · subst hk; simp at this ⊢; omega
    · simpa [hk, List.count_cons_of_ne (Ne.symm hk)] using this
  | case5 heap h l c hc hz hlast ih =>
    refine ih fun k => ?_
    have := hl k
    rw [external_freeCell hc]
    by_cases hk : k = h
    · subst hk; simp at this ⊢; omega
    · simp [hk, List.count_cons_of_ne (Ne.symm hk)] at this ⊢; omega

/-! ## Loops that release -/

theorem releaseAll_lower (hc : heap.cell? h = some c) (hpos : 0 < c.count)
    (hmany : 1 < c.count ∨ c.immortal) (l : List Handle) :
    heap.releaseAll (h :: l) = (heap.put h (some { c with count := c.count - 1 })).releaseAll l := by
  rw [releaseAll]
  split
  · simp_all
  · next d hd =>
    obtain rfl : c = d := by simpa [hc] using hd
    rw [dif_neg (Nat.ne_of_gt hpos), if_pos hmany]

theorem releaseAll_free (hc : heap.cell? h = some c) (hone : c.count = 1) (hm : c.immortal = false)
    (l : List Handle) :
    heap.releaseAll (h :: l) = (heap.freeCell h).releaseAll (c.object.children.reverse ++ l) := by
  rw [releaseAll]
  split
  · simp_all
  · next d hd =>
    obtain rfl : c = d := by simpa [hc] using hd
    rw [dif_neg (by omega), if_neg (by simp [hone, hm])]

theorem releaseAll_append (heap : Heap) (l l' : List Handle) :
    heap.releaseAll (l ++ l') = (heap.releaseAll l >>= (·.releaseAll l')) := by
  fun_induction releaseAll heap l with
  | case1 heap => rfl
  | case2 heap h l hc => rw [List.cons_append, releaseAll]; split <;> simp_all
  | case3 heap h l c hc hz => rw [List.cons_append, releaseAll]; split <;> simp_all
  | case4 heap h l c hc hz hmany ih =>
    rw [List.cons_append, releaseAll_lower hc (Nat.pos_of_ne_zero hz) hmany, ih]
  | case5 heap h l c hc hz hlast ih =>
    simp only [not_or, Bool.not_eq_true] at hlast
    rw [List.cons_append, releaseAll_free hc (by omega) hlast.2, ← ih, List.append_assoc]

theorem xdecref_eq (heap : Heap) (o : Option Handle) : heap.xdecref o = heap.releaseAll o.toList := by
  cases o with
  | none => simp [xdecref, releaseAll]
  | some h => rfl

/-- A loop whose steps release lists releases their concatenation. -/
theorem foldlM_release {α : Type} {f : Heap → α → Except Fault Heap} (refs : α → List Handle)
    {xs : List α} (hf : ∀ a ∈ xs, ∀ heap, f heap a = heap.releaseAll (refs a)) (heap : Heap) :
    xs.foldlM f heap = heap.releaseAll (xs.flatMap refs) := by
  induction xs generalizing heap with
  | nil => simp [releaseAll]
  | cons a xs ih =>
    rw [List.foldlM_cons, List.flatMap_cons, releaseAll_append, hf a List.mem_cons_self]
    cases heap.releaseAll (refs a) with
    | error e => rfl
    | ok heap => exact ih (fun b hb => hf b (List.mem_cons_of_mem _ hb)) heap

theorem foldlM_decref (l : List Handle) (heap : Heap) :
    l.foldlM decref heap = heap.releaseAll l := by
  have hloop : l.foldlM decref heap = heap.releaseAll (l.flatMap fun h => [h]) :=
    foldlM_release _ (fun _ _ _ => rfl) heap
  rwa [List.flatMap_singleton'] at hloop

theorem releaseAll_of_foldlM {α : Type} {f : Heap → α → Except Fault Heap} (refs : α → List Handle)
    (hf : ∀ heap a heap', f heap a = .ok heap' → heap.releaseAll (refs a) = .ok heap')
    {xs : List α} (h : xs.foldlM f heap = .ok heap') :
    heap.releaseAll (xs.flatMap refs) = .ok heap' := by
  induction xs generalizing heap with
  | nil => simpa [releaseAll] using h
  | cons a xs ih =>
    obtain ⟨now, ha, h⟩ := foldlM_cons_eq_ok.1 h
    rw [List.flatMap_cons, releaseAll_append, hf _ _ _ ha]
    exact ih h

theorem reduceOption_cons {α : Type} (o : Option α) (l : List (Option α)) :
    (o :: l).reduceOption = o.toList ++ l.reduceOption := by
  cases o <;> simp [List.reduceOption_cons_of_some, List.reduceOption_cons_of_none]

theorem foldlM_xdecref (slots : List (Option Handle)) (heap : Heap) :
    slots.foldlM xdecref heap = heap.releaseAll slots.reduceOption := by
  rw [foldlM_release Option.toList fun o _ heap => xdecref_eq heap o]
  congr 1
  induction slots with
  | nil => rfl
  | cons o slots ih => rw [List.flatMap_cons, reduceOption_cons, ih]

end Heap

end Bailout
