import Bailout.Proofs.Heap.Accounting
import Bailout.Proofs.Heap.Transfer

/-!
# Heaps as the operations leave them

Every operation of the heap takes a cell into use, takes a share, or releases shares. So it keeps the
free list and the counter of live objects exact, and it frees nothing immortal. What follows for every
heap that a history of operations leads to is `run_represented`: above all, a new object never lands on
one that is still in use.
-/

namespace Bailout

namespace Heap

inductive Op where
  | alloc (object : Object)
  | allocImmortal (object : Object)
  | boxSigned (value : Int)
  | boxUnsigned (value : Nat)
  | boxDouble (bits : UInt64)
  | boxBool (value : Bool)
  | incref (h : Handle)
  | decref (h : Handle)
  | xdecref (h : Option Handle)

/-- One operation, with the reference that it hands out, if it does. -/
def perform (heap : Heap) : Op → Except Fault (Option Handle × Heap)
  | .alloc object => .ok (Prod.map some id (heap.alloc object))
  | .allocImmortal object => .ok (Prod.map some id (heap.allocImmortal object))
  | .boxSigned value => .ok (Prod.map some id (heap.boxSigned value))
  | .boxUnsigned value => .ok (Prod.map some id (heap.boxUnsigned value))
  | .boxDouble bits => .ok (Prod.map some id (heap.boxDouble bits))
  | .boxBool value => Prod.map some id <$> heap.boxBool value
  | .incref h => Prod.mk none <$> heap.incref h
  | .decref h => Prod.mk none <$> heap.decref h
  | .xdecref h => Prod.mk none <$> heap.xdecref h

def run (heap : Heap) (ops : List Op) : Except Fault Heap :=
  ops.foldlM (fun heap op => (·.2) <$> heap.perform op) heap

/-- The number of cells that hold an object. -/
def occupied (heap : Heap) : Nat := heap.cells.countP (·.isSome)

variable {heap heap' : Heap} {h k : Handle} {c : HeapCell} {l : List Handle} {op : Op} {ops : List Op}

/-- What an operation can do: it takes a cell into use for an object with one share, takes a share, or
releases shares. -/
theorem perform_cases {result : Option Handle} (h : heap.perform op = .ok (result, heap')) :
    (∃ c, c.count = 1 ∧ heap' = (heap.allocCell c).2) ∨ (∃ k, heap.incref k = .ok heap') ∨
      ∃ l, heap.releaseAll l = .ok heap' := by
  cases op with
  | alloc | allocImmortal | boxSigned | boxUnsigned | boxDouble =>
    obtain ⟨-, rfl⟩ := Prod.mk.inj (Except.ok.inj h)
    exact .inl ⟨_, rfl, rfl⟩
  | boxBool value =>
    obtain ⟨⟨k, now⟩, hbox, h⟩ := map_eq_ok.1 h
    obtain ⟨-, rfl⟩ := Prod.mk.inj h
    obtain ⟨now', hinc, hbox⟩ := bind_eq_ok.1 hbox
    obtain ⟨-, rfl⟩ := Prod.mk.inj (Except.ok.inj hbox)
    exact .inr (.inl ⟨_, hinc⟩)
  | incref k =>
    obtain ⟨now, hinc, h⟩ := map_eq_ok.1 h
    obtain ⟨-, rfl⟩ := Prod.mk.inj h
    exact .inr (.inl ⟨k, hinc⟩)
  | decref k =>
    obtain ⟨now, hrel, h⟩ := map_eq_ok.1 h
    obtain ⟨-, rfl⟩ := Prod.mk.inj h
    exact .inr (.inr ⟨[k], hrel⟩)
  | xdecref k =>
    obtain ⟨now, hrel, h⟩ := map_eq_ok.1 h
    obtain ⟨-, rfl⟩ := Prod.mk.inj h
    rw [xdecref_eq] at hrel
    exact .inr (.inr ⟨k.toList, hrel⟩)

/-! ## The counter of live objects -/

theorem occupied_eq_total (heap : Heap) : heap.occupied = heap.total fun _ => 1 := by
  unfold occupied total
  induction heap.cells with
  | nil => rfl
  | cons x cells ih =>
    rw [List.countP_cons, ih, List.map_cons, List.sum_cons, Nat.add_comm]
    cases x <;> rfl

theorem occupied_put (hc : heap.cell? h = some c) (d : HeapCell) :
    (heap.put h (some d)).occupied = heap.occupied := by
  have := total_put (fun _ => 1) hc (some d)
  rw [occupied_eq_total, occupied_eq_total]
  exact Nat.add_right_cancel this

theorem occupied_freeCell (hc : heap.cell? h = some c) :
    (heap.freeCell h).occupied + 1 = heap.occupied := by
  rw [occupied_eq_total, occupied_eq_total]
  exact total_put (fun _ => 1) hc none

theorem occupied_allocCell (hs : heap.Sound) (c : HeapCell) :
    (heap.allocCell c).2.occupied = heap.occupied + 1 := by
  rw [occupied_eq_total, occupied_eq_total]
  exact total_allocCell (fun _ => 1) hs c

theorem live_allocCell (heap : Heap) (c : HeapCell) : (heap.allocCell c).2.live = heap.live + 1 := by
  unfold allocCell
  split <;> rfl

theorem live_releaseAll (hlive : heap.live = heap.occupied) (hrel : heap.releaseAll l = .ok heap') :
    heap'.live = heap'.occupied := by
  refine releaseAll_induct (fun now _ => now.live = now.occupied) ?lower ?free hrel hlive
  case lower =>
    intro now h l' c hc _ _ ih
    rw [occupied_put hc]
    exact ih
  case free =>
    intro now h l' c hc _ _ ih
    have := occupied_freeCell hc
    show now.live - 1 = _
    omega

/-! ## One operation -/

/-- The free list and the counter of live objects are exact, and what is not immortal has a share. -/
structure Exact (heap : Heap) : Prop extends heap.WellFormed where
  live : heap.live = heap.occupied

theorem exact_initial : initial.Exact := by
  have hpos : ∀ c ∈ initial.cells.filterMap id, 0 < c.count := by decide
  refine ⟨⟨sound_initial, fun h c hc _ => hpos c ?_⟩, by decide⟩
  exact List.mem_filterMap.2 ⟨some c, List.mem_of_getElem? (cell?_eq_some.1 hc), rfl⟩

theorem Exact.perform {result : Option Handle} (hx : heap.Exact)
    (h : heap.perform op = .ok (result, heap')) : heap'.Exact := by
  rcases perform_cases h with ⟨c, hone, rfl⟩ | ⟨k, hinc⟩ | ⟨l, hrel⟩
  · refine ⟨hx.toWellFormed.allocCell (by omega), ?_⟩
    rw [live_allocCell, occupied_allocCell hx.toSound, hx.live]
  · refine ⟨hx.toWellFormed.incref hinc, ?_⟩
    obtain ⟨c, hc, -, rfl⟩ := incref_eq_ok.1 hinc
    rw [occupied_put hc]
    exact hx.live
  · exact ⟨hx.toWellFormed.releaseAll hrel, live_releaseAll hx.live hrel⟩

/-- An operation changes at most the count of an immortal object. -/
theorem perform_immortal {result : Option Handle} (hs : heap.Sound)
    (h : heap.perform op = .ok (result, heap')) (hc : heap.cell? k = some c) (himm : c.immortal) :
    ∃ n, heap'.cell? k = some { c with count := n } := by
  rcases perform_cases h with ⟨d, -, rfl⟩ | ⟨k', hinc⟩ | ⟨l, hrel⟩
  · refine ⟨c.count, ?_⟩
    rw [cell?_allocCell hs, if_neg ?_, hc]
    rintro rfl
    rw [cell?_allocCell_fst hs] at hc
    cases hc
  · obtain ⟨d, hd, -, rfl⟩ := incref_eq_ok.1 hinc
    exact cell?_setCount hd hc _
  · exact releaseAll_immortal hrel hc himm

/-! ## Histories -/

theorem run_cons : heap.run (op :: ops) = .ok heap' ↔
    ∃ result now, heap.perform op = .ok (result, now) ∧ now.run ops = .ok heap' := by
  unfold run
  rw [foldlM_cons_eq_ok]
  constructor
  · rintro ⟨now, hop, hrest⟩
    obtain ⟨⟨result, now'⟩, hperform, rfl⟩ := map_eq_ok.1 hop
    exact ⟨result, now', hperform, hrest⟩
  · rintro ⟨result, now, hop, hrest⟩
    exact ⟨now, map_eq_ok.2 ⟨_, hop, rfl⟩, hrest⟩

theorem Exact.run (hx : heap.Exact) (h : heap.run ops = .ok heap') : heap'.Exact := by
  induction ops generalizing heap with
  | nil =>
    obtain rfl := Except.ok.inj h
    exact hx
  | cons op ops ih =>
    obtain ⟨result, now, hop, hrest⟩ := run_cons.1 h
    exact ih (hx.perform hop) hrest

theorem Exact.run_immortal (hx : heap.Exact) (h : heap.run ops = .ok heap')
    (hc : heap.cell? k = some c) (himm : c.immortal) :
    ∃ n, heap'.cell? k = some { c with count := n } := by
  induction ops generalizing heap c with
  | nil =>
    obtain rfl := Except.ok.inj h
    exact ⟨c.count, hc⟩
  | cons op ops ih =>
    obtain ⟨result, now, hop, hrest⟩ := run_cons.1 h
    obtain ⟨n, hn⟩ := perform_immortal hx.toSound hop hc himm
    exact ih (c := { c with count := n }) (hx.perform hop) hrest hn himm

/-- An allocation puts an object where none was, and touches nothing else. -/
structure Places (heap : Heap) (c : HeapCell) (result : Handle × Heap) : Prop where
  fresh : ¬ heap.isLive result.1
  placed : result.2.cell? result.1 = some c
  kept : ∀ k, k ≠ result.1 → result.2.cell? k = heap.cell? k

theorem Sound.places (hs : heap.Sound) (c : HeapCell) : heap.Places c (heap.allocCell c) where
  fresh := by
    unfold isLive
    rw [cell?_allocCell_fst hs]
    exact Bool.false_ne_true
  placed := by rw [cell?_allocCell hs, if_pos rfl]
  kept k hk := by rw [cell?_allocCell hs, if_neg hk]

/-- The objects that every heap starts with. -/
def singletons : List (Handle × Object) :=
  [(noneHandle, .none), (boolHandle true, .bool true), (boolHandle false, .bool false)]

/-- What is so of every heap that operations lead to. -/
structure Represented (heap : Heap) : Prop where
  nodup : heap.free.Nodup
  vacant : ∀ i, i ∈ heap.free ↔ heap.cells[i]? = some none
  live : heap.live = heap.occupied
  positive : ∀ h c, heap.cell? h = some c → c.immortal = false → 0 < c.count
  alloc : ∀ object, heap.Places ⟨object, 1, false⟩ (heap.alloc object)
  allocImmortal : ∀ object, heap.Places ⟨object, 1, true⟩ (heap.allocImmortal object)
  /-- Whatever is done later, an immortal object stays where and what it is. -/
  immortal : ∀ later heap' h c, heap.run later = .ok heap' → heap.cell? h = some c → c.immortal →
    ∃ n, heap'.cell? h = some { c with count := n }
  singletons : ∀ s ∈ singletons, ∃ n, heap.cell? s.1 = some ⟨s.2, n, true⟩
  distinct : (Heap.singletons.map (·.1)).Nodup

/-- **Every history of operations leads to a heap whose free list and counter are exact, in which new
objects are new and immortal ones stay.** -/
theorem run_represented (h : initial.run ops = .ok heap) : heap.Represented := by
  have hx := exact_initial.run h
  have hfirst : ∀ s ∈ singletons, initial.cell? s.1 = some ⟨s.2, 1, true⟩ := by decide
  exact {
    nodup := hx.nodup
    vacant := hx.vacant
    live := hx.live
    positive := hx.positive
    alloc := fun object => hx.toSound.places _
    allocImmortal := fun object => hx.toSound.places _
    immortal := fun later heap' h c hlater hc himm => hx.run_immortal hlater hc himm
    singletons := fun s hs => exact_initial.run_immortal h (hfirst s hs) rfl
    distinct := by decide }

/-- A tuple goes with both shares of an integer and the last share of an immortal object. The cell of the
integer, freed last, is used again. -/
def reusing : List Op :=
  [.boxSigned 7, .incref ⟨3⟩, .alloc (.tuple [⟨3⟩, ⟨3⟩, noneHandle]), .allocImmortal (.str "s"),
    .decref ⟨4⟩, .boxUnsigned 9, .boxBool true, .xdecref none]

theorem run_represented_reusing : ∃ heap, initial.run reusing = .ok heap ∧ heap.Represented ∧
    heap.free = [4] ∧ heap.live = 5 ∧ heap.get? ⟨3⟩ = some (.int 9) ∧ heap.count? noneHandle = some 0 := by
  have heval : (initial.run reusing).toOption.map (fun heap =>
      (heap.free, heap.live, heap.get? ⟨3⟩, heap.count? noneHandle)) =
        some ([4], 5, some (.int 9), some 0) := by
    decide +kernel
  cases hrun : initial.run reusing with
  | error e =>
    rw [hrun] at heval
    cases heval
  | ok heap =>
    rw [hrun] at heval
    have hfields := Option.some.inj heval
    simp only [Prod.mk.injEq] at hfields
    exact ⟨heap, rfl, run_represented hrun, hfields⟩

end Heap

end Bailout
