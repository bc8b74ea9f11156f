import Bailout.Proofs.Frame.Shares
import Bailout.Proofs.Heap.ReleaseOrder

/-!
# Giving up references in any order

A record releases the references that compiled code owned, value by value, and a frame that is cleared
releases its own, slot by slot. Both come down to releasing one list, so neither depends on the order:
`release_any_order`.
-/

namespace Bailout

theorem Record.releaseNative_perm {r : Record} {snap : Snapshot} {heap heap' : Heap}
    {live : List LiveValue} (hp : r.live.Perm live) (h : r.releaseNative snap heap = .ok heap') :
    ∃ other, { r with live }.releaseNative snap heap = .ok other ∧ heap'.SameCells other := by
  have hread : ∀ v ∈ live, ∀ now,
      r.releaseValue snap now v = now.releaseAll (r.ownedRef? snap v).toList := by
    intro v hv now
    obtain ⟨t, t', hstep⟩ := foldlM_mem h (hp.mem_iff.2 hv)
    exact releaseValue_eq hstep now
  have hperm : (r.owned snap).Perm (live.flatMap fun v => (r.ownedRef? snap v).toList) :=
    hp.flatMap_right _
  obtain ⟨other, hother, s⟩ := Heap.releaseAll_perm (.refl heap) hperm (releaseNative_eq_ok h)
  exact ⟨other, (Heap.foldlM_release _ hread heap).trans hother, s⟩

theorem Frame.clear_perm {f f' : Frame} {heap heap' : Heap} {slots stack : List (Option Handle)}
    (hlen : slots.length = f.slots.length) (hp : (f.slots ++ f.stack).Perm (slots ++ stack))
    (h : f.clear heap = .ok (f', heap')) :
    ∃ other, { f with slots, stack }.clear heap = .ok (f', other) ∧ heap'.SameCells other := by
  unfold Frame.clear at h ⊢
  obtain ⟨now, hrel, h⟩ := bind_eq_ok.1 h
  obtain ⟨rfl, rfl⟩ := Prod.mk.inj (Except.ok.inj h)
  rw [Heap.foldlM_xdecref] at hrel
  obtain ⟨other, hother, s⟩ := Heap.releaseAll_perm (.refl heap) (hp.filterMap id) hrel
  refine ⟨other, bind_eq_ok.2 ⟨other, (Heap.foldlM_xdecref _ _).trans hother, ?_⟩, s⟩
  have hempty : slots.map (fun _ => (none : Option Handle)) = f.slots.map fun _ => none := by
    rw [List.map_const', List.map_const', hlen]
  rw [hempty]
  rfl

/-- **The order of releases does not matter.** If references can be released one after another, they can
in every other order, and the cells come out the same; only the free list may be ordered differently. -/
theorem release_any_order (heap : Heap) :
    (∀ (l l' : List Handle) (heap' : Heap), l.Perm l' → l.foldlM Heap.decref heap = .ok heap' →
      ∃ other, l'.foldlM Heap.decref heap = .ok other ∧ heap'.SameCells other) ∧
    (∀ (r : Record) (live : List LiveValue) (snap : Snapshot) (heap' : Heap), r.live.Perm live →
      r.releaseNative snap heap = .ok heap' →
      ∃ other, { r with live }.releaseNative snap heap = .ok other ∧ heap'.SameCells other) ∧
    (∀ (f f' : Frame) (slots stack : List (Option Handle)) (heap' : Heap),
      slots.length = f.slots.length → (f.slots ++ f.stack).Perm (slots ++ stack) →
      f.clear heap = .ok (f', heap') →
      ∃ other, { f with slots, stack }.clear heap = .ok (f', other) ∧ heap'.SameCells other) := by
  refine ⟨fun l l' heap' hp h => ?_, fun r live snap heap' hp h => Record.releaseNative_perm hp h,
    fun f f' slots stack heap' hlen hp h => Frame.clear_perm hlen hp h⟩
  rw [Heap.foldlM_decref] at h
  obtain ⟨other, hother, s⟩ := Heap.releaseAll_perm (.refl heap) hp h
  exact ⟨other, (Heap.foldlM_decref l' heap).trans hother, s⟩

namespace Tangled

/-- A tuple holds an integer and the immortal object; a list holds itself; a string stands alone. -/
def heap : Heap where
  cells := [some ⟨.none, 1, true⟩, some ⟨.tuple [⟨3⟩, ⟨0⟩], 1, false⟩, some ⟨.list [⟨2⟩], 2, false⟩,
    some ⟨.int 5, 2, false⟩, some ⟨.str "s", 1, false⟩]
  free := []
  live := 5

/-- The immortal object has run out of shares, and the list is left with its own. -/
def left (free : List Nat) : Heap where
  cells := [some ⟨.none, 0, true⟩, none, some ⟨.list [⟨2⟩], 1, false⟩, none, none]
  free
  live := 2

def value (n : Nat) : LiveValue :=
  { reg := ⟨n⟩, location := some (.reg n), refKind := .owned, valueKind := .object }

def record : Record where
  live := [value 1, value 3, value 2, value 4]
  frames := []
  reason := .guardFailure

def snap : Snapshot := { regs := [0, 16, 24, 32, 40] }

def frame : Frame where
  code := { id := ⟨1⟩, name := "f", locals := ["x", "y"], stackSize := 3, length := 16 }
  slots := [some ⟨1⟩, some ⟨3⟩]
  stack := [some ⟨2⟩, none, some ⟨4⟩]

def cleared : Frame := { frame with slots := [none, none], stack := [], status := .completed }

end Tangled

/-- The integer goes by itself in one order, and with the tuple in the other. -/
theorem release_any_order_tangled :
    (∃ other, [⟨1⟩, ⟨3⟩, ⟨2⟩, ⟨4⟩].foldlM Heap.decref Tangled.heap = .ok (Tangled.left [4, 3, 1]) ∧
      [⟨4⟩, ⟨2⟩, ⟨3⟩, ⟨1⟩].foldlM Heap.decref Tangled.heap = .ok other ∧
      (Tangled.left [4, 3, 1]).SameCells other ∧ other.free = [3, 1, 4]) ∧
    (∃ other, { Tangled.record with live := Tangled.record.live.reverse }.releaseNative Tangled.snap
        Tangled.heap = .ok other ∧ (Tangled.left [4, 3, 1]).SameCells other) ∧
    (∃ other, { Tangled.frame with
        slots := [none, some ⟨4⟩], stack := [some ⟨2⟩, some ⟨3⟩, some ⟨1⟩] }.clear Tangled.heap =
        .ok (Tangled.cleared, other) ∧ (Tangled.left [4, 3, 1]).SameCells other) := by
  obtain ⟨hlist, hrecord, hframe⟩ := release_any_order Tangled.heap
  have hfirst : [⟨1⟩, ⟨3⟩, ⟨2⟩, ⟨4⟩].foldlM Heap.decref Tangled.heap = .ok (Tangled.left [4, 3, 1]) := by
    decide +kernel
  refine ⟨?_, ?_, ?_⟩
  · obtain ⟨other, hother, s⟩ := hlist _ [⟨4⟩, ⟨2⟩, ⟨3⟩, ⟨1⟩] _ (List.reverse_perm _).symm hfirst
    have hsecond : [⟨4⟩, ⟨2⟩, ⟨3⟩, ⟨1⟩].foldlM Heap.decref Tangled.heap = .ok (Tangled.left [3, 1, 4]) := by
      decide +kernel
    obtain rfl := Except.ok.inj (hother.symm.trans hsecond)
    exact ⟨_, hfirst, hother, s, rfl⟩
  · exact hrecord Tangled.record _ Tangled.snap _ (List.reverse_perm _).symm (by decide +kernel)
  · exact hframe Tangled.frame Tangled.cleared [none, some ⟨4⟩] [some ⟨2⟩, some ⟨3⟩, some ⟨1⟩]
      (Tangled.left [4, 3, 1]) rfl (by decide) (by decide +kernel)

end Bailout
