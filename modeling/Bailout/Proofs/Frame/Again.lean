import Bailout.Proofs.Frame.Shares

/-!
# Frames are rebuilt once

`Record.StepsTo` is what happens to one target: a frame that has been rebuilt stays as it is and so does
the heap, any other is rebuilt. Rebuilding a list of targets is a chain of such steps
(`materializeAll_steps`), after which every target has been rebuilt, so that asking again, with whatever
record and machine state, is a chain of steps that do nothing: `materialize_idempotent`.
-/

namespace Bailout

namespace Record

/-- What happens to one target, from the heap before it to the heap after it. -/
def StepsTo (r : Record) (snap : Snapshot) (innermost : Bool) (fr : FrameRecord) (target frame : Frame)
    (old new : Heap) : Prop :=
  if target.materialized then frame = target ∧ new = old
  else r.materializeFrame snap old fr innermost target = .ok (frame, new)

variable {r : Record} {snap : Snapshot} {heap heap' : Heap} {frames : List Frame} {fresh : Nat}

theorem materialized_materializeFrame {fr : FrameRecord} {innermost : Bool} {target frame : Frame}
    (h : r.materializeFrame snap heap fr innermost target = .ok (frame, heap')) :
    frame.materialized := by
  obtain ⟨-, -, slots, stack, next, d₁, d₂, now, -, -, -, -, -, rfl⟩ := materializeFrame_eq_ok.1 h
  rfl

/-- The targets are dealt with one after another; `heaps i` is the heap before the `i`-th one. -/
theorem materializeAll_steps {pairs : List (FrameRecord × Frame)}
    (h : r.materializeAll snap heap pairs = .ok (frames, heap', fresh)) :
    ∃ heaps : Nat → Heap, heaps 0 = heap ∧ heaps pairs.length = heap' ∧
      ∀ i fr target frame, pairs[i]? = some (fr, target) → frames[i]? = some frame →
        r.StepsTo snap (i + 1 == pairs.length) fr target frame (heaps i) (heaps (i + 1)) := by
  induction pairs generalizing heap frames fresh with
  | nil =>
    obtain ⟨-, rfl, -⟩ : [] = frames ∧ heap = heap' ∧ 0 = fresh := by
      simpa [materializeAll] using h
    refine ⟨fun _ => heap, rfl, rfl, ?_⟩
    intro i fr target frame hi
    cases hi
  | cons pair rest ih =>
    obtain ⟨fr, target⟩ := pair
    have hstep : ∃ frame now later n, frames = frame :: later ∧
        r.StepsTo snap rest.isEmpty fr target frame heap now ∧
        r.materializeAll snap now rest = .ok (later, heap', n) := by
      obtain ⟨hdone, later, hrest, rfl⟩ | ⟨hdone, frame, now, later, n, hframe, hrest, rfl, -⟩ :=
        materializeAll_cons_eq_ok h
      · refine ⟨target, heap, later, fresh, rfl, ?_, hrest⟩
        rw [StepsTo, if_pos hdone]
        exact ⟨rfl, rfl⟩
      · refine ⟨frame, now, later, n, rfl, ?_, hrest⟩
        rw [StepsTo, if_neg hdone]
        exact hframe
    obtain ⟨frame, now, later, n, rfl, hfirst, hrest⟩ := hstep
    obtain ⟨heaps, hzero, hlast, hsteps⟩ := ih hrest
    refine ⟨fun i => if i = 0 then heap else heaps (i - 1), rfl, hlast, ?_⟩
    intro i fr' target' frame' hpair hframe
    cases i with
    | zero =>
      obtain ⟨rfl, rfl⟩ := Prod.mk.inj (Option.some.inj hpair)
      obtain rfl := Option.some.inj hframe
      have hinner : (0 + 1 == ((fr, target) :: rest).length) = rest.isEmpty := by
        cases rest <;> rfl
      rw [hinner]
      show r.StepsTo snap rest.isEmpty fr target frame heap (heaps 0)
      rw [hzero]
      exact hfirst
    | succ i =>
      have hinner : (i + 1 + 1 == ((fr, target) :: rest).length) = (i + 1 == rest.length) := by
        rw [List.length_cons]
        exact Bool.eq_iff_iff.2 (by simp)
      rw [hinner]
      exact hsteps i fr' target' frame' hpair hframe

/-- Each target that had not been rebuilt is counted, and all are rebuilt afterwards. -/
theorem materializeAll_fresh {pairs : List (FrameRecord × Frame)}
    (h : r.materializeAll snap heap pairs = .ok (frames, heap', fresh)) :
    frames.length = pairs.length ∧ fresh = pairs.countP (fun p => !p.2.materialized) ∧
      ∀ frame ∈ frames, frame.materialized := by
  induction pairs generalizing heap frames fresh with
  | nil =>
    obtain ⟨rfl, -, rfl⟩ : [] = frames ∧ heap = heap' ∧ 0 = fresh := by
      simpa [materializeAll] using h
    exact ⟨rfl, rfl, by simp⟩
  | cons pair rest ih =>
    obtain ⟨hdone, later, hrest, rfl⟩ | ⟨hdone, frame, now, later, n, hframe, hrest, rfl, rfl⟩ :=
      materializeAll_cons_eq_ok h
    · obtain ⟨hlen, hcount, hall⟩ := ih hrest
      refine ⟨by simp [hlen], ?_, ?_⟩
      · rw [List.countP_cons_of_neg (by simp [hdone]), hcount]
      · exact List.forall_mem_cons.2 ⟨hdone, hall⟩
    · obtain ⟨hlen, hcount, hall⟩ := ih hrest
      refine ⟨by simp [hlen], ?_, ?_⟩
      · rw [List.countP_cons_of_pos (by simp [hdone]), hcount]
      · exact List.forall_mem_cons.2 ⟨materialized_materializeFrame hframe, hall⟩

theorem materializeAll_done (r : Record) (snap : Snapshot) (heap : Heap)
    {pairs : List (FrameRecord × Frame)} (h : ∀ p ∈ pairs, p.2.materialized) :
    r.materializeAll snap heap pairs = .ok (pairs.map (·.2), heap, 0) := by
  induction pairs with
  | nil => rfl
  | cons pair rest ih =>
    obtain ⟨hdone, hrest⟩ := List.forall_mem_cons.1 h
    rw [materializeAll, if_pos hdone, ih hrest]
    rfl

/-- **Frames are rebuilt once.** Whichever targets have been rebuilt before: the others are counted, those
are left as they are and leave the heap as it is, and afterwards all have been rebuilt. Asking again, with
any record of as many frames and any machine state, gives 0 and changes neither the heap nor a frame. -/
theorem materialize_idempotent {targets : List Frame}
    (h : r.materialize snap heap targets = .ok (frames, heap', fresh)) :
    fresh = targets.countP (fun target => !target.materialized) ∧
    (∃ heaps : Nat → Heap, heaps 0 = heap ∧ heaps targets.length = heap' ∧
      ∀ i fr target frame, r.frames[i]? = some fr → targets[i]? = some target →
        frames[i]? = some frame →
        r.StepsTo snap (i + 1 == targets.length) fr target frame (heaps i) (heaps (i + 1))) ∧
    frames.length = targets.length ∧ (∀ frame ∈ frames, frame.materialized) ∧
    ∀ (r' : Record) (snap' : Snapshot), r'.frames.length = targets.length →
      r'.materialize snap' heap' frames = .ok (frames, heap', 0) := by
  obtain ⟨hlen, h⟩ := materialize_eq_ok.1 h
  have hzip : (r.frames.zip targets).map (·.2) = targets := List.map_snd_zip (Nat.le_of_eq hlen)
  have hpairs : (r.frames.zip targets).length = targets.length := by
    rw [List.length_zip, ← hlen, Nat.min_self]
  obtain ⟨hframes, hcount, hall⟩ := materializeAll_fresh h
  obtain ⟨heaps, hzero, hlast, hsteps⟩ := materializeAll_steps h
  rw [hpairs] at hframes hlast hsteps
  refine ⟨?_, ⟨heaps, hzero, hlast, ?_⟩, hframes, hall, ?_⟩
  · calc fresh = (r.frames.zip targets).countP (fun p => !p.2.materialized) := hcount
      _ = ((r.frames.zip targets).map (·.2)).countP (fun target => !target.materialized) := by
          rw [List.countP_map]
          rfl
      _ = targets.countP (fun target => !target.materialized) := by rw [hzip]
  · intro i fr target frame hfr htarget hframe
    exact hsteps i fr target frame (List.getElem?_zip_eq_some.2 ⟨hfr, htarget⟩) hframe
  · intro r' snap' hlen'
    refine materialize_eq_ok.2 ⟨hframes.trans hlen'.symm, ?_⟩
    have hdone : ∀ p ∈ r'.frames.zip frames, p.2.materialized := fun p hp =>
      hall p.2 (List.of_mem_zip hp).2
    rw [materializeAll_done r' snap' heap' hdone,
      List.map_snd_zip (Nat.le_of_eq (hframes.trans hlen'.symm))]

end Record

namespace HalfRebuilt

def caller : CodeUnit := { id := ⟨1⟩, name := "f", locals := ["x"], stackSize := 2, length := 16 }

def callee : CodeUnit := { id := ⟨2⟩, name := "g", locals := ["n", "y"], stackSize := 2, length := 16 }

def record : Record where
  live := [{ reg := ⟨0⟩, location := some (.reg 0), refKind := .borrowed, valueKind := .object },
    { reg := ⟨1⟩, location := some (.reg 1), refKind := .uncounted, valueKind := .signed }]
  frames := [{ code := caller, slots := [0], stack := [.value 1], handlers := [], cause := ⟨4⟩ },
    { code := callee, slots := [1, 0], stack := [], handlers := [], cause := ⟨2⟩ }]
  reason := .guardFailure

/-- An integer that the caller's frame and compiled code share. -/
def heap : Heap := (Heap.initial.allocCell ⟨.int 7, 2, false⟩).2

/-- The caller's frame has been rebuilt and has run since; the frame of the callee is new. -/
def targets : List Frame :=
  [{ code := caller, slots := [some ⟨3⟩], next := ⟨8⟩, status := .executing, materialized := true },
    { code := callee }]

def snap : Snapshot := { regs := [32, 9] }

end HalfRebuilt

/-- One of two frames is rebuilt, and then none. -/
theorem materialize_idempotent_half : ∃ frames heap',
    HalfRebuilt.record.materialize HalfRebuilt.snap HalfRebuilt.heap HalfRebuilt.targets =
      .ok (frames, heap', 1) ∧
    frames.map (·.slots) = [[some ⟨3⟩], [some ⟨4⟩, some ⟨3⟩]] ∧ heap' ≠ HalfRebuilt.heap ∧
    HalfRebuilt.record.materialize {} heap' frames = .ok (frames, heap', 0) := by
  have heval : (HalfRebuilt.record.materialize HalfRebuilt.snap HalfRebuilt.heap
      HalfRebuilt.targets).toOption.map (fun out => (out.1.map (·.slots), out.2.1.live, out.2.2)) =
      some ([[some ⟨3⟩], [some ⟨4⟩, some ⟨3⟩]], 5, 1) := by decide +kernel
  cases hrun : HalfRebuilt.record.materialize HalfRebuilt.snap HalfRebuilt.heap
      HalfRebuilt.targets with
  | error e => simp [hrun, Except.toOption] at heval
  | ok out =>
    obtain ⟨frames, heap', fresh⟩ := out
    rw [hrun] at heval
    obtain ⟨hslots, hlive, rfl⟩ : frames.map (·.slots) = _ ∧ heap'.live = 5 ∧ fresh = 1 := by
      simpa [Except.toOption] using heval
    obtain ⟨-, -, -, -, hagain⟩ := Record.materialize_idempotent hrun
    refine ⟨frames, heap', rfl, hslots, ?_, hagain HalfRebuilt.record {} rfl⟩
    rintro rfl
    cases hlive

end Bailout
