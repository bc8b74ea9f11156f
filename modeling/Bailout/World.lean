import Bailout.Engine.Basic
import Bailout.Frame.Basic
import Bailout.Frame.Materialize

/-!
# Leaving compiled code

The operations that hand execution back to the interpreter act on the engine, the heap and the call
chain together. An operation may fail with an error, which leaves a world to go on with, or with a
fault, which ends everything.
-/

namespace Bailout

structure World where
  engine : Engine := {}
  heap : Heap := .initial
  chain : Chain := {}
deriving DecidableEq, Repr

namespace World

/-- What an operation gives back, unless it faults: a result or an error, and the world after it. -/
abbrev Outcome (α : Type) := Except EngineError α × World

/-- Rebuilds the frames of a record into the targets, outermost first. Frames that have been rebuilt
are left alone. -/
def materialize (w : World) (id : DeoptId) (snap : Snapshot) (targets : List Frame) :
    Except Fault (Outcome (List Frame)) := do
  match w.engine.record id with
  | .error e => return (.error e, w)
  | .ok r =>
    let (frames, heap, fresh) ← r.materialize snap w.heap targets
    let engine := w.engine.count fun s =>
      { s with framesMaterialized := s.framesMaterialized + fresh }
    return (.ok frames, { w with engine, heap })

/-- Rebuilds the frames of a record, releases what compiled code owned, and pushes the frames onto the
chain. The outermost frame belongs to the generator, if there is one. -/
def deoptimizeInto (w : World) (gen : Option Handle) (id : DeoptId) (snap : Snapshot) :
    Except Fault (Outcome (List FrameId)) := do
  match w.engine.record id with
  | .error e => return (.error e, w)
  | .ok r =>
    let fresh := r.frames.map fun fr => ({ code := fr.code } : Frame)
    let targets := fresh.modifyHead fun f => { f with gen }
    let (frames, heap, n) ← r.materialize snap w.heap targets
    let heap ← r.releaseNative snap heap
    let engine ← w.engine.recordDeopt r n
    let (ids, chain) := w.chain.pushAll w.chain.nearestLinked? frames
    return (.ok ids, { engine, heap, chain })

/-- Leaves compiled code at a published record. Returns the new frames, outermost first. -/
def deoptimize (w : World) (id : DeoptId) (snap : Snapshot) : Except Fault (Outcome (List FrameId)) :=
  w.deoptimizeInto none id snap

/-! ## Generators -/

/-- Leaves compiled code in a running generator, which stays in the interpreter from then on: its footer
is dropped. -/
def deoptimizeRunning (w : World) (gen : Handle) (id : DeoptId) (snap : Snapshot) :
    Except Fault (Outcome (List FrameId)) := do
  if let some footer := w.engine.footer? gen then
    if !footer.spill.isEmpty then throw (.savedSpill gen)
  let heap ← w.heap.setGenStatus gen .running
  { w with engine := w.engine.eraseFooter gen, heap }.deoptimizeInto (some gen) id snap

/-- Records that a compiled generator suspended at a yield. The footer takes over the owned references
in the spill area. -/
def suspend (w : World) (gen : Handle) (unit : UnitId) (site : DeoptId) (spill : List Word) :
    Except Fault (Outcome Unit) := do
  if (w.engine.unit? unit).isNone then return (.error (.unknownUnit unit), w)
  match w.engine.record site with
  | .error e => return (.error e, w)
  | .ok record =>
    if record.reason ≠ .generatorYield then throw (.notYield record.reason)
    if let some footer := w.engine.footer? gen then
      if footer.isSuspended then throw (.alreadySuspended gen)
    let engine := w.engine.setFooter gen { unit, gen, site, record, spill, status := .suspended }
    let heap ← w.heap.setGenStatus gen .suspended
    return (.ok (), { w with engine, heap })

/-- The footer of a suspended generator. -/
def suspendedFooter (w : World) (gen : Handle) : Except EngineError Footer :=
  match w.engine.footer? gen with
  | none => .error (.unknownGenerator gen)
  | some footer =>
    if footer.isSuspended then .ok footer else .error (.generatorNotSuspended gen)

/-- Hands the saved state of a suspended generator back to native code. -/
def resume (w : World) (gen : Handle) : Except Fault (Outcome Resume) := do
  match w.suspendedFooter gen with
  | .error e => return (.error e, w)
  | .ok footer =>
    let engine := w.engine.setFooter gen { footer with status := .running, spill := [] }
    let heap ← w.heap.setGenStatus gen .running
    return (.ok ⟨footer.unit, footer.site, footer.spill⟩, { w with engine, heap })

/-- Rebuilds the frame of a suspended generator from its footer, so that the interpreter can go on after
the yield. The footer is dropped. -/
def deoptSuspended (w : World) (gen : Handle) : Except Fault (Outcome Frame) := do
  match w.suspendedFooter gen with
  | .error e => return (.error e, w)
  | .ok footer =>
    let r := footer.record
    match r.frames with
    | [fr] =>
      let snap := Snapshot.ofSpill footer.spill
      let (frame, heap) ← r.materializeFrame snap w.heap fr true { code := fr.code }
      let heap ← r.releaseNative snap heap
      let engine := (w.engine.eraseFooter gen).count fun s =>
        { s with suspendedGenerators := s.suspendedGenerators + 1 }
      let engine ← engine.recordDeopt r 1
      return (.ok { frame with gen := some gen, status := .suspended }, { w with engine, heap })
    | frames => throw (.inlinedYield footer.site gen frames.length)

/-- Drops the footer of a generator that is being destroyed, and releases the references saved in it.
Says whether there was one. -/
def releaseGenerator (w : World) (gen : Handle) : Except Fault (Bool × World) := do
  match w.engine.footer? gen with
  | none => return (false, w)
  | some footer =>
    let heap ←
      if footer.isSuspended then
        footer.record.releaseNative (.ofSpill footer.spill) w.heap
      else pure w.heap
    return (true, { w with engine := w.engine.eraseFooter gen, heap })

end World

end Bailout
