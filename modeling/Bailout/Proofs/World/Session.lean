import Bailout.Proofs.World.Shares

/-!
# Ownership over whole runs

A session is a world in use, with the frames that callers keep outside the chain and the shares that
native code and callers hold. It is settled when the count of every object is the number of its
holders. Every operation keeps a settled session settled, however operations are interleaved; the
outside shares change only by what an operation takes over or hands back.
-/

namespace Bailout

structure Session where
  world : World
  /-- The frames that are not on the chain. -/
  frames : List Frame := []
  /-- The shares of native code and callers. A negative number is a debt. -/
  outside : Handle → Int

inductive Op where
  | deoptimize (id : DeoptId) (snap : Snapshot)
  | deoptimizeRunning (gen : Handle) (id : DeoptId) (snap : Snapshot)
  /-- Rebuilds frames outside the chain, into new frames of the given code units. -/
  | materialize (id : DeoptId) (snap : Snapshot) (codes : List CodeUnit)
  | suspend (gen : Handle) (unit : UnitId) (site : DeoptId) (spill : List Word)
  | resume (gen : Handle)
  | deoptSuspended (gen : Handle)
  | releaseGenerator (gen : Handle)
  | discard (unit : UnitId)
  | clearChain (id : FrameId)
  /-- Clears a frame that is not on the chain. -/
  | clearFrame (index : Nat)

namespace Session

/-- The holders of an object: live objects, frames on and off the chain, footers of suspended
generators, and the outside. -/
def holders (s : Session) (h : Handle) : Int :=
  s.world.heap.childRefs h + (s.world.chain.refs ++ s.frames.flatMap Frame.refs).count h +
    s.world.engine.saved.count h + s.outside h

/-- Every share has a holder and every holder a share. A freed object has neither. -/
def Settled (s : Session) : Prop := ∀ h, s.world.heap.shares h = s.holders h

/-- One operation. The outside gives up what native code owned when compiled code is left or
suspends, and gets back what was saved when a generator resumes. -/
def step (s : Session) : Op → Except Fault Session
  | .deoptimize id snap => do
    let (_, world) ← s.world.deoptimize id snap
    return { s with world, outside := fun h => s.outside h - (s.world.engine.native id snap).count h }
  | .deoptimizeRunning gen id snap => do
    let (_, world) ← s.world.deoptimizeRunning gen id snap
    return { s with world, outside := fun h => s.outside h - (s.world.engine.native id snap).count h }
  | .materialize id snap codes => do
    let (result, world) ← s.world.materialize id snap (codes.map fun code => { code })
    return { s with world, frames := s.frames ++ result.toOption.getD [] }
  | .suspend gen unit site spill => do
    let (result, world) ← s.world.suspend gen unit site spill
    let moved := if result.isOk then s.world.engine.native site (.ofSpill spill) else []
    return { s with world, outside := fun h => s.outside h - moved.count h }
  | .resume gen => do
    let (_, world) ← s.world.resume gen
    return { s with world, outside := fun h => s.outside h + (s.world.engine.savedFor gen).count h }
  | .deoptSuspended gen => do
    let (result, world) ← s.world.deoptSuspended gen
    return { s with world, frames := s.frames ++ result.toOption.toList }
  | .releaseGenerator gen => do
    let (_, world) ← s.world.releaseGenerator gen
    return { s with world }
  | .discard unit =>
    .ok { s with world := { s.world with engine := (s.world.engine.discard unit).2 } }
  | .clearChain id => do
    let (chain, heap) ← s.world.chain.clear id s.world.heap
    return { s with world := { s.world with chain, heap } }
  | .clearFrame index => do
    match s.frames[index]? with
    | none => throw (.index s.frames.length index)
    | some frame =>
      let (frame, heap) ← frame.clear s.world.heap
      return { s with world := { s.world with heap }, frames := s.frames.set index frame }

def run (s : Session) (ops : List Op) : Except Fault Session := ops.foldlM step s

variable {s s' : Session}

theorem settled_iff : s.Settled ↔
    ∀ h, s.world.unclaimed h = (s.frames.flatMap Frame.refs).count h + s.outside h := by
  unfold Settled
  refine forall_congr' fun h => ?_
  simp only [holders, World.unclaimed, Heap.external, List.count_append]
  omega

theorem step_settled {op : Op} (hw : s.world.WellFormed) (hs : s.Settled) (h : s.step op = .ok s') :
    s'.world.WellFormed ∧ s'.Settled := by
  rw [settled_iff] at hs ⊢
  cases op with
  | deoptimize id snap =>
    obtain ⟨⟨result, world⟩, hop, h⟩ := bind_eq_ok.1 h
    obtain rfl := Except.ok.inj h
    obtain ⟨hw', hx⟩ := World.unclaimed_deoptimizeInto hw hop
    exact ⟨hw', fun k => by simp only [hx, hs]; omega⟩
  | deoptimizeRunning gen id snap =>
    obtain ⟨⟨result, world⟩, hop, h⟩ := bind_eq_ok.1 h
    obtain rfl := Except.ok.inj h
    obtain ⟨hw', hx⟩ := World.unclaimed_deoptimizeRunning hw hop
    exact ⟨hw', fun k => by simp only [hx, hs]; omega⟩
  | materialize id snap codes =>
    obtain ⟨⟨result, world⟩, hop, h⟩ := bind_eq_ok.1 h
    obtain rfl := Except.ok.inj h
    have hempty : (codes.map fun code => ({ code } : Frame)).flatMap Frame.refs = [] := by
      simp [List.flatMap_eq_nil_iff, Frame.refs]
    obtain ⟨hw', hx⟩ := World.unclaimed_materialize hw hempty hop
    exact ⟨hw', fun k => by rw [hx, hs]; simp only [List.flatMap_append, List.count_append]; omega⟩
  | suspend gen unit site spill =>
    obtain ⟨⟨result, world⟩, hop, h⟩ := bind_eq_ok.1 h
    obtain rfl := Except.ok.inj h
    obtain ⟨hw', hx⟩ := World.unclaimed_suspend hw hop
    exact ⟨hw', fun k => by simp only [hx, hs]; omega⟩
  | resume gen =>
    obtain ⟨⟨result, world⟩, hop, h⟩ := bind_eq_ok.1 h
    obtain rfl := Except.ok.inj h
    obtain ⟨hw', hx⟩ := World.unclaimed_resume hw hop
    exact ⟨hw', fun k => by simp only [hx, hs]; omega⟩
  | deoptSuspended gen =>
    obtain ⟨⟨result, world⟩, hop, h⟩ := bind_eq_ok.1 h
    obtain rfl := Except.ok.inj h
    obtain ⟨hw', hx⟩ := World.unclaimed_deoptSuspended hw hop
    exact ⟨hw', fun k => by rw [hx, hs]; simp only [List.flatMap_append, List.count_append]; omega⟩
  | releaseGenerator gen =>
    obtain ⟨⟨found, world⟩, hop, h⟩ := bind_eq_ok.1 h
    obtain rfl := Except.ok.inj h
    obtain ⟨hw', hx⟩ := World.unclaimed_releaseGenerator hw hop
    exact ⟨hw', fun k => by rw [hx, hs]⟩
  | discard unit =>
    obtain rfl := Except.ok.inj h
    exact ⟨⟨hw.sound, hw.footers⟩, hs⟩
  | clearChain id =>
    obtain ⟨⟨chain, heap⟩, hop, h⟩ := bind_eq_ok.1 h
    obtain rfl := Except.ok.inj h
    obtain ⟨refs, hrel, hc⟩ := Chain.clear_eq_ok hop
    refine ⟨⟨hw.sound.releaseAll hrel, hw.footers⟩, fun k => ?_⟩
    have h₁ := hs k
    have h₂ := hc k
    have h₃ := Heap.external_releaseAll hrel k
    simp only [World.unclaimed] at h₁ ⊢
    omega
  | clearFrame index =>
    simp only [step] at h
    split at h
    · cases h
    · next frame hframe =>
      obtain ⟨⟨cleared, heap⟩, hop, h⟩ := bind_eq_ok.1 h
      obtain rfl := Except.ok.inj h
      obtain ⟨hrel, hempty⟩ := Frame.clear_eq_ok hop
      refine ⟨⟨hw.sound.releaseAll hrel, hw.footers⟩, fun k => ?_⟩
      have h₁ := hs k
      have h₂ := Heap.sum_set_add (l := s.frames.map fun f => f.refs.count k) (i := index)
        (n := frame.refs.count k) (by simp [hframe]) 0
      have h₃ := Heap.external_releaseAll hrel k
      simp only [World.unclaimed, List.count_flatMap, Function.comp_def, List.map_set, hempty,
        List.count_nil] at h₁ ⊢
      omega

/-- **Shares are accounted for over every run.** -/
theorem run_settled {ops : List Op} (hw : s.world.WellFormed) (hs : s.Settled)
    (h : s.run ops = .ok s') : s'.world.WellFormed ∧ s'.Settled :=
  foldlM_induct (fun s => s.world.WellFormed ∧ s.Settled)
    (fun _ _ _ _ hs hop => step_settled hs.1 hs.2 hop) ⟨hw, hs⟩ h

end Session

/-! ## A generator that is suspended twice and then leaves compiled code

At its yield it owns a tuple and has an unboxed integer; both are in the spill area. -/

namespace Yielding

def code : CodeUnit := { id := ⟨1⟩, name := "gen", locals := ["x", "n"], stackSize := 2, length := 16 }

def record : Record where
  live := [{ reg := ⟨0⟩, location := some (.spill 0), refKind := .owned, valueKind := .object },
    { reg := ⟨1⟩, location := some (.spill 8), refKind := .uncounted, valueKind := .signed }]
  frames := [{ code, slots := [0, 1], stack := [.value 0], handlers := [], cause := ⟨4⟩ }]
  reason := .generatorYield

def engine : Engine where
  registry := { value := {
    table := [some record]
    units := [{ id := ⟨0⟩, name := ⟨0⟩, code, frameSize := 16, deoptIds := [⟨0⟩] }]
    nextUnit := 1 } }

/-- The generator, an integer, and a tuple that holds the integer. -/
def heap : Heap :=
  let heap := (Heap.initial.alloc (.generator ⟨1⟩ .running)).2
  let heap := (heap.alloc (.int 7)).2
  (heap.alloc (.tuple [⟨4⟩])).2

/-- The caller holds the singletons and the generator, native code the tuple. -/
def session : Session where
  world := { engine, heap }
  outside h := if h.index < 4 ∨ h.index = 5 then 1 else 0

def ops : List Op :=
  let spill : List Word := [48, 9]
  [.suspend ⟨3⟩ ⟨0⟩ ⟨0⟩ spill, .resume ⟨3⟩, .suspend ⟨3⟩ ⟨0⟩ ⟨0⟩ spill, .deoptSuspended ⟨3⟩,
    .materialize ⟨0⟩ (.ofSpill spill) [code], .clearFrame 0, .clearFrame 1]

theorem wellFormed : session.world.WellFormed :=
  ⟨((Heap.sound_initial.allocCell _).allocCell _).allocCell _, by decide⟩

theorem settled : session.Settled := by
  rintro ⟨i⟩
  match i with
  | 0 | 1 | 2 | 3 | 4 | 5 => decide
  | i + 6 =>
    simp [Session.holders, Heap.shares, Heap.count?, Heap.cell?, Heap.childRefs, Heap.total, session,
      heap, engine, Engine.saved, Chain.refs, Heap.initial, Heap.alloc, Heap.allocImmortal,
      Heap.allocCell, Object.children]

end Yielding

theorem run_settled_yielding : ∃ s', Yielding.session.run Yielding.ops = .ok s' ∧
    s'.world.heap.live = 4 ∧ s'.world.WellFormed ∧ s'.Settled := by
  have hlive : ((Yielding.session.run Yielding.ops).toOption.map fun s => s.world.heap.live) =
      some 4 := by decide +kernel
  cases hrun : Yielding.session.run Yielding.ops with
  | error e => simp [hrun, Except.toOption] at hlive
  | ok s' =>
    refine ⟨s', rfl, by simpa [hrun, Except.toOption] using hlive, ?_⟩
    exact Session.run_settled Yielding.wellFormed Yielding.settled hrun

/-! ## A frame that names a freed object

Counting the live objects alone is not enough: the next box lands on the handle. -/

namespace Stale

def code : CodeUnit := { id := ⟨1⟩, name := "f", locals := ["x"], stackSize := 2, length := 16 }

def record : Record where
  live := [{ reg := ⟨0⟩, location := some (.reg 0), refKind := .uncounted, valueKind := .signed }]
  frames := [{ code, slots := [0], stack := [], handlers := [], cause := ⟨0⟩ }]
  reason := .guardFailure

def session : Session where
  world := { engine := { registry := { value := { table := [some record] } } } }
  frames := [{ code, slots := [some ⟨3⟩] }]
  outside h := if h.index < 3 then 1 else 0

end Stale

theorem live_counts_do_not_suffice : Stale.session.world.WellFormed ∧
    (∀ h, Stale.session.world.heap.isLive h →
      Stale.session.world.heap.shares h = Stale.session.holders h) ∧
    ∃ s', Stale.session.run [.deoptimize ⟨0⟩ { regs := [7] }] = .ok s' ∧
      s'.world.heap.isLive ⟨3⟩ ∧ s'.world.heap.shares ⟨3⟩ = 1 ∧ s'.holders ⟨3⟩ = 2 := by
  refine ⟨⟨Heap.sound_initial, by decide⟩, ?_, ?_⟩
  · rintro ⟨i⟩ hlive
    match i with
    | 0 | 1 | 2 => decide
    | i + 3 => simp [Stale.session, Heap.isLive, Heap.cell?, Heap.initial, Heap.allocImmortal,
        Heap.allocCell] at hlive
  · have hrun : ((Stale.session.run [.deoptimize ⟨0⟩ { regs := [7] }]).toOption.map fun s =>
        (s.world.heap.isLive ⟨3⟩, s.world.heap.shares ⟨3⟩, s.holders ⟨3⟩)) = some (true, 1, 2) := by
      decide +kernel
    cases h : Stale.session.run [.deoptimize ⟨0⟩ { regs := [7] }] with
    | error e => simp [h, Except.toOption] at hrun
    | ok s' => exact ⟨s', rfl, by simpa [h, Except.toOption] using hrun⟩

end Bailout
