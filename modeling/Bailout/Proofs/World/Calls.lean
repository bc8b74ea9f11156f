import Bailout.Proofs.Heap.Cells
import Bailout.Proofs.World.Steps

/-!
# Calls on a world

Every operation that a program calls, with its arguments, so that a run is a list of calls.

A call that returns an error leaves the world as it found it, with one exception. Leaving a running
generator drops its footer and sets its status first and looks the record up then, so that an unknown
record costs the generator its footer: `World.call_error`.
-/

namespace Bailout

theorem Heap.setGenStatus_eq_self {heap heap' : Heap} {gen : Handle} {status : GenStatus}
    (h : heap.setGenStatus gen status = .ok heap') :
    heap' = heap ↔ ∃ code, heap.get? gen = some (.generator code status) := by
  obtain ⟨c, code, old, hc, hobj, hput⟩ := setGenStatus_eq_ok h
  have hget : heap.get? gen = some c.object := by rw [get?, hc, Option.map_some]
  constructor
  · intro hsame
    have hcell := cell?_put hc (some { c with object := .generator code status }) gen
    rw [hput, hsame, if_pos rfl, hc] at hcell
    refine ⟨code, ?_⟩
    rw [hget, Option.some.inj hcell]
  · rintro ⟨code', hgen⟩
    have hobject : c.object = .generator code' status := Option.some.inj (hget.symm.trans hgen)
    obtain rfl : code = code' := by
      rw [hobject] at hobj
      injection hobj with hcode _
      exact hcode.symm
    have hcell : ({ c with object := .generator code status } : HeapCell) = c := by rw [← hobject]
    rw [← hput, hcell, put]
    obtain ⟨hlt, hat⟩ := List.getElem?_eq_some_iff.1 (cell?_eq_some.1 hc)
    rw [← hat, List.set_getElem_self]

namespace World

inductive Call where
  /-- An operation of the engine alone. -/
  | engine (call : Engine.Call)
  | materialize (site : DeoptId) (snap : Snapshot) (targets : List Frame)
  | deoptimize (site : DeoptId) (snap : Snapshot)
  | deoptimizeRunning (gen : Handle) (site : DeoptId) (snap : Snapshot)
  | suspend (gen : Handle) (unit : UnitId) (site : DeoptId) (spill : List Word)
  | resume (gen : Handle)
  | deoptSuspended (gen : Handle)
  | releaseGenerator (gen : Handle)

/-- What a call that succeeds gives back. -/
inductive Reply where
  | engine (reply : Engine.Reply)
  | frames (frames : List Frame)
  | pushed (ids : List FrameId)
  | suspended
  | resumed (state : Resume)
  | frame (frame : Frame)
  | released (found : Bool)

/-- The outcome of an operation as that of a call. -/
def answer {α : Type} (f : α → Reply) (outcome : Outcome α) : Outcome Reply :=
  (outcome.1.map f, outcome.2)

def call (w : World) : Call → Except Fault (Outcome Reply)
  | .engine c => (fun (reply, engine) => (reply.map .engine, { w with engine })) <$> w.engine.perform c
  | .materialize site snap targets => answer .frames <$> w.materialize site snap targets
  | .deoptimize site snap => answer .pushed <$> w.deoptimize site snap
  | .deoptimizeRunning gen site snap => answer .pushed <$> w.deoptimizeRunning gen site snap
  | .suspend gen unit site spill => answer (fun _ => .suspended) <$> w.suspend gen unit site spill
  | .resume gen => answer .resumed <$> w.resume gen
  | .deoptSuspended gen => answer .frame <$> w.deoptSuspended gen
  | .releaseGenerator gen => (fun (found, w) => (.ok (.released found), w)) <$> w.releaseGenerator gen

/-- Makes calls one after another, going on after errors. -/
def run (w : World) (calls : List Call) : Except Fault World :=
  calls.foldlM (fun w c => (·.2) <$> w.call c) w

/-! ## Errors -/

variable {w w' : World}

theorem answer_eq_ok {α : Type} {f : α → Reply} {x : Except Fault (Outcome α)}
    {reply : Except EngineError Reply} (h : answer f <$> x = .ok (reply, w')) :
    ∃ result, x = .ok (result, w') ∧ reply = result.map f := by
  obtain ⟨⟨result, w₁⟩, hx, h⟩ := map_eq_ok.1 h
  obtain ⟨hr, rfl⟩ := Prod.mk.inj h
  exact ⟨result, hx, hr.symm⟩

theorem answer_eq_error {α : Type} {f : α → Reply} {x : Except Fault (Outcome α)} {e : EngineError}
    (h : answer f <$> x = .ok (.error e, w')) : x = .ok (.error e, w') := by
  obtain ⟨result, hx, hr⟩ := answer_eq_ok h
  rwa [error_eq_map.1 hr] at hx

/-- What an error leaves behind. Compiling has drawn nonces. Leaving a running generator at an unknown
record has dropped its footer and set its status; nothing has changed exactly if there was no footer
and the status was that already. Every other call has changed nothing. -/
theorem call_error {c : Call} {e : EngineError} (h : w.call c = .ok (.error e, w')) :
    match c with
    | .engine (.compile _) => ∃ nonce, w' = { w with engine := { w.engine with nonce } }
    | .deoptimizeRunning gen site _ =>
      e = .unknownDeopt site ∧
      (∃ heap, w.heap.setGenStatus gen .running = .ok heap ∧
        w' = { w with engine := w.engine.eraseFooter gen, heap }) ∧
      (w' = w ↔ w.engine.footer? gen = none ∧
        ∃ code, w.heap.get? gen = some (.generator code .running))
    | _ => w' = w := by
  cases c with
  | engine c =>
    obtain ⟨⟨reply, engine⟩, hc, h⟩ := map_eq_ok.1 h
    obtain ⟨hr, rfl⟩ := Prod.mk.inj h
    rw [error_eq_map.1 hr.symm] at hc
    have hengine := Engine.perform_error hc
    cases c with
    | compile f =>
      obtain ⟨nonce, rfl⟩ := hengine
      exact ⟨nonce, rfl⟩
    | install | compileAll | addRecord | discard =>
      obtain rfl : engine = w.engine := hengine
      rfl
  | materialize site snap targets =>
    rcases materialize_eq_ok (answer_eq_error h) with ⟨-, -, rfl⟩ | ⟨_, _, _, _, -, -, hr, -⟩
    · rfl
    · cases hr
  | deoptimize site snap =>
    rcases deoptimizeInto_eq_ok (answer_eq_error h) with ⟨-, -, rfl⟩ |
      ⟨_, _, _, _, _, _, -, -, -, -, hr, -⟩
    · rfl
    · cases hr
  | deoptimizeRunning gen site snap =>
    obtain ⟨heap, -, hset, hinto⟩ := deoptimizeRunning_eq_ok (answer_eq_error h)
    rcases deoptimizeInto_eq_ok hinto with ⟨-, hr, rfl⟩ | ⟨_, _, _, _, _, _, -, -, -, -, hr, -⟩
    · refine ⟨Except.error.inj hr, ⟨heap, hset, rfl⟩, ?_⟩
      rw [← Engine.eraseFooter_eq_self, ← Heap.setGenStatus_eq_self hset]
      constructor
      · intro hsame
        exact ⟨congrArg World.engine hsame, congrArg World.heap hsame⟩
      · rintro ⟨hengine, rfl⟩
        rw [hengine]
    · cases hr
  | suspend gen unit site spill =>
    rcases suspend_eq_ok (answer_eq_error h) with ⟨_, -, rfl⟩ | ⟨_, _, hr, -⟩
    · rfl
    · cases hr
  | resume gen =>
    rcases resume_eq_ok (answer_eq_error h) with ⟨_, -, -, rfl⟩ | ⟨_, _, -, -, hr, -⟩
    · rfl
    · cases hr
  | deoptSuspended gen =>
    rcases deoptSuspended_eq_ok (answer_eq_error h) with ⟨_, -, -, rfl⟩ |
      ⟨_, _, _, _, _, _, -, -, -, -, -, hr, -⟩
    · rfl
    · cases hr
  | releaseGenerator gen =>
    obtain ⟨⟨found, w₁⟩, -, h⟩ := map_eq_ok.1 h
    cases h

namespace Dropping

def code : CodeUnit := { id := ⟨1⟩, name := "gen", kind := .generator, locals := ["x"], length := 16 }

def record : Record where
  live := []
  frames := [{ code, slots := [LiveIndex.dead], stack := [], handlers := [], cause := ⟨4⟩ }]
  reason := .generatorYield

def unit : CompiledUnit :=
  { name := "gen", code, records := [record], sites := [], layout := { frameSize := 16 } }

/-- A new engine, and a generator that was just made. -/
def start : World := { heap := (Heap.initial.alloc (.generator ⟨1⟩ .justStarted)).2 }

/-- The generator runs in a unit of its own: it has suspended once and was resumed. -/
def calls : List Call := [.engine (.install unit), .suspend ⟨3⟩ ⟨0⟩ ⟨0⟩ [], .resume ⟨3⟩]

def footer : Footer :=
  { unit := ⟨0⟩, gen := ⟨3⟩, site := ⟨0⟩, record, spill := [], status := .running }

/-- The world while it runs. -/
def running : World where
  engine := {
    registry := { value := {
      table := [some record]
      units := [{ id := ⟨0⟩, name := ⟨0⟩, code, frameSize := 16, deoptIds := [⟨0⟩] }]
      nextUnit := 1
      names := (InternTable.intern {} "gen").2 } }
    footers := [(⟨3⟩, footer)] }
  heap := (Heap.initial.alloc (.generator ⟨1⟩ .running)).2

end Dropping

/-- Leaving a running generator at an unknown record: the error is returned, and the footer is gone. -/
theorem call_error_dropping : ∃ w', Dropping.start.run Dropping.calls = .ok Dropping.running ∧
    Dropping.running.call (.deoptimizeRunning ⟨3⟩ ⟨9⟩ {}) = .ok (.error (.unknownDeopt ⟨9⟩), w') ∧
    w' ≠ Dropping.running ∧ w'.engine.footer? ⟨3⟩ = none := by
  have hcall : Dropping.running.call (.deoptimizeRunning ⟨3⟩ ⟨9⟩ {}) =
      .ok (.error (.unknownDeopt ⟨9⟩),
        { Dropping.running with engine := Dropping.running.engine.eraseFooter ⟨3⟩ }) := rfl
  obtain ⟨-, -, hsame⟩ := call_error hcall
  refine ⟨_, rfl, hcall, ?_, rfl⟩
  rw [ne_eq, hsame]
  rintro ⟨hnone, -⟩
  cases hnone

end World

end Bailout
