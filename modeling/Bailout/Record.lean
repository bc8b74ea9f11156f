import Bailout.Error
import Bailout.FrameState
import Bailout.Function
import Bailout.Instr.Live

/-!
# Deopt records

Everything needed to rebuild the interpreter's frames at one place where compiled code can be left: the
values to recover from machine state, and for each frame how they fill its slots and stack. Frames are
listed outermost first; the last one belongs to the instruction itself.
-/

namespace Bailout

/-- Where a live value came from, when that matters for rebuilding. -/
inductive ValueSource where
  | unknown
  /-- A method lookup; its result stands for two slots of the interpreter's stack. -/
  | loadMethod
deriving DecidableEq, Repr

namespace ValueSource

def name : ValueSource → String
  | unknown => "Unknown"
  | loadMethod => "LoadMethod"

def ofName? (s : String) : Option ValueSource := [unknown, loadMethod].find? (fun k => k.name == s)

end ValueSource

/-- A value to be recovered from machine state. -/
structure LiveValue where
  reg : Reg
  location : Option Location := none
  refKind : RefKind
  valueKind : ValueKind
  source : ValueSource := .unknown
  /-- The value fills two slots of the interpreter's stack: callable and receiver. -/
  twoSlots : Bool := false
deriving DecidableEq, Repr

def LiveValue.ofLiveReg (l : LiveReg) : LiveValue :=
  { reg := l.reg, refKind := l.refKind, valueKind := l.valueKind }

def LiveValue.text (v : LiveValue) : String :=
  s!"{v.reg}:{v.refKind}:{v.valueKind}" ++ (v.location.map fun l => s!"@{l}").getD "" ++
    if v.source = .unknown then "" else s!" ({v.source.name})"

/-- Position of a live value in a record. Only `LiveIndex.dead` stands for "no value"; any other
position outside the record is a fault when it is looked up. -/
abbrev LiveIndex := Int

def LiveIndex.dead : LiveIndex := -1

/-- One entry of a frame's operand stack. -/
inductive StackEntry where
  /-- One slot. -/
  | value (index : LiveIndex)
  /-- A method lookup, two slots. For a plain function they are the function and its receiver;
  otherwise the receiver is bound already and they are an empty slot and the callable. A dead lookup
  leaves both empty. -/
  | methodPair (callable receiver : LiveIndex)
deriving DecidableEq, Repr

/-- Slots of the interpreter's stack that an entry fills. -/
def StackEntry.slots : StackEntry → Nat
  | .value _ => 1
  | .methodPair _ _ => 2

/-- How to rebuild one frame. -/
structure FrameRecord where
  code : CodeUnit
  /-- One position for each local, cell and free variable slot. -/
  slots : List LiveIndex
  /-- Bottom first. -/
  stack : List StackEntry
  handlers : List Handler
  /-- The instruction that caused the exit, or the call in a caller. -/
  cause : Offset
deriving DecidableEq, Repr

/-- Depth of the interpreter's stack once rebuilt. -/
def FrameRecord.stackDepth (f : FrameRecord) : Nat := f.stack.foldr (fun e n => e.slots + n) 0

structure Record where
  live : List LiveValue
  /-- Outermost first. -/
  frames : List FrameRecord
  reason : Reason
  /-- Position of the value blamed for the exit. -/
  guilty : Option Nat := none
  descr : Option String := none
  nonce : Nat := 0
deriving DecidableEq, Repr

namespace Record

def innermost (r : Record) : Except Fault FrameRecord :=
  match r.frames.getLast? with
  | some f => .ok f
  | none => .error (.noFrames r.nonce)

def outermost (r : Record) : Except Fault FrameRecord :=
  match r.frames.head? with
  | some f => .ok f
  | none => .error (.noFrames r.nonce)

def inlineDepth (r : Record) : Nat := r.frames.length - 1

/-- The live value at a position, if the position is not dead. -/
def liveValue (r : Record) (index : LiveIndex) : Except Fault (Option LiveValue) :=
  if index = LiveIndex.dead then .ok none
  else
    match (if 0 ≤ index then r.live[index.toNat]? else none) with
    | some v => .ok (some v)
    | none => .error (.liveIndex index r.live.length r.nonce)

/-- The value blamed for the exit. -/
def guiltyValue? (r : Record) : Option LiveValue := r.guilty.bind (r.live[·]?)

/-- The locations of the live values that have one. -/
def locations (r : Record) : List Location := r.live.filterMap (·.location)

/-- Every live value has a location. -/
def isLocated (r : Record) : Bool := r.live.all (·.location.isSome)

end Record

/-! ## Building records

From an instruction with a frame state to its record. Live registers are listed once each, in order of
first mention; frame slots refer to them by position. The blamed register is recorded too, but a slot
that holds it and nothing live stays dead.
-/

namespace LiveReg

/-- Keeps the first entry of each register. -/
def distinct (states : List LiveReg) : List LiveReg :=
  states.foldl (fun acc l => if acc.any (·.reg == l.reg) then acc else acc ++ [l]) []

/-- Position of a register among distinct live registers. -/
def position? (states : List LiveReg) (r : Reg) : Option Nat := states.findIdx? (·.reg == r)

/-- Position that a slot records: dead if it has no register or the register is not live. -/
def indexOf (states : List LiveReg) (r : Option Reg) : LiveIndex :=
  match r.bind (position? states) with
  | some i => i
  | none => .dead

end LiveReg

/-- Marks the value at a position as the result of a method lookup. -/
def LiveValue.markMethod (values : List LiveValue) (index : LiveIndex) : List LiveValue :=
  values.modify index.toNat fun v => { v with source := .loadMethod, twoSlots := true }

namespace Function

/-- The receiver, if the register is defined by a method lookup. -/
def methodReceiver (f : Function) (r : Reg) : Except Fault (Option Reg) :=
  match f.definition? r with
  | some i => if i.opcode = .loadMethod then (i.operand 0).map some else .ok none
  | none => .ok none

/-- The entry for one register of an operand stack. A live method lookup needs a live receiver. -/
def stackEntry (f : Function) (live : List LiveReg) (a : Activation) (r : Reg) :
    Except Fault StackEntry := do
  let callable := LiveReg.indexOf live (some r)
  match ← f.methodReceiver r with
  | none => return .value callable
  | some receiverReg =>
    if callable = LiveIndex.dead then return .methodPair .dead .dead
    let receiver := LiveReg.indexOf live (some receiverReg)
    if receiver = LiveIndex.dead then
      throw (.receiver receiverReg r a.code.qualname a.offset)
    return .methodPair callable receiver

def frameRecord (f : Function) (live : List LiveReg) (a : Activation) : Except Fault FrameRecord := do
  let stack ← a.stack.mapM (f.stackEntry live a)
  return {
    code := a.code
    slots := a.slots.map (LiveReg.indexOf live)
    stack
    handlers := a.handlers
    cause := a.offset }

/-- The positions that some stack reads as method lookups. -/
def methodIndices (frames : List FrameRecord) : List LiveIndex :=
  frames.flatMap fun fr => fr.stack.filterMap fun
    | .methodPair callable _ => if callable = LiveIndex.dead then none else some callable
    | .value _ => none

/-- Builds the record of an instruction, under the given nonce. -/
def buildRecord (f : Function) (i : Instr) (nonce : Nat) :
    Except Fault (Except CompileError Record) := do
  match i.frameState with
  | none =>
    return .error (.validation (.missingFrameState (i.block.getD f.graph.entry) i.opcode))
  | some fs =>
    let live := LiveReg.distinct i.live
    let values := live.map LiveValue.ofLiveReg
    let (guilty, values) ←
      match i.guilty? with
      | none => pure (none, values)
      | some r =>
        match LiveReg.position? live r with
        | some index => pure (some index, values)
        | none => do
          let state ← f.liveReg r .borrowed
          pure (some values.length, values ++ [LiveValue.ofLiveReg state])
    let frames ← fs.frames.mapM (f.frameRecord live)
    return .ok {
      live := (methodIndices frames).foldl LiveValue.markMethod values
      frames
      reason := .ofOpcode i.opcode
      guilty
      descr := some (i.descr?.getD i.opcode.name)
      nonce }

end Function

end Bailout
