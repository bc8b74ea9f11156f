import Bailout.FrameState
import Bailout.Instr.Kind
import Bailout.Instr.Live

/-!
# Instructions

A kind with its register operands, and, for instructions that can leave compiled code, the registers
that must be recoverable there. An instruction is linked to at most one block.
-/

namespace Bailout

/-- What an instruction that can leave compiled code carries for it. -/
structure DeoptInfo where
  live : List LiveReg := []
  /-- The register blamed for the exit. -/
  guilty : Option Reg := none
  descr : Option String := none
deriving DecidableEq, Repr

/-- Replaces one register by another. -/
def DeoptInfo.rename (old new : Reg) (d : DeoptInfo) : DeoptInfo :=
  { d with
    live := d.live.map fun l => { l with reg := Reg.rename old new l.reg }
    guilty := d.guilty.map (Reg.rename old new) }

structure Instr where
  kind : InstrKind
  operands : List Reg
  output : Option Reg
  offset : Option Offset := none
  /-- The block it is linked into. -/
  block : Option BlockId := none
  frameState : Option FrameState := none
  deopt : Option DeoptInfo := none
deriving DecidableEq, Repr

namespace Instr

def opcode (i : Instr) : Opcode := i.kind.opcode

/-- An unlinked instruction. The number of operands follows from the kind, and a constant's type must
have a single value. -/
def new (kind : InstrKind) (operands : List Reg) (output : Option Reg) : Except Fault Instr := do
  let expected ← kind.operandCount
  if operands.length ≠ expected then
    throw (.operandCount kind.opcode operands.length expected)
  if let .loadConst ty := kind then
    if !ty.isSingleValue then throw (.constant ty)
  let deopt :=
    if kind.opcode.hasDeoptData then
      some { guilty := kind.opcode.guiltyOperand?.bind (operands[·]?) : DeoptInfo }
    else none
  return { kind, operands, output, deopt }

def isTerminator (i : Instr) : Bool := i.opcode.isTerminator

def successors (i : Instr) : List BlockId := i.kind.successors

def setSuccessor (i : Instr) (index : Nat) (target : BlockId) : Except Fault Instr :=
  match i.kind.setSuccessor? index target with
  | some kind => .ok { i with kind }
  | none => .error (.successor i.opcode index)

/-! ## Operands -/

def operand (i : Instr) (index : Nat) : Except Fault Reg :=
  match i.operands[index]? with
  | some r => .ok r
  | none => .error (.operand i.opcode index i.operands.length)

def setOperand (i : Instr) (index : Nat) (r : Reg) : Except Fault Instr :=
  if index < i.operands.length then .ok { i with operands := i.operands.set index r }
  else .error (.operand i.opcode index i.operands.length)

/-! ## Placement -/

def link (i : Instr) (block : BlockId) : Except Fault Instr :=
  match i.block with
  | some current => .error (.linked i.opcode current)
  | none => .ok { i with block := some block }

def unlink (i : Instr) : Instr := { i with block := none }

/-- A copy that is linked nowhere and has no offset. -/
def copy (i : Instr) : Instr := { i with offset := none, block := none }

/-- A copy that takes the place of the original. -/
def copyInPlace (i : Instr) : Instr := { i.copy with offset := i.offset, block := i.block }

/-! ## Frame state and deopt data -/

def setFrameState (i : Instr) (fs : FrameState) : Except Fault Instr :=
  if i.opcode.hasFrameState then .ok { i with frameState := some fs }
  else .error (.frameState i.opcode)

/-- Changes the deopt data of an instruction that has some. -/
def modifyDeopt (i : Instr) (f : DeoptInfo → DeoptInfo) : Except Fault Instr :=
  match i.deopt with
  | some d => .ok { i with deopt := some (f d) }
  | none => .error (.deoptData i.opcode)

def live (i : Instr) : List LiveReg := (i.deopt.map (·.live)).getD []

/-- Records a live register; one that is present is updated. -/
def addLive (i : Instr) (state : LiveReg) : Except Fault Instr :=
  i.modifyDeopt fun d => { d with live := state.insert d.live }

def setLive (i : Instr) (states : List LiveReg) : Except Fault Instr :=
  i.modifyDeopt fun d => { d with live := states }

def guilty? (i : Instr) : Option Reg := i.deopt.bind (·.guilty)

def setGuilty (i : Instr) (r : Reg) : Except Fault Instr :=
  i.modifyDeopt fun d => { d with guilty := some r }

def descr? (i : Instr) : Option String := i.deopt.bind (·.descr)

def setDescr (i : Instr) (text : String) : Except Fault Instr :=
  i.modifyDeopt fun d => { d with descr := some text }

/-! ## Reads -/

/-- Every register the instruction reads: operands, frame state, live registers. -/
def uses (i : Instr) : List Reg :=
  i.operands ++ ((i.frameState.map FrameState.uses).getD []) ++ i.live.map (·.reg)

/-- Replaces every read of one register by another. -/
def rename (old new : Reg) (i : Instr) : Instr :=
  { i with
    operands := i.operands.map (Reg.rename old new)
    frameState := i.frameState.map (FrameState.rename old new)
    deopt := i.deopt.map (DeoptInfo.rename old new) }

/-! ## Text -/

def text (i : Instr) : String :=
  let output := (i.output.map fun r => s!"{r} = ").getD ""
  let immediates := (i.kind.immediates?.map fun s => "<" ++ s ++ ">").getD ""
  let operands := String.join (i.operands.map fun r => s!" {r}")
  let frameState := (i.frameState.map fun fs => " " ++ fs.text).getD ""
  let live :=
    if i.live.isEmpty then ""
    else " LiveValues=<" ++ String.intercalate " " (i.live.map LiveReg.text) ++ ">"
  let descr := (i.descr?.map fun s => " " ++ InstrKind.quoted s).getD ""
  output ++ i.opcode.name ++ immediates ++ operands ++ frameState ++ live ++ descr

instance : ToString Instr := ⟨text⟩

end Instr

end Bailout
