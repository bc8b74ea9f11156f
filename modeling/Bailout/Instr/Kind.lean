import Bailout.Fault
import Bailout.Opcode

/-!
# Instruction kinds

An opcode with its immediates. The kind fixes the number of register operands and the blocks that a
branch leads to.
-/

namespace Bailout

inductive InstrKind where
  /-- The type must have a single value. -/
  | loadConst (ty : Ty)
  | loadArg (index : Nat)
  | assign
  | loadCurrentFunc
  | binaryOp (op : BinaryOp)
  /-- On primitive integers. -/
  | intBinaryOp (op : BinaryOp)
  | compare (op : CompareOp)
  | primitiveCompare (op : CompareOp)
  | isTruthy
  | loadAttr (name : String)
  /-- Operands: receiver, value. -/
  | storeAttr (name : String)
  /-- The output stands for two slots of the interpreter's stack. -/
  | loadMethod (name : String)
  /-- Operands: callable, receiver, arguments. -/
  | callMethod (args : Nat)
  /-- Operands: callable, arguments. -/
  | vectorCall (args : Nat)
  | loadGlobal (name : String)
  | loadField (index : Nat) (name : String)
  | checkField (name : String)
  | checkVar (name : String)
  | checkFreevar (name : String)
  | checkExc
  | guard
  | guardType (ty : Ty)
  | guardIs (target : Handle)
  | makeTuple (values : Nat)
  | makeList (values : Nat)
  | incref
  | decref
  | xDecref
  /-- One operand per incoming block, in the same order. -/
  | phi (blocks : List BlockId)
  /-- Carries a frame state only. -/
  | snapshot
  /-- Carries the caller's frame state at the call. -/
  | beginInlinedFunction (callee : CodeId)
  | endInlinedFunction
  | initialYield
  | yieldValue
  /-- Operands: value to send, sub-iterator. -/
  | yieldFrom
  | runPeriodicTasks
  | branch (target : BlockId)
  | condBranch (ifTrue ifFalse : BlockId)
  | condBranchCheckType (ty : Ty) (ifTrue ifFalse : BlockId)
  | ret
  | raise
  | deopt
  /-- Can be patched into a forced exit. -/
  | deoptPatchpoint
  | unreachable
deriving DecidableEq, Repr

namespace InstrKind

def opcode : InstrKind → Opcode
  | loadConst _ => .loadConst
  | loadArg _ => .loadArg
  | assign => .assign
  | loadCurrentFunc => .loadCurrentFunc
  | binaryOp _ => .binaryOp
  | intBinaryOp _ => .intBinaryOp
  | compare _ => .compare
  | primitiveCompare _ => .primitiveCompare
  | isTruthy => .isTruthy
  | loadAttr _ => .loadAttr
  | storeAttr _ => .storeAttr
  | loadMethod _ => .loadMethod
  | callMethod _ => .callMethod
  | vectorCall _ => .vectorCall
  | loadGlobal _ => .loadGlobal
  | loadField _ _ => .loadField
  | checkField _ => .checkField
  | checkVar _ => .checkVar
  | checkFreevar _ => .checkFreevar
  | checkExc => .checkExc
  | guard => .guard
  | guardType _ => .guardType
  | guardIs _ => .guardIs
  | makeTuple _ => .makeTuple
  | makeList _ => .makeList
  | incref => .incref
  | decref => .decref
  | xDecref => .xDecref
  | phi _ => .phi
  | snapshot => .snapshot
  | beginInlinedFunction _ => .beginInlinedFunction
  | endInlinedFunction => .endInlinedFunction
  | initialYield => .initialYield
  | yieldValue => .yieldValue
  | yieldFrom => .yieldFrom
  | runPeriodicTasks => .runPeriodicTasks
  | branch _ => .branch
  | condBranch _ _ => .condBranch
  | condBranchCheckType _ _ _ => .condBranchCheckType
  | ret => .ret
  | raise => .raise
  | deopt => .deopt
  | deoptPatchpoint => .deoptPatchpoint
  | unreachable => .unreachable

/-- Whatever an opcode may take besides registers. An opcode looks at its own fields only. -/
structure Immediates where
  ty : Ty
  number : Nat
  name : String
  binary : BinaryOp
  compare : CompareOp
  object : Handle
  callee : CodeId
  blocks : List BlockId
  /-- The target of an unconditional branch too. -/
  ifTrue : BlockId
  ifFalse : BlockId

def ofOpcode (op : Opcode) (imm : Immediates) : InstrKind :=
  match op with
  | .loadConst => loadConst imm.ty
  | .loadArg => loadArg imm.number
  | .assign => assign
  | .loadCurrentFunc => loadCurrentFunc
  | .binaryOp => binaryOp imm.binary
  | .intBinaryOp => intBinaryOp imm.binary
  | .compare => compare imm.compare
  | .primitiveCompare => primitiveCompare imm.compare
  | .isTruthy => isTruthy
  | .loadAttr => loadAttr imm.name
  | .storeAttr => storeAttr imm.name
  | .loadMethod => loadMethod imm.name
  | .callMethod => callMethod imm.number
  | .vectorCall => vectorCall imm.number
  | .loadGlobal => loadGlobal imm.name
  | .loadField => loadField imm.number imm.name
  | .checkField => checkField imm.name
  | .checkVar => checkVar imm.name
  | .checkFreevar => checkFreevar imm.name
  | .checkExc => checkExc
  | .guard => guard
  | .guardType => guardType imm.ty
  | .guardIs => guardIs imm.object
  | .makeTuple => makeTuple imm.number
  | .makeList => makeList imm.number
  | .incref => incref
  | .decref => decref
  | .xDecref => xDecref
  | .phi => phi imm.blocks
  | .snapshot => snapshot
  | .beginInlinedFunction => beginInlinedFunction imm.callee
  | .endInlinedFunction => endInlinedFunction
  | .initialYield => initialYield
  | .yieldValue => yieldValue
  | .yieldFrom => yieldFrom
  | .runPeriodicTasks => runPeriodicTasks
  | .branch => branch imm.ifTrue
  | .condBranch => condBranch imm.ifTrue imm.ifFalse
  | .condBranchCheckType => condBranchCheckType imm.ty imm.ifTrue imm.ifFalse
  | .ret => ret
  | .raise => raise
  | .deopt => deopt
  | .deoptPatchpoint => deoptPatchpoint
  | .unreachable => unreachable

/-- The number of register operands. -/
def operandCount (k : InstrKind) : Except Fault Nat :=
  match k with
  | callMethod args => Checked.size .add (args + 2)
  | vectorCall args => Checked.size .add (args + 1)
  | makeTuple values | makeList values => .ok values
  | phi blocks => .ok blocks.length
  | _ => .ok (k.opcode.fixedArity?.getD 0)

/-- Where a branch leads, in order. -/
def successors : InstrKind → List BlockId
  | branch target => [target]
  | condBranch ifTrue ifFalse | condBranchCheckType _ ifTrue ifFalse => [ifTrue, ifFalse]
  | _ => []

/-- Redirects one successor, if there is one with this index. -/
def setSuccessor? (k : InstrKind) (index : Nat) (target : BlockId) : Option InstrKind :=
  match k, index with
  | branch _, 0 => some (branch target)
  | condBranch _ ifFalse, 0 => some (condBranch target ifFalse)
  | condBranch ifTrue _, 1 => some (condBranch ifTrue target)
  | condBranchCheckType ty _ ifFalse, 0 => some (condBranchCheckType ty target ifFalse)
  | condBranchCheckType ty ifTrue _, 1 => some (condBranchCheckType ty ifTrue target)
  | _, _ => none

/-- A name between quotes, as it stands. -/
def quoted (name : String) : String := "\"" ++ name ++ "\""

/-- The immediates as text, for kinds that have some. -/
def immediates? : InstrKind → Option String
  | loadConst ty | guardType ty => some ty.text
  | loadArg i => some (Nat.repr i)
  | binaryOp op | intBinaryOp op => some op.name
  | compare op | primitiveCompare op => some op.name
  | loadAttr name | storeAttr name | loadMethod name | loadGlobal name | checkField name
  | checkVar name | checkFreevar name => some (quoted name)
  | loadField i name => some (Nat.repr i ++ ", " ++ quoted name)
  | callMethod n | vectorCall n | makeTuple n | makeList n => some (Nat.repr n)
  | guardIs target => some (toString target)
  | phi blocks => some (String.intercalate ", " (blocks.map toString))
  | beginInlinedFunction callee => some (toString callee)
  | branch target => some (toString target)
  | condBranch ifTrue ifFalse => some s!"{ifTrue}, {ifFalse}"
  | condBranchCheckType ty ifTrue ifFalse => some s!"{ifTrue}, {ifFalse}, {ty}"
  | _ => none

end InstrKind

end Bailout
