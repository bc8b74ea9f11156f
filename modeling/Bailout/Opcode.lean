/-!
# Opcodes

The payload-free tags of instructions and what each one allows: its arity, whether it defines an output,
ends a block, can leave compiled code, may carry a frame state. Operators of binary and comparison
instructions are tags of their own.
-/

namespace Bailout

/-- Operators of binary instructions. -/
inductive BinaryOp where
  | add
  | subtract
  | multiply
  | trueDivide
  | floorDivide
  | modulo
  | power
  | lShift
  | rShift
  | bitAnd
  | bitOr
  | bitXor
deriving DecidableEq, Repr

/-- Operators of comparisons. -/
inductive CompareOp where
  | lessThan
  | lessThanEqual
  | equal
  | notEqual
  | greaterThan
  | greaterThanEqual
  | is
  | isNot
  | isIn
  | notIn
deriving DecidableEq, Repr

inductive Opcode where
  | loadConst
  | loadArg
  | assign
  | loadCurrentFunc
  | binaryOp
  | intBinaryOp
  | compare
  | primitiveCompare
  | isTruthy
  | loadAttr
  | storeAttr
  | loadMethod
  | callMethod
  | vectorCall
  | loadGlobal
  | loadField
  | checkField
  | checkVar
  | checkFreevar
  | checkExc
  | guard
  | guardType
  | guardIs
  | makeTuple
  | makeList
  | incref
  | decref
  | xDecref
  | phi
  | snapshot
  | beginInlinedFunction
  | endInlinedFunction
  | initialYield
  | yieldValue
  | yieldFrom
  | runPeriodicTasks
  | branch
  | condBranch
  | condBranchCheckType
  | ret
  | raise
  | deopt
  | deoptPatchpoint
  | unreachable
deriving DecidableEq, Repr

namespace BinaryOp

/-- Every tag, in order of declaration. -/
def all : List BinaryOp :=
  [add, subtract, multiply, trueDivide, floorDivide, modulo, power, lShift, rShift, bitAnd, bitOr, bitXor]

def name : BinaryOp → String
  | add => "Add"
  | subtract => "Subtract"
  | multiply => "Multiply"
  | trueDivide => "TrueDivide"
  | floorDivide => "FloorDivide"
  | modulo => "Modulo"
  | power => "Power"
  | lShift => "LShift"
  | rShift => "RShift"
  | bitAnd => "And"
  | bitOr => "Or"
  | bitXor => "Xor"

/-- The tag with this name, letter for letter. -/
def ofName? (s : String) : Option BinaryOp := all.find? (fun o => o.name == s)

instance : ToString BinaryOp := ⟨name⟩

end BinaryOp

namespace CompareOp

/-- Every tag, in order of declaration. -/
def all : List CompareOp :=
  [lessThan, lessThanEqual, equal, notEqual, greaterThan, greaterThanEqual, is, isNot, isIn, notIn]

def name : CompareOp → String
  | lessThan => "LessThan"
  | lessThanEqual => "LessThanEqual"
  | equal => "Equal"
  | notEqual => "NotEqual"
  | greaterThan => "GreaterThan"
  | greaterThanEqual => "GreaterThanEqual"
  | is => "Is"
  | isNot => "IsNot"
  | isIn => "In"
  | notIn => "NotIn"

/-- The tag with this name, letter for letter. -/
def ofName? (s : String) : Option CompareOp := all.find? (fun o => o.name == s)

instance : ToString CompareOp := ⟨name⟩

end CompareOp

namespace Opcode

/-- Every tag, in order of declaration. -/
def all : List Opcode :=
  [loadConst, loadArg, assign, loadCurrentFunc, binaryOp, intBinaryOp, compare, primitiveCompare, isTruthy,
    loadAttr, storeAttr, loadMethod, callMethod, vectorCall, loadGlobal, loadField, checkField, checkVar,
    checkFreevar, checkExc, guard, guardType, guardIs, makeTuple, makeList, incref, decref, xDecref, phi,
    snapshot, beginInlinedFunction, endInlinedFunction, initialYield, yieldValue, yieldFrom,
    runPeriodicTasks, branch, condBranch, condBranchCheckType, ret, raise, deopt, deoptPatchpoint,
    unreachable]

def name : Opcode → String
  | loadConst => "LoadConst"
  | loadArg => "LoadArg"
  | assign => "Assign"
  | loadCurrentFunc => "LoadCurrentFunc"
  | binaryOp => "BinaryOp"
  | intBinaryOp => "IntBinaryOp"
  | compare => "Compare"
  | primitiveCompare => "PrimitiveCompare"
  | isTruthy => "IsTruthy"
  | loadAttr => "LoadAttr"
  | storeAttr => "StoreAttr"
  | loadMethod => "LoadMethod"
  | callMethod => "CallMethod"
  | vectorCall => "VectorCall"
  | loadGlobal => "LoadGlobal"
  | loadField => "LoadField"
  | checkField => "CheckField"
  | checkVar => "CheckVar"
  | checkFreevar => "CheckFreevar"
  | checkExc => "CheckExc"
  | guard => "Guard"
  | guardType => "GuardType"
  | guardIs => "GuardIs"
  | makeTuple => "MakeTuple"
  | makeList => "MakeList"
  | incref => "Incref"
  | decref => "Decref"
  | xDecref => "XDecref"
  | phi => "Phi"
  | snapshot => "Snapshot"
  | beginInlinedFunction => "BeginInlinedFunction"
  | endInlinedFunction => "EndInlinedFunction"
  | initialYield => "InitialYield"
  | yieldValue => "YieldValue"
  | yieldFrom => "YieldFrom"
  | runPeriodicTasks => "RunPeriodicTasks"
  | branch => "Branch"
  | condBranch => "CondBranch"
  | condBranchCheckType => "CondBranchCheckType"
  | ret => "Return"
  | raise => "Raise"
  | deopt => "Deopt"
  | deoptPatchpoint => "DeoptPatchpoint"
  | unreachable => "Unreachable"

/-- The tag with this name, letter for letter. -/
def ofName? (s : String) : Option Opcode := all.find? (fun o => o.name == s)

instance : ToString Opcode := ⟨name⟩

/-- The number of operands, for opcodes whose arity does not depend on the immediates. -/
def fixedArity? : Opcode → Option Nat
  | callMethod | vectorCall | makeTuple | makeList | phi => none
  | loadConst | loadArg | loadCurrentFunc | loadGlobal | snapshot | beginInlinedFunction |
    endInlinedFunction | initialYield | runPeriodicTasks | branch | deopt | deoptPatchpoint |
    unreachable => some 0
  | assign | isTruthy | loadAttr | loadMethod | loadField | checkField | checkVar | checkFreevar |
    checkExc | guard | guardType | guardIs | incref | decref | xDecref | yieldValue | condBranch |
    condBranchCheckType | ret | raise => some 1
  | binaryOp | intBinaryOp | compare | primitiveCompare | storeAttr | yieldFrom => some 2

def isVariadic (o : Opcode) : Bool := o.fixedArity?.isNone

def hasOutput : Opcode → Bool
  | storeAttr | guard | incref | decref | xDecref | snapshot | beginInlinedFunction |
    endInlinedFunction | runPeriodicTasks | branch | condBranch | condBranchCheckType | ret |
    raise | deopt | deoptPatchpoint | unreachable => false
  | _ => true

/-- The opcode ends a block. -/
def isTerminator : Opcode → Bool
  | branch | condBranch | condBranchCheckType | ret | raise | deopt | unreachable => true
  | _ => false

/-- Instructions with this opcode can leave compiled code, and carry what that needs. -/
def hasDeoptData : Opcode → Bool
  | binaryOp | compare | isTruthy | loadAttr | storeAttr | loadMethod | callMethod | vectorCall |
    loadGlobal | checkField | checkVar | checkFreevar | checkExc | guard | guardType | guardIs |
    makeTuple | makeList | initialYield | yieldValue | yieldFrom | runPeriodicTasks | raise |
    deopt | deoptPatchpoint => true
  | _ => false

def hasFrameState (o : Opcode) : Bool :=
  o.hasDeoptData || o == snapshot || o == beginInlinedFunction

/-- Running the instruction may raise. Guards and forced exits leave that to the interpreter. -/
def couldRaise (o : Opcode) : Bool :=
  o.hasDeoptData &&
    match o with
    | guard | guardType | guardIs | deopt | deoptPatchpoint => false
    | _ => true

/-- The operand blamed when the instruction leaves compiled code. -/
def guiltyOperand? : Opcode → Option Nat
  | checkField | checkVar | checkFreevar | guard | guardType | guardIs => some 0
  | _ => none

/-- The output aliases the first operand. -/
def isPassthrough : Opcode → Bool
  | assign | checkField | checkVar | checkFreevar | checkExc | guardType | guardIs => true
  | _ => false

end Opcode

end Bailout
