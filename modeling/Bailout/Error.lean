import Bailout.Ident
import Bailout.Opcode

/-!
# Errors

What a caller can recover from: malformed functions, functions that cannot be compiled, and requests that
the engine refuses.
-/

namespace Bailout

/-! ## Malformed functions -/

/-- How a frame state disagrees with the layout of its code unit. -/
inductive ShapeError where
  | locals (found expected : Nat)
  | cells (found expected : Nat)
  | stack (depth size : Nat)
  /-- A handler, given by its text, unwinds above the operand stack. -/
  | handler (text : String) (level depth : Nat)
deriving DecidableEq, Repr

def ShapeError.message : ShapeError → String
  | .locals found expected => s!"{found} locals recorded, code has {expected}"
  | .cells found expected => s!"{found} cell slots recorded, code has {expected}"
  | .stack depth size => s!"stack depth {depth} exceeds stack size {size}"
  | .handler text level depth =>
    s!"handler {text} unwinds to level {level} above stack depth {depth}"

inductive IrError where
  | missingTerminator (block : BlockId)
  | misplacedTerminator (block : BlockId) (index : Nat) (op : Opcode)
  | unknownBlock (block target : BlockId)
  | unknownRegister (block : BlockId) (op : Opcode) (reg : Reg)
  | multipleDefinitions (reg : Reg)
  | missingOutput (block : BlockId) (op : Opcode)
  | unexpectedOutput (block : BlockId) (op : Opcode)
  | phiArity (block : BlockId) (expected found : Nat)
  | phiPredecessor (block pred : BlockId)
  | missingFrameState (block : BlockId) (op : Opcode)
  | frameShape (code : String) (detail : ShapeError)
  | inlineDepth (block : BlockId) (expected found : Nat)
  | unbalancedInline (block : BlockId)
deriving DecidableEq, Repr

/-- The name of the rule that is broken. -/
def IrError.name : IrError → String
  | .missingTerminator _ => "MissingTerminator"
  | .misplacedTerminator _ _ _ => "MisplacedTerminator"
  | .unknownBlock _ _ => "UnknownBlock"
  | .unknownRegister _ _ _ => "UnknownRegister"
  | .multipleDefinitions _ => "MultipleDefinitions"
  | .missingOutput _ _ => "MissingOutput"
  | .unexpectedOutput _ _ => "UnexpectedOutput"
  | .phiArity _ _ _ => "PhiArity"
  | .phiPredecessor _ _ => "PhiPredecessor"
  | .missingFrameState _ _ => "MissingFrameState"
  | .frameShape _ _ => "FrameShape"
  | .inlineDepth _ _ _ => "InlineDepth"
  | .unbalancedInline _ => "UnbalancedInline"

def IrError.message : IrError → String
  | .missingTerminator block => s!"{block} does not end in a terminator"
  | .misplacedTerminator block index op =>
    s!"{block}: terminator {op} at position {index} is not last"
  | .unknownBlock block target => s!"{block}: branch to nonexistent block {target}"
  | .unknownRegister block op reg => s!"{block}: {op} references unknown register {reg}"
  | .multipleDefinitions reg => s!"{reg} is defined more than once"
  | .missingOutput block op => s!"{block}: {op} must define an output"
  | .unexpectedOutput block op => s!"{block}: {op} cannot define an output"
  | .phiArity block expected found =>
    s!"{block}: phi has {found} inputs but the block has {expected} predecessors"
  | .phiPredecessor block pred => s!"{block}: phi input from {pred}, which is not a predecessor"
  | .missingFrameState block op => s!"{block}: {op} has no frame state"
  | .frameShape code detail => s!"frame state for {code} is malformed: {detail.message}"
  | .inlineDepth block expected found =>
    s!"{block}: inline depth {found} where {expected} was expected"
  | .unbalancedInline block =>
    s!"{block}: EndInlinedFunction without a matching BeginInlinedFunction"

/-! ## Compilation

What can keep one function from being compiled. Other functions are not affected.
-/

/-- Why a machine location cannot be given. -/
inductive LayoutError where
  | slotSize (size : Nat)
  | budget (registers : Nat)
  | spillOffset (offset : Nat)
deriving DecidableEq, Repr

def LayoutError.message : LayoutError → String
  | .slotSize size => s!"stack slot size {size} is not a positive multiple of 8"
  | .budget registers => s!"register budget {registers} exceeds the register file"
  | .spillOffset offset => s!"spill offset {offset}"

inductive CompileError where
  | validation (error : IrError)
  | unsupportedLocation (error : LayoutError)
deriving DecidableEq, Repr

def CompileError.name : CompileError → String
  | .validation _ => "Validation"
  | .unsupportedLocation _ => "UnsupportedLocation"

def CompileError.message : CompileError → String
  | .validation error => "invalid IR: " ++ error.message
  | .unsupportedLocation error => "unsupported machine location: " ++ error.message

/-! ## The engine -/

inductive EngineError where
  | unknownDeopt (id : DeoptId)
  | unknownUnit (id : UnitId)
  | unknownGenerator (gen : Handle)
  | generatorNotSuspended (gen : Handle)
  | unlocated (nonce : Nat)
  | compile (error : CompileError)
deriving DecidableEq, Repr

def EngineError.name : EngineError → String
  | .unknownDeopt _ => "UnknownDeopt"
  | .unknownUnit _ => "UnknownUnit"
  | .unknownGenerator _ => "UnknownGenerator"
  | .generatorNotSuspended _ => "GeneratorNotSuspended"
  | .unlocated _ => "UnlocatedMetadata"
  | .compile _ => "Compile"

def EngineError.message : EngineError → String
  | .unknownDeopt id => s!"unknown deopt metadata id {id}"
  | .unknownUnit id => s!"unknown compiled unit {id}"
  | .unknownGenerator gen => s!"generator {gen} has no native footer"
  | .generatorNotSuspended gen => s!"generator {gen} is not suspended"
  | .unlocated nonce => s!"deopt metadata {nonce} has live values without a machine location"
  | .compile error => s!"compilation failed: {error.message}"

end Bailout
