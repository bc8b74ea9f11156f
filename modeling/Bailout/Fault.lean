import Bailout.Exit
import Bailout.Heap.Object
import Bailout.Ty.Basic

/-!
# Faults

A fault is a broken precondition: it ends the computation, and nothing after it runs. It is kept apart
from the errors that a caller can recover from. Each fault names its cause; `Fault.message` has the
wording.

The model is of a build with debug assertions and overflow checks. What only such a build looks at is a
fault here like any other: results that do not fit (`Checked`), the saved words of a running generator
(`Fault.savedSpill`), the reason of a suspension (`Fault.notYield`). A build without them goes on in these
cases, with wrapped results and with the state as it is.
-/

namespace Bailout

/-- The checked machine operations. -/
inductive Arith where
  | add
  | subtract
  | multiply
deriving DecidableEq, Repr

def Arith.name : Arith → String
  | .add => "add"
  | .subtract => "subtract"
  | .multiply => "multiply"

inductive Fault where
  /-- A result does not fit the machine integer that holds it. -/
  | overflow (op : Arith)
  | index (length index : Nat)
  | insertIndex (length index : Nat)
  | removeIndex (length index : Nat)
  /-- The word is not aligned the way references are. -/
  | misalignedWord (word : Word)
  | wordRange (word : Word)
  | dangling (h : Handle)
  | countOverflow (h : Handle)
  | countUnderflow (h : Handle)
  | notGenerator (h : Handle) (kind : ObjectKind)
  /-- An integer value narrows only a single primitive integer kind. -/
  | integerKind (ty : Ty)
  | unknownRegister (reg : Reg)
  | operandCount (op : Opcode) (found expected : Nat)
  | constant (ty : Ty)
  | successor (op : Opcode) (index : Nat)
  | operand (op : Opcode) (index count : Nat)
  | linked (op : Opcode) (block : BlockId)
  | frameState (op : Opcode)
  /-- The opcode cannot leave compiled code. -/
  | deoptData (op : Opcode)
  | unknownBlock (block : BlockId)
  | removeEntry (block : BlockId)
  | emptyBlock (block : BlockId)
  | receiver (receiver method : Reg) (code : String) (at_ : Offset)
  | liveIndex (index : Int) (count nonce : Nat)
  | noFrames (nonce : Nat)
  | outsideSnapshot (loc : Location)
  | spillOffset (offset : Int)
  | unlocated (reg : Reg) (nonce : Nat)
  | freedObject (reg : Reg) (nonce : Nat) (h : Handle)
  | targetCount (nonce frames targets : Nat)
  | targetCode (nonce : Nat) (recorded target : CodeId)
  | targetSlots (nonce recorded : Nat) (code : String) (found : Nat)
  | noCallable (nonce : Nat)
  /-- The generator is handed out as running but still has saved words. -/
  | savedSpill (gen : Handle)
  | notYield (reason : Reason)
  | alreadySuspended (gen : Handle)
  | inlinedYield (site : DeoptId) (gen : Handle) (frames : Nat)
  /-- A fault inside one of several workers. -/
  | worker
deriving DecidableEq, Repr

namespace Fault

/-- A word in hexadecimal. -/
def hex (word : Word) : String := "0x" ++ String.ofList (Nat.toDigits 16 word.toNat)

/-- The text of a failed comparison of two printed values. -/
def comparison (relation : String) (detail : Option String) (left right : String) : String :=
  "assertion `left " ++ relation ++ " right` failed" ++ (detail.map (": " ++ ·)).getD "" ++
    "\n  left: " ++ left ++ "\n right: " ++ right

def blockForm (b : BlockId) : String := "BlockId(" ++ Nat.repr b.index ++ ")"

def codeForm (c : CodeId) : String := "CodeId(" ++ Nat.repr c.val ++ ")"

def message : Fault → String
  | overflow op => s!"attempt to {op.name} with overflow"
  | index length i => s!"index out of bounds: the len is {length} but the index is {i}"
  | insertIndex length i => s!"insertion index (is {i}) should be <= len (is {length})"
  | removeIndex length i => s!"removal index (is {i}) should be < len (is {length})"
  | misalignedWord word => s!"raw word {hex word} is not an encoded object reference"
  | wordRange word => s!"raw word {hex word} is out of handle range"
  | dangling h => s!"dangling object reference {h}"
  | countOverflow h => s!"reference count overflow on {h}"
  | countUnderflow h => s!"reference count underflow on {h}"
  | notGenerator h kind => s!"{h} is a {kind}, not a generator"
  | integerKind ty => s!"{ty} is not a single primitive integer kind"
  | unknownRegister reg => s!"{reg} is not a register of this environment"
  | operandCount op found expected =>
    comparison "==" (some s!"{op} takes {expected} operands, got {found}") (Nat.repr found)
      (Nat.repr expected)
  | constant ty => s!"LoadConst requires a single-value type, got {ty}"
  | successor op i => s!"{op} has no successor {i}"
  | operand op i count => s!"operand {i} out of bounds for {op} with {count} operands"
  | linked op block => s!"{op} is already linked into {block}"
  | frameState op => s!"{op} cannot carry a frame state"
  | deoptData op => s!"{op} cannot deoptimize"
  | unknownBlock block => s!"{block} is not a block of this graph"
  | removeEntry block =>
    comparison "!=" (some "cannot remove the entry block") (blockForm block) (blockForm block)
  | emptyBlock block => s!"{block} is empty"
  | receiver r method code at_ =>
    s!"receiver {r} of method lookup {method} is not live at {code}@{at_}"
  | liveIndex i count nonce =>
    s!"live value index {i} out of range ({count} live values) in deopt metadata {nonce}"
  | noFrames nonce => s!"deopt metadata {nonce} has no frames"
  | outsideSnapshot loc => s!"{loc} is outside the captured machine state"
  | spillOffset offset => s!"spill offset {offset} is not a word offset"
  | unlocated reg nonce => s!"live value {reg} of deopt metadata {nonce} has no machine location"
  | freedObject reg nonce h =>
    s!"live value {reg} of deopt metadata {nonce} refers to freed object {h}"
  | targetCount nonce frames targets =>
    comparison "=="
      (some s!"deopt metadata {nonce} describes {frames} frames but {targets} targets were given")
      (Nat.repr targets) (Nat.repr frames)
  | targetCode nonce recorded target =>
    comparison "=="
      (some s!"deopt metadata {nonce} frame for {recorded} materialized into a frame of {target}")
      (codeForm target) (codeForm recorded)
  | targetSlots nonce recorded code found =>
    comparison "=="
      (some s!"deopt metadata {nonce} records {recorded} slots for {code} but the frame has {found}")
      (Nat.repr found) (Nat.repr recorded)
  | noCallable nonce => s!"method lookup in deopt metadata {nonce} produced no callable"
  | savedSpill gen => s!"running generator {gen} has a saved spill area"
  | notYield reason => comparison "==" none reason.name Reason.generatorYield.name
  | alreadySuspended gen => s!"generator {gen} is already suspended"
  | inlinedYield site gen frames =>
    comparison "==" (some s!"yield site {site} of generator {gen} spans inlined frames")
      (Nat.repr frames) "1"
  | worker => "a scoped thread panicked"

end Fault

/-! ## Checked machine integers

Results of machine arithmetic that must fit the integer that holds them: 32-bit offsets, 64-bit sizes,
64-bit signed values. A result that does not fit is a fault.
-/

namespace Checked

/-- A value of the 32-bit signed range. -/
def isOffset (v : Int) : Bool := -0x80000000 ≤ v && v < 0x80000000

/-- A value of the 64-bit range. -/
def isSize (n : Nat) : Bool := n < 0x10000000000000000

/-- A value of the 64-bit signed range. -/
def isSigned (v : Int) : Bool := -0x8000000000000000 ≤ v && v < 0x8000000000000000

def offset (op : Arith) (v : Int) : Except Fault Offset :=
  if isOffset v then .ok ⟨v⟩ else .error (.overflow op)

def size (op : Arith) (n : Nat) : Except Fault Nat :=
  if isSize n then .ok n else .error (.overflow op)

def signed (op : Arith) (v : Int) : Except Fault Int :=
  if isSigned v then .ok v else .error (.overflow op)

end Checked

end Bailout
