import Bailout.Ty.Basic

/-!
# Live registers

What is known of a register that must survive past an instruction which can leave compiled code: who
owns the reference in it, and how the machine represents the value.
-/

namespace Bailout

/-- Ownership of a reference at the point where it is captured. -/
inductive RefKind where
  /-- Not counted: primitives, immortal objects. -/
  | uncounted
  /-- Another owner keeps it alive. -/
  | borrowed
  /-- Compiled code holds a share. -/
  | owned
deriving DecidableEq, Repr

namespace RefKind

def all : List RefKind := [uncounted, borrowed, owned]

def name : RefKind → String
  | uncounted => "Uncounted"
  | borrowed => "Borrowed"
  | owned => "Owned"

/-- The one-letter mark used in instruction text. -/
def letter : RefKind → String
  | uncounted => "u"
  | borrowed => "b"
  | owned => "o"

def ofName? (s : String) : Option RefKind := all.find? (fun k => k.name == s)

instance : ToString RefKind := ⟨name⟩

end RefKind

/-- Machine representation of a value. -/
inductive ValueKind where
  | object
  | signed
  | unsigned
  | bool
  | double
deriving DecidableEq, Repr

namespace ValueKind

def all : List ValueKind := [object, signed, unsigned, bool, double]

def name : ValueKind → String
  | object => "Object"
  | signed => "Signed"
  | unsigned => "Unsigned"
  | bool => "Bool"
  | double => "Double"

def ofName? (s : String) : Option ValueKind := all.find? (fun k => k.name == s)

instance : ToString ValueKind := ⟨name⟩

/-- The representation of values of a type. -/
def ofTy (ty : Ty) : ValueKind :=
  let within (kinds : Kinds) : Bool := ty.le (.ofKinds kinds) && !ty.isBottom
  if within Kind.cBool.mask then bool
  else if within Kinds.signed then signed
  else if within Kinds.unsigned then unsigned
  else if within Kind.cDouble.mask then double
  else object

def isPrimitive (k : ValueKind) : Bool := k != object

end ValueKind

structure LiveReg where
  reg : Reg
  refKind : RefKind
  valueKind : ValueKind := .object
deriving DecidableEq, Repr

namespace LiveReg

def text (l : LiveReg) : String := s!"{l.refKind.letter}:{l.valueKind}:{l.reg}"

instance : ToString LiveReg := ⟨text⟩

/-- A register of the given type. Primitive values are not counted. -/
def ofTy (reg : Reg) (refKind : RefKind) (ty : Ty) : LiveReg :=
  let valueKind := ValueKind.ofTy ty
  { reg, valueKind, refKind := if valueKind.isPrimitive then .uncounted else refKind }

/-- Adds a register to a list, or updates its entry in place. -/
def insert (state : LiveReg) : List LiveReg → List LiveReg
  | [] => [state]
  | l :: rest => if l.reg = state.reg then state :: rest else l :: insert state rest

end LiveReg

end Bailout
