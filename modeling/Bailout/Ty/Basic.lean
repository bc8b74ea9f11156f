import Bailout.Ident
import Bailout.Ty.Kind
import Bailout.Decimal

/-!
# Types

A type is a set of kinds and one narrowing of it: to a class, to one object, to one primitive value.
`Ty.le` is inclusion of the values described, `Ty.join` and `Ty.meet` are its bounds. The type without
kinds is the bottom and has no narrowing.
-/

namespace Bailout

/-- Narrows a set of kinds. -/
inductive Spec where
  | none
  /-- Instances of the class or of a subclass. -/
  | inClass (c : ClassId)
  | exactClass (c : ClassId)
  /-- The object itself, compared by identity. -/
  | object (h : Handle)
  | int (value : Int)
  /-- A double, compared by its bits. -/
  | double (bits : UInt64)
deriving DecidableEq, Repr

namespace Spec

def le : Spec → Spec → Bool
  | _, .none => true
  | .none, _ => false
  | .exactClass a, .inClass b => a == b
  | a, b => a == b

def join (a b : Spec) : Spec :=
  if a = b then a
  else
    match a, b with
    | .exactClass c, .inClass d | .inClass c, .exactClass d => if c = d then .inClass c else .none
    | _, _ => .none

end Spec

structure Ty where
  bits : Kinds
  spec : Spec := .none
deriving DecidableEq, Repr

namespace Ty

/-- A set of kinds, not narrowed. -/
def ofKinds (bits : Kinds) : Ty := ⟨bits, .none⟩

def bottom : Ty := ofKinds 0#64

def top : Ty := ofKinds Kinds.top

/-- A narrowed set of kinds. The empty set takes no narrowing. -/
def narrowed (bits : Kinds) (spec : Spec) : Ty := if bits = 0#64 then bottom else ⟨bits, spec⟩

def ofBool (value : Bool) : Ty := narrowed Kind.cBool.mask (.int (if value then 1 else 0))

def ofDouble (bits : UInt64) : Ty := narrowed Kind.cDouble.mask (.double bits)

/-- Instances of a user class; an exact one excludes subclasses. -/
def ofClass (c : ClassId) (exact : Bool) : Ty :=
  narrowed Kind.objectUser.mask (if exact then .exactClass c else .inClass c)

/-- The kinds alone. -/
def unspecialized (t : Ty) : Ty := ofKinds t.bits

def isBottom (t : Ty) : Bool := t.bits == 0#64

def le (a b : Ty) : Bool := a.isBottom || (a.bits.subset b.bits && a.spec.le b.spec)

/-- The least type above both. -/
def join (a b : Ty) : Ty :=
  if a.isBottom then b
  else if b.isBottom then a
  else narrowed (a.bits ||| b.bits) (a.spec.join b.spec)

/-- The greatest type below both. -/
def meet (a b : Ty) : Ty :=
  if a.spec.le b.spec then narrowed (a.bits &&& b.bits) a.spec
  else if b.spec.le a.spec then narrowed (a.bits &&& b.bits) b.spec
  else bottom

/-- The two types in order, if they are comparable. -/
def compare? (a b : Ty) : Option Ordering :=
  match a.le b, b.le a with
  | true, true => some .eq
  | true, false => some .lt
  | false, true => some .gt
  | false, false => none

/-- Some value may be described by both. -/
def couldBe (a b : Ty) : Bool := !(a.meet b).isBottom

/-- Exactly one value is described. -/
def isSingleValue (t : Ty) : Bool :=
  match t.spec with
  | .object _ => true
  | .int _ | .double _ => t.bits.isSingle
  | _ => t.bits == Kind.noneType.mask || t.bits == Kind.nullptr.mask

/-- Only unboxed machine values are described. -/
def isPrimitive (t : Ty) : Bool := !t.isBottom && t.bits.subset Kinds.primitive

/-- Only object references are described. -/
def isObject (t : Ty) : Bool := !t.isBottom && t.bits.subset Kinds.object

/-- The class of the values is known exactly. -/
def isExact (t : Ty) : Bool :=
  match t.spec with
  | .exactClass _ | .object _ => true
  | .inClass _ => false
  | _ => t.bits.isSingle && t.bits &&& Kinds.object != 0#64 && t.bits &&& Kinds.user == 0#64

def intSpec? (t : Ty) : Option Int :=
  match t.spec with
  | .int v => some v
  | _ => none

def doubleSpec? (t : Ty) : Option UInt64 :=
  match t.spec with
  | .double bits => some bits
  | _ => none

def objectSpec? (t : Ty) : Option Handle :=
  match t.spec with
  | .object h => some h
  | _ => none

/-- The width in bits of a single sized integer kind. -/
def intWidth? (t : Ty) : Option Nat :=
  if t.bits = Kind.cInt8.mask ∨ t.bits = Kind.cUInt8.mask then some 8
  else if t.bits = Kind.cInt16.mask ∨ t.bits = Kind.cUInt16.mask then some 16
  else if t.bits = Kind.cInt32.mask ∨ t.bits = Kind.cUInt32.mask then some 32
  else if t.bits = Kind.cInt64.mask ∨ t.bits = Kind.cUInt64.mask then some 64
  else none

/-- A single primitive integer or boolean kind, not narrowed: what an integer value can narrow. -/
def isIntegerKind (t : Ty) : Bool :=
  t.spec == .none && t.bits.isSingle &&
    t.bits &&& (Kinds.signed ||| Kinds.unsigned ||| Kind.cBool.mask) != 0#64

/-- The kinds, then the narrowing in brackets. -/
def text (t : Ty) : String :=
  let inner : Option String :=
    match t.spec with
    | .none => .none
    | .inClass c => some (toString c)
    | .exactClass c => some (toString c ++ ":Exact")
    | .object h => some (toString h)
    | .int v =>
      if t.bits = Kind.cBool.mask then some (if v = 0 then "false" else "true") else some (Int.repr v)
    | .double bits => some (Decimal.text bits)
  match inner with
  | .none => t.bits.text
  | some s => t.bits.text ++ "[" ++ s ++ "]"

instance : ToString Ty := ⟨text⟩

end Ty

end Bailout
