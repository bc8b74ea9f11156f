/-!
# Value kinds

The basic kinds of values a register can hold: boxed objects of one built-in class, exact or of a
subclass, and unboxed machine values. A set of kinds is a bit mask with one bit per kind, in the order
of declaration. Masks are 64 bits wide; bits above the kinds mean nothing but are kept.
-/

namespace Bailout

inductive Kind where
  | noneType
  | bool
  | longExact
  | longUser
  | floatExact
  | floatUser
  | strExact
  | strUser
  | tupleExact
  | tupleUser
  | listExact
  | listUser
  | dictExact
  | dictUser
  | func
  | code
  | gen
  | cell
  | typeExact
  | typeUser
  | objectExact
  | objectUser
  | cBool
  | cInt8
  | cInt16
  | cInt32
  | cInt64
  | cUInt8
  | cUInt16
  | cUInt32
  | cUInt64
  | cDouble
  | cPtr
  | nullptr
deriving DecidableEq, Repr

/-- A set of kinds. -/
abbrev Kinds := BitVec 64

namespace Kind

/-- Every kind, in bit order. -/
def all : List Kind :=
  [noneType, bool, longExact, longUser, floatExact, floatUser, strExact, strUser, tupleExact, tupleUser,
    listExact, listUser, dictExact, dictUser, func, code, gen, cell, typeExact, typeUser, objectExact,
    objectUser, cBool, cInt8, cInt16, cInt32, cInt64, cUInt8, cUInt16, cUInt32, cUInt64, cDouble, cPtr,
    nullptr]

def name : Kind → String
  | noneType => "NoneType"
  | bool => "Bool"
  | longExact => "LongExact"
  | longUser => "LongUser"
  | floatExact => "FloatExact"
  | floatUser => "FloatUser"
  | strExact => "StrExact"
  | strUser => "StrUser"
  | tupleExact => "TupleExact"
  | tupleUser => "TupleUser"
  | listExact => "ListExact"
  | listUser => "ListUser"
  | dictExact => "DictExact"
  | dictUser => "DictUser"
  | func => "Func"
  | code => "Code"
  | gen => "Gen"
  | cell => "Cell"
  | typeExact => "TypeExact"
  | typeUser => "TypeUser"
  | objectExact => "ObjectExact"
  | objectUser => "ObjectUser"
  | cBool => "CBool"
  | cInt8 => "CInt8"
  | cInt16 => "CInt16"
  | cInt32 => "CInt32"
  | cInt64 => "CInt64"
  | cUInt8 => "CUInt8"
  | cUInt16 => "CUInt16"
  | cUInt32 => "CUInt32"
  | cUInt64 => "CUInt64"
  | cDouble => "CDouble"
  | cPtr => "CPtr"
  | nullptr => "Nullptr"

/-- The mask of one kind. -/
def mask (k : Kind) : Kinds := BitVec.twoPow 64 k.ctorIdx

/-- The mask of several kinds. -/
def masks (ks : List Kind) : Kinds := ks.foldl (fun acc k => acc ||| k.mask) 0#64

end Kind

namespace Kinds

open Kind

/-- Every mask bit of `a` is one of `b`. -/
def subset (a b : Kinds) : Bool := a &&& ~~~b == 0#64

/-- The mask has exactly one bit. -/
def isSingle (a : Kinds) : Bool := (List.range 64).countP (fun i => a.getLsbD i) == 1

/-- Every boxed kind. -/
def object : Kinds := Kind.masks (Kind.all.take 22)

def signed : Kinds := Kind.masks [cInt8, cInt16, cInt32, cInt64]

def unsigned : Kinds := Kind.masks [cUInt8, cUInt16, cUInt32, cUInt64]

/-- Every unboxed kind. -/
def primitive : Kinds :=
  cBool.mask ||| signed ||| unsigned ||| cDouble.mask ||| cPtr.mask ||| nullptr.mask

def top : Kinds := object ||| primitive

/-- Instances of subclasses of a built-in class. -/
def user : Kinds :=
  Kind.masks [longUser, floatUser, strUser, tupleUser, listUser, dictUser, typeUser, objectUser]

def long : Kinds := Kind.masks [bool, longExact, longUser]
def float : Kinds := Kind.masks [floatExact, floatUser]
def str : Kinds := Kind.masks [strExact, strUser]
def tuple : Kinds := Kind.masks [tupleExact, tupleUser]
def list : Kinds := Kind.masks [listExact, listUser]
def dict : Kinds := Kind.masks [dictExact, dictUser]
def type : Kinds := Kind.masks [typeExact, typeUser]
def optObject : Kinds := object ||| nullptr.mask
def cInt : Kinds := signed ||| unsigned

/-- The unions that have a name of their own. -/
def named : List (String × Kinds) :=
  [("Top", top), ("Object", object), ("OptObject", optObject), ("Long", long), ("Float", float),
    ("Str", str), ("Tuple", tuple), ("List", list), ("Dict", dict), ("Type", type),
    ("Primitive", primitive), ("CInt", cInt), ("CSigned", signed), ("CUnsigned", unsigned)]

/-- The name of one kind or of a named union, else the names of the kinds between braces. -/
def text (a : Kinds) : String :=
  if a = 0#64 then "Bottom"
  else
    match Kind.all.find? (fun k => k.mask == a) with
    | some k => k.name
    | none =>
      match named.find? (fun u => u.2 == a) with
      | some u => u.1
      | none =>
        let members := Kind.all.filter (fun k => a &&& k.mask != 0#64)
        "\x7b" ++ String.intercalate "|" (members.map name) ++ "\x7d"

/-! ## Sets that are referred to by name -/

def names : List (String × Kinds) :=
  [("BOTTOM", 0), ("TOP", top), ("NONE_TYPE", Kind.noneType.mask), ("BOOL", Kind.bool.mask),
    ("LONG_EXACT", Kind.longExact.mask), ("LONG_USER", Kind.longUser.mask), ("LONG", long),
    ("FLOAT_EXACT", Kind.floatExact.mask), ("FLOAT", float), ("STR_EXACT", Kind.strExact.mask),
    ("STR", str), ("TUPLE_EXACT", Kind.tupleExact.mask), ("TUPLE", tuple),
    ("LIST_EXACT", Kind.listExact.mask), ("LIST", list), ("DICT_EXACT", Kind.dictExact.mask),
    ("DICT", dict), ("FUNC", Kind.func.mask), ("CODE", Kind.code.mask), ("GEN", Kind.gen.mask),
    ("CELL", Kind.cell.mask), ("TYPE", type), ("OBJECT_EXACT", Kind.objectExact.mask),
    ("OBJECT_USER", Kind.objectUser.mask), ("OBJECT", object), ("OPT_OBJECT", optObject),
    ("CBOOL", Kind.cBool.mask), ("CINT8", Kind.cInt8.mask), ("CINT16", Kind.cInt16.mask),
    ("CINT32", Kind.cInt32.mask), ("CINT64", Kind.cInt64.mask), ("CUINT8", Kind.cUInt8.mask),
    ("CUINT16", Kind.cUInt16.mask), ("CUINT32", Kind.cUInt32.mask), ("CUINT64", Kind.cUInt64.mask),
    ("CSIGNED", signed), ("CUNSIGNED", unsigned), ("CINT", cInt), ("CDOUBLE", Kind.cDouble.mask),
    ("CPTR", Kind.cPtr.mask), ("NULLPTR", Kind.nullptr.mask), ("PRIMITIVE", primitive)]

def ofName? (s : String) : Option Kinds := names.lookup s

end Kinds

end Bailout
