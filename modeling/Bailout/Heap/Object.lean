import Bailout.Ident

/-!
# Objects

The payloads of heap objects and the references each payload holds a share of.
-/

namespace Bailout

/-- Lifecycle of a generator object. -/
inductive GenStatus where
  | justStarted
  | running
  | suspended
  | completed
deriving DecidableEq, Repr

namespace GenStatus

def all : List GenStatus := [justStarted, running, suspended, completed]

def name : GenStatus → String
  | justStarted => "JustStarted"
  | running => "Running"
  | suspended => "Suspended"
  | completed => "Completed"

def ofName? (s : String) : Option GenStatus := all.find? (fun g => g.name == s)

instance : ToString GenStatus := ⟨name⟩

end GenStatus

inductive Object where
  | none
  | bool (value : Bool)
  | int (value : Int)
  /-- An integer above the signed 64-bit range. -/
  | uint (value : Nat)
  /-- A double, given by its bits. -/
  | float (bits : UInt64)
  | str (value : String)
  | tuple (items : List Handle)
  | list (items : List Handle)
  | function (name : String) (code : Option CodeId)
  | boundMethod (func receiver : Handle)
  /-- A closure cell; without contents while unbound. -/
  | cell (contents : Option Handle)
  | generator (code : CodeId) (status : GenStatus)
  /-- An instance of a user class with fixed field slots. -/
  | inst (cls : ClassId) (fields : List (Option Handle))
deriving DecidableEq, Repr

/-- The kind of an object, without its payload. -/
inductive ObjectKind where
  | none
  | bool
  | int
  | float
  | str
  | tuple
  | list
  | function
  | boundMethod
  | cell
  | generator
  | inst
deriving DecidableEq, Repr

def ObjectKind.name : ObjectKind → String
  | .none => "None"
  | .bool => "Bool"
  | .int => "Int"
  | .float => "Float"
  | .str => "Str"
  | .tuple => "Tuple"
  | .list => "List"
  | .function => "Function"
  | .boundMethod => "BoundMethod"
  | .cell => "Cell"
  | .generator => "Generator"
  | .inst => "Instance"

instance : ToString ObjectKind := ⟨ObjectKind.name⟩

namespace Object

def kind : Object → ObjectKind
  | .none => .none
  | .bool _ => .bool
  | .int _ | .uint _ => .int
  | .float _ => .float
  | .str _ => .str
  | .tuple _ => .tuple
  | .list _ => .list
  | .function _ _ => .function
  | .boundMethod _ _ => .boundMethod
  | .cell _ => .cell
  | .generator _ _ => .generator
  | .inst _ _ => .inst

/-- The references the object holds a share of, one entry per share. -/
def children : Object → List Handle
  | .tuple items | .list items => items
  | .boundMethod func receiver => [func, receiver]
  | .cell contents => contents.toList
  | .inst _ fields => fields.filterMap id
  | _ => []

/-- A function that is not bound to a receiver. -/
def isPlainFunction : Object → Bool
  | .function _ _ => true
  | _ => false

end Object

end Bailout
