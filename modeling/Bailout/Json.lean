import Bailout.Code

/-!
# JSON

Values of the interchange format, and code units in it. Numbers are integers, or a mark for any other
number: nothing here reads a fraction.
-/

namespace Bailout

inductive Json where
  | null
  | bool (value : Bool)
  | int (value : Int)
  | fraction
  | str (value : String)
  | arr (items : List Json)
  | obj (fields : List (String × Json))

namespace Json

def field? (fields : List (String × Json)) (name : String) : Option Json :=
  (fields.find? fun f => f.1 == name).map (·.2)

/-- An integer from `low` to `high`. -/
def int? (low high : Int) : Json → Option Int
  | .int v => if low ≤ v ∧ v ≤ high then some v else none
  | _ => none

def nat? (high : Nat) (j : Json) : Option Nat := (j.int? 0 high).map Int.toNat

def str? : Json → Option String
  | .str s => some s
  | _ => none

def list? {α : Type} (item : Json → Option α) : Json → Option (List α)
  | .arr items => items.mapM item
  | _ => none

end Json

/-! ## Code units

A code unit is an object with one member per field, or an array of the fields in order. Unknown members
are ignored; only the line table may be missing.
-/

/-- Members by name, or by position when the record is written as an array. -/
def Json.members? (names : List String) : Json → Option (List (String × Json))
  | .obj fields => some fields
  | .arr items => if items.length ≤ names.length then some (names.zip items) else none
  | _ => none

def CodeKind.ofJson? : Json → Option CodeKind
  | .str s => ofName? s
  | .obj [(s, .null)] => ofName? s
  | _ => none

def LineEntry.ofJson? (j : Json) : Option LineEntry := do
  let fields ← j.members? ["start", "line"]
  let start ← (← Json.field? fields "start").int? (-0x80000000) 0x7fffffff
  let line ← (← Json.field? fields "line").nat? 0xffffffff
  return ⟨⟨start⟩, line⟩

def LineEntry.toJson (e : LineEntry) : Json :=
  .obj [("start", .int e.start.value), ("line", .int e.line)]

namespace CodeUnit

/-- The members of a code unit, in order. -/
def memberNames : List String :=
  ["id", "name", "qualname", "kind", "num_args", "varnames", "cellvars", "freevars", "stack_size",
    "code_len", "line_table"]

def ofJson? (j : Json) : Option CodeUnit := do
  let fields ← j.members? memberNames
  let names (member : String) : Option (List String) := do
    (← Json.field? fields member).list? Json.str?
  let size (member : String) : Option Nat := do
    (← Json.field? fields member).nat? 0xffffffffffffffff
  let id ← (← Json.field? fields "id").nat? 0xffffffff
  let name ← (← Json.field? fields "name").str?
  let qualname ← (← Json.field? fields "qualname").str?
  let kind ← CodeKind.ofJson? (← Json.field? fields "kind")
  let lines ←
    match Json.field? fields "line_table" with
    | some table => table.list? LineEntry.ofJson?
    | none => some []
  return {
    id := ⟨id⟩, name, qualname, kind, lines
    args := ← size "num_args"
    locals := ← names "varnames"
    cells := ← names "cellvars"
    freevars := ← names "freevars"
    stackSize := ← size "stack_size"
    length := ← size "code_len" }

def toJson (c : CodeUnit) : Json :=
  let names (xs : List String) : Json := .arr (xs.map .str)
  .obj [("id", .int c.id.val), ("name", .str c.name), ("qualname", .str c.qualname),
    ("kind", .str c.kind.name), ("num_args", .int c.args), ("varnames", names c.locals),
    ("cellvars", names c.cells), ("freevars", names c.freevars), ("stack_size", .int c.stackSize),
    ("code_len", .int c.length), ("line_table", .arr (c.lines.map LineEntry.toJson))]

end CodeUnit

end Bailout
