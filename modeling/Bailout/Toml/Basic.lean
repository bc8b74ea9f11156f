/-!
# TOML tables

Values of the configuration language and the rules by which headers and dotted keys build up tables: a
key is given once, a table is opened once, and a table that came from dotted keys is extended by dotted
keys only.
-/

namespace Bailout

/-- How a table came to be. -/
inductive Toml.Origin where
  /-- Written between braces; closed once written. -/
  | inline
  /-- Opened by a header of its own. -/
  | header
  /-- Passed through by the header of another table. -/
  | passed
  /-- Passed through by a dotted key. -/
  | dotted
deriving DecidableEq, Repr

/-- Numbers with a fraction, dates and times are kept as written: nothing reads them. -/
inductive Toml where
  | str (value : String)
  | int (value : Int)
  | float (text : String)
  | bool (value : Bool)
  | datetime (text : String)
  | array (items : List Toml)
  | table (origin : Toml.Origin) (entries : List (String × Toml))
  /-- Tables opened one after another under the same double-bracket header. -/
  | tables (items : List (List (String × Toml)))

namespace Toml

/-- The members of a table. -/
abbrev Entries := List (String × Toml)

namespace Entries

def get? (es : Entries) (key : String) : Option Toml := (es.find? fun e => e.1 == key).map (·.2)

/-- Replaces the value of a key, or adds it. -/
def put (es : Entries) (key : String) (v : Toml) : Entries :=
  if es.any (fun e => e.1 == key) then es.map fun e => if e.1 == key then (key, v) else e
  else es ++ [(key, v)]

/-- Goes into the table under a key, adding one of the given origin if there is none. Under a
double-bracket header that is the table opened last. -/
def into (es : Entries) (key : String) (origin : Origin) (f : Entries → Option Entries) :
    Option Entries := do
  match es.get? key with
  | none => return es.put key (.table origin (← f []))
  | some (.table o inner) =>
    if o = .inline then none else return es.put key (.table o (← f inner))
  | some (.tables items) =>
    match items.getLast? with
    | some last => return es.put key (.tables (items.dropLast ++ [← f last]))
    | none => none
  | some _ => none

/-- Changes the table at a path that headers have opened. -/
def at_ (es : Entries) (path : List String) (f : Entries → Option Entries) : Option Entries :=
  match path with
  | [] => f es
  | key :: rest => es.into key .passed fun inner => at_ inner rest f

/-- Opens a table by its header: it must be new, or only passed through by other headers. -/
def openTable (es : Entries) (key : String) : Option Entries :=
  match es.get? key with
  | none => some (es.put key (.table .header []))
  | some (.table .passed inner) => some (es.put key (.table .header inner))
  | some _ => none

/-- Opens one more table under a double-bracket header. -/
def openElement (es : Entries) (key : String) : Option Entries :=
  match es.get? key with
  | none => some (es.put key (.tables [[]]))
  | some (.tables items) => some (es.put key (.tables (items ++ [[]])))
  | some _ => none

/-- Adds a key. `viaDots` says that a dotted key leads here, `dotted` that the table came from one; the
two must agree. -/
def addKey (es : Entries) (viaDots dotted : Bool) (key : String) (v : Toml) : Option Entries :=
  if viaDots != dotted then none
  else if (es.get? key).isSome then none
  else some (es ++ [(key, v)])

/-- Whether the table under a key may be extended by a dotted key, and whether it came from one. -/
def dottedInto? (es : Entries) (key : String) : Option Bool :=
  match es.get? key with
  | none | some (.table .dotted _) => some true
  | some (.table .passed _) | some (.tables _) => some false
  | some _ => none

/-- Adds a value under a dotted key. -/
def insert (es : Entries) (v : Toml) (viaDots dotted : Bool) : List String → Option Entries
  | [] => none
  | [key] => es.addKey viaDots dotted key v
  | key :: rest => do
    let dotted ← es.dottedInto? key
    es.into key .dotted fun inner => insert inner v true dotted rest

end Entries

end Toml

end Bailout
