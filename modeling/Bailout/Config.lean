import Bailout.Layout
import Bailout.Toml.Reader

/-!
# Configuration

Settings of compilation, of leaving compiled code, and of the log; how they are read from a text, and how
the text is found.
-/

namespace Bailout

structure DeoptSettings where
  /-- Report every exit from compiled code. -/
  logDeopts : Bool := false
  /-- Count exits by reason. -/
  collectStats : Bool := true
deriving DecidableEq, Repr

structure LogSettings where
  /-- Filter directives. -/
  filter : String := "warn"
deriving DecidableEq, Repr

structure Config where
  compile : Settings := {}
  deopt : DeoptSettings := {}
  log : LogSettings := {}
deriving DecidableEq, Repr

/-! ## Reading

The `jit` table of a configuration text. Missing settings keep their defaults, unknown ones are ignored,
and a known one with a value of the wrong type makes the whole text unusable.
-/

namespace Toml

/-- The members of a record, by name; an array gives them in order, and a date stands for none. -/
def record? (names : List String) : Toml → Option Entries
  | .table _ es => some es
  | .array items => some (names.zip items)
  | .tables items => some (names.zip (items.map (.table .header)))
  | .datetime _ => some []
  | _ => none

def bool? : Toml → Option Bool
  | .bool b => some b
  | _ => none

/-- A non-negative integer. -/
def nat? : Toml → Option Nat
  | .int v => if 0 ≤ v then some v.toNat else none
  | _ => none

def str? : Toml → Option String
  | .str s => some s
  | _ => none

/-- Reads one member, or takes the default. -/
def Entries.read {α : Type} (es : Entries) (name : String) (default : α) (f : Toml → Option α) :
    Option α :=
  match es.get? name with
  | some v => f v
  | none => some default

end Toml

def Settings.ofToml? (v : Toml) : Option Settings := do
  let es ← v.record? ["register_budget", "validate_ir", "workers", "stack_slot_size"]
  let d : Settings := {}
  return {
    registerBudget := ← es.read "register_budget" d.registerBudget Toml.nat?
    validate := ← es.read "validate_ir" d.validate Toml.bool?
    workers := ← es.read "workers" d.workers Toml.nat?
    slotSize := ← es.read "stack_slot_size" d.slotSize Toml.nat? }

def DeoptSettings.ofToml? (v : Toml) : Option DeoptSettings := do
  let es ← v.record? ["log_deopts", "collect_stats"]
  let d : DeoptSettings := {}
  return {
    logDeopts := ← es.read "log_deopts" d.logDeopts Toml.bool?
    collectStats := ← es.read "collect_stats" d.collectStats Toml.bool? }

def LogSettings.ofToml? (v : Toml) : Option LogSettings := do
  let es ← v.record? ["filter"]
  let d : LogSettings := {}
  return { filter := ← es.read "filter" d.filter Toml.str? }

namespace Config

def ofToml? (v : Toml) : Option Config := do
  let es ← v.record? ["compile", "deopt", "log"]
  return {
    compile := ← es.read "compile" {} Settings.ofToml?
    deopt := ← es.read "deopt" {} DeoptSettings.ofToml?
    log := ← es.read "log" {} LogSettings.ofToml? }

/-- The configuration a text denotes. -/
def parse? (text : String) : Option Config := do
  let es ← Toml.parse? text
  es.read "jit" {} ofToml?

end Config

/-! ## Paths

A path below the root of a file tree, as it is written: the names between the slashes. Empty names and
single dots lead nowhere, two dots lead up. `Path.resolve?` follows the names; `Path.ancestors` and
`Path.text` keep to what is written.
-/

abbrev Path := List String

namespace Path

def parse (s : String) : Path := s.splitOn "/"

/-- The name leads somewhere. -/
def isStep (name : String) : Bool := name != "" && name != "."

/-- What is written, from the first name that leads somewhere. -/
def text (p : Path) : String := String.intercalate "/" (p.dropWhile fun name => !isStep name)

/-- Follows one name from a place, which is given by the names that lead to it from the root. -/
def follow (place : List String) (name : String) : Option (List String) :=
  if !isStep name then some place
  else if name != ".." then some (place ++ [name])
  else if place.isEmpty then none
  else some place.dropLast

/-- The place that a path leads to, unless it leaves the root. -/
def resolve? (p : Path) : Option (List String) := p.foldlM follow []

/-- Without the names at the end that lead nowhere. -/
def trimEnd (p : Path) : Path := (p.reverse.dropWhile fun name => !isStep name).reverse

/-- A path and what is left of it when names are taken off its end, the longest first. -/
def ancestors (p : Path) : List Path :=
  let shorter : List Path := (List.range p.trimEnd.length).map p.take
  p :: (shorter.filter fun q => q.trimEnd == q).reverse

/-- The path of a name in a directory. A slash at the end is not doubled. -/
def child (dir : Path) (name : String) : Path :=
  if dir.getLast? = some "" then dir.dropLast ++ [name] else dir ++ [name]

end Path

/-! ## Finding

The configuration file of a directory is the one in it or in the nearest directory above it that has
one.
-/

/-- What is written below the root, in order: a file with its text, or a directory. -/
structure FileTree where
  entries : List (Path × Option String)

/-- Why a file gave no configuration. -/
inductive ConfigError where
  | io
  | parse
deriving DecidableEq, Repr

namespace FileTree

/-- The text of the file that a path leads to; what is written last counts. -/
def read? (t : FileTree) (p : Path) : Option String := do
  let place ← p.resolve?
  let entry ← t.entries.reverse.find? fun e => e.1.resolve? == some place
  entry.2

end FileTree

namespace Config

def fileName : String := "lumen.toml"

/-- The nearest configuration file. The directories above are those that the path is written with. -/
def find? (t : FileTree) (dir : Path) : Option Path :=
  (dir.ancestors.map (·.child fileName)).find? fun p => (t.read? p).isSome

def loadFrom (t : FileTree) (p : Path) : Except ConfigError Config :=
  match t.read? p with
  | none => .error .io
  | some text =>
    match parse? text with
    | none => .error .parse
    | some c => .ok c

/-- The configuration of a directory with the file it came from, if that can be loaded. The search starts
from the place that the path leads to. -/
def loadWithPath? (t : FileTree) (dir : Path) : Option (Config × Path) := do
  let place ← dir.resolve?
  let p ← find? t place
  match loadFrom t p with
  | .ok c => return (c, p)
  | .error _ => none

/-- The configuration of a directory; the defaults if there is none. -/
def load (t : FileTree) (dir : Path) : Config := ((loadWithPath? t dir).map (·.1)).getD {}

end Config

end Bailout
