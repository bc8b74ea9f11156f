import Bailout.Fault

/-!
# Code units

The shape of the interpreter frame of one bytecode unit, its line table, and the offsets of its
instructions.
-/

namespace Bailout

/-! ## Bytecode offsets

Instructions are two bytes each. The offset before the first instruction stands for "nothing has run".
-/

namespace Offset

/-- Bytes in one bytecode instruction. -/
def unitSize : Int := 2

def start : Offset := ⟨-unitSize⟩

/-- The offset of the instruction with this index. -/
def ofIndex (index : Int) : Except Fault Offset := Checked.offset .multiply (index * unitSize)

/-- The index of the instruction, rounded toward zero. -/
def toIndex (o : Offset) : Int := o.value.tdiv unitSize

def next (o : Offset) : Except Fault Offset := Checked.offset .add (o.value + unitSize)

def prev (o : Offset) : Except Fault Offset := Checked.offset .subtract (o.value - unitSize)

end Offset

/-- Where the interpreter resumes in a frame whose causing instruction is at `cause`. In the innermost
frame a failed guard or an exception runs the instruction again; callers have made their call and go on
after it. Forced exits and delegating yields run again at every depth, other yields go on. -/
def Reason.resumeOffset (r : Reason) (innermost : Bool) (cause : Offset) : Except Fault Offset :=
  match r with
  | .forced | .yieldFrom => .ok cause
  | .generatorYield => cause.next
  | _ => if innermost then .ok cause else cause.next

/-! ## Units -/

inductive CodeKind where
  | function
  | generator
  | coroutine
deriving DecidableEq, Repr

namespace CodeKind

def all : List CodeKind := [function, generator, coroutine]

def name : CodeKind → String
  | function => "Function"
  | generator => "Generator"
  | coroutine => "Coroutine"

def ofName? (s : String) : Option CodeKind := all.find? (fun k => k.name == s)

end CodeKind

/-- Instructions from `start` on belong to `line`, up to the next entry. -/
structure LineEntry where
  start : Offset
  line : Nat
deriving DecidableEq, Repr

structure CodeUnit where
  id : CodeId
  name : String
  qualname : String := name
  kind : CodeKind := .function
  args : Nat := 0
  locals : List String := []
  cells : List String := []
  freevars : List String := []
  /-- Greatest depth of the operand stack. -/
  stackSize : Nat := 0
  /-- Bytes of bytecode. -/
  length : Nat := 0
  lines : List LineEntry := []
deriving DecidableEq, Repr

namespace CodeUnit

/-- Slots of cell and free variables, which follow the plain locals. -/
def cellSlots (c : CodeUnit) : Nat := c.cells.length + c.freevars.length

/-- All slots: locals, then cells, then free variables. -/
def slots (c : CodeUnit) : Nat := c.locals.length + c.cellSlots

/-- The unit suspends. -/
def isGeneratorLike (c : CodeUnit) : Bool := c.kind == .generator || c.kind == .coroutine

/-- The offset addresses an instruction of the unit. -/
def contains (c : CodeUnit) (o : Offset) : Bool := 0 ≤ o.value && o.value < c.length

/-- The line of the instruction at an offset: the last entry of the leading run of entries that start
at or before it. -/
def line? (c : CodeUnit) (o : Offset) : Option Nat :=
  if c.contains o then
    ((c.lines.takeWhile fun e => e.start.value ≤ o.value).getLast?).map (·.line)
  else none

end CodeUnit

end Bailout
