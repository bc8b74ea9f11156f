import Bailout.Fault
import Bailout.FrameState
import Bailout.Heap.Basic

/-!
# Interpreter frames

The interpreter's view of one activation, the chain of them, and the machine state that compiled code
leaves behind. Every filled slot holds one share of its object.
-/

namespace Bailout

inductive FrameStatus where
  | created
  | executing
  | suspended
  | completed
deriving DecidableEq, Repr

def FrameStatus.name : FrameStatus → String
  | .created => "Created"
  | .executing => "Executing"
  | .suspended => "Suspended"
  | .completed => "Completed"

instance : ToString FrameStatus := ⟨FrameStatus.name⟩

structure Frame where
  code : CodeUnit
  /-- Locals, then cells, then free variables. -/
  slots : List (Option Handle) := List.replicate code.slots none
  /-- Operand stack, bottom first. -/
  stack : List (Option Handle) := []
  handlers : List Handler := []
  /-- Offset of the next instruction to execute. -/
  next : Offset := ⟨0⟩
  /-- Source line of that instruction, if known. -/
  line : Option Nat := none
  status : FrameStatus := .created
  /-- The generator that owns the frame. -/
  gen : Option Handle := none
  /-- The frame has been rebuilt from a record. -/
  materialized : Bool := false
deriving DecidableEq, Repr

namespace Frame

/-- Offset of the last instruction considered executed. -/
def lastInstr (f : Frame) : Except Fault Offset := f.next.prev

/-- Stores a reference in a slot. Shares are not touched. -/
def setSlot (f : Frame) (i : Nat) (h : Option Handle) : Except Fault Frame :=
  if i < f.slots.length then .ok { f with slots := f.slots.set i h }
  else .error (.index f.slots.length i)

/-- Pushes a reference on the operand stack. Shares are not touched. -/
def push (f : Frame) (h : Option Handle) : Frame := { f with stack := f.stack ++ [h] }

/-- Releases every reference the frame holds, slots first, and empties it. -/
def clear (f : Frame) (heap : Heap) : Except Fault (Frame × Heap) := do
  let heap ← (f.slots ++ f.stack).foldlM Heap.xdecref heap
  return ({
    f with
    slots := f.slots.map fun _ => none
    stack := []
    handlers := []
    status := .completed }, heap)

def text (f : Frame) : String :=
  let line := (f.line.map fun n => s!" line {n}").getD ""
  "<frame " ++ f.code.qualname ++ s!" @{f.next}" ++ line ++ s!" {f.status}>"

instance : ToString Frame := ⟨text⟩

end Frame

/-! ## The call chain

The interpreter's frames, oldest first. A frame that propagates an exception may sit on the chain
without being linked; callers are looked for among the linked frames only.
-/

structure ChainEntry where
  frame : Frame
  linked : Bool
  /-- The caller. -/
  back : Option FrameId
deriving DecidableEq, Repr

structure Chain where
  entries : List ChainEntry := []
deriving DecidableEq, Repr

namespace Chain

/-- The newest linked frame. -/
def nearestLinked? (c : Chain) : Option FrameId :=
  ((c.entries.zipIdx.filter fun (e, _) => e.linked).getLast?).map fun (_, i) => ⟨i⟩

/-- Pushes a frame under the given caller, which is not checked. -/
def pushWithBack (c : Chain) (frame : Frame) (linked : Bool) (back : Option FrameId) :
    FrameId × Chain :=
  (⟨c.entries.length⟩, ⟨c.entries ++ [⟨frame, linked, back⟩]⟩)

/-- Pushes a frame whose caller is the nearest linked one. -/
def push (c : Chain) (frame : Frame) (linked : Bool) : FrameId × Chain :=
  c.pushWithBack frame linked c.nearestLinked?

/-- Pushes linked frames one above the other, the first one called by `back`. -/
def pushAll (c : Chain) (back : Option FrameId) : List Frame → List FrameId × Chain
  | [] => ([], c)
  | f :: rest =>
    let (id, c) := c.pushWithBack f true back
    let (ids, c) := c.pushAll (some id) rest
    (id :: ids, c)

/-- Removes the newest frame. -/
def pop (c : Chain) : Option Frame × Chain :=
  (c.entries.getLast?.map (·.frame), ⟨c.entries.dropLast⟩)

def top? (c : Chain) : Option FrameId :=
  if c.entries.isEmpty then none else some ⟨c.entries.length - 1⟩

def entry (c : Chain) (id : FrameId) : Except Fault ChainEntry :=
  match c.entries[id.index]? with
  | some e => .ok e
  | none => .error (.index c.entries.length id.index)

/-- Releases what one frame of the chain holds. -/
def clear (c : Chain) (id : FrameId) (heap : Heap) : Except Fault (Chain × Heap) := do
  let e ← c.entry id
  let (frame, heap) ← e.frame.clear heap
  return (⟨c.entries.set id.index { e with frame }⟩, heap)

end Chain

/-! ## Machine snapshots

The register file and the spill area as they were when compiled code was left.
-/

structure Snapshot where
  regs : List Word := []
  spill : List Word := []
deriving DecidableEq, Repr

namespace Snapshot

/-- A spill area alone, as a suspended generator saves it. -/
def ofSpill (spill : List Word) : Snapshot := { spill }

/-- The word index of a byte offset into the spill area. -/
def spillIndex (offset : Int) : Except Fault Nat :=
  if 0 ≤ offset ∧ offset.toNat % wordSize = 0 then .ok (offset.toNat / wordSize)
  else .error (.spillOffset offset)

/-- Writes a word, first extending the words with zeros as far as needed. -/
def write (words : List Word) (index : Nat) (word : Word) : List Word :=
  (words ++ List.replicate (index + 1 - words.length) 0).set index word

def set (s : Snapshot) (loc : Location) (word : Word) : Except Fault Snapshot :=
  match loc with
  | .reg n => .ok { s with regs := write s.regs n word }
  | .spill offset => do return { s with spill := write s.spill (← spillIndex offset) word }

/-- Writes several words, one after another. -/
def setAll (s : Snapshot) : List (Location × Word) → Except Fault Snapshot
  | [] => .ok s
  | (loc, word) :: rest => do (← s.set loc word).setAll rest

def read (s : Snapshot) (loc : Location) : Except Fault Word := do
  let word ←
    match loc with
    | .reg n => pure s.regs[n]?
    | .spill offset => do pure s.spill[← spillIndex offset]?
  match word with
  | some w => return w
  | none => throw (.outsideSnapshot loc)

end Snapshot

end Bailout
