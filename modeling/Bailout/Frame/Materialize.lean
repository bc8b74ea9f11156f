import Bailout.Frame.Basic
import Bailout.Record

/-!
# Rebuilding frames

From a record and a machine snapshot to interpreter frames. Every reference stored in a slot is a new
share taken here. The shares that compiled code held are released separately, once, by
`Record.releaseNative`. A frame that has been rebuilt is left alone when asked for again.
-/

namespace Bailout

/-- A live value as read from machine state. -/
inductive Decoded where
  | empty
  /-- A reference owned elsewhere. -/
  | peek (h : Handle)
  /-- A primitive boxed for this frame, whose first share is held until the frame is done. -/
  | boxed (h : Handle)
deriving DecidableEq, Repr

def Decoded.handle? : Decoded → Option Handle
  | .empty => none
  | .peek h | .boxed h => some h

/-- The heap while one frame is rebuilt, with the values decoded so far, by position. Each position is
decoded at most once. -/
structure Decoder where
  heap : Heap
  decoded : List (Option Decoded)
deriving DecidableEq, Repr

namespace Record

/-- Reads the word of a live value. -/
def readValue (r : Record) (snap : Snapshot) (v : LiveValue) : Except Fault Word :=
  match v.location with
  | some loc => snap.read loc
  | none => .error (.unlocated v.reg r.nonce)

/-- Interprets a word as the representation of a live value says. Primitives are boxed. -/
def decodeWord (r : Record) (heap : Heap) (v : LiveValue) (word : Word) :
    Except Fault (Decoded × Heap) :=
  let boxed (p : Handle × Heap) : Decoded × Heap := (.boxed p.1, p.2)
  match v.valueKind with
  | .object => do
    match ← Handle.ofWord word with
    | none => return (.empty, heap)
    | some h =>
      if heap.isLive h then return (.peek h, heap) else throw (.freedObject v.reg r.nonce h)
  | .signed => .ok (boxed (heap.boxSigned word.toInt64.toInt))
  | .unsigned => .ok (boxed (heap.boxUnsigned word.toNat))
  | .double => .ok (boxed (heap.boxDouble word))
  | .bool => do return boxed (← heap.boxBool (word != 0))

/-- Decodes the value at a position, or recalls it. -/
def decode (r : Record) (snap : Snapshot) (d : Decoder) (index : LiveIndex) :
    Except Fault (Decoded × Decoder) := do
  match ← r.liveValue index with
  | none => return (.empty, d)
  | some v =>
    match (d.decoded[index.toNat]?).join with
    | some known => return (known, d)
    | none =>
      let word ← r.readValue snap v
      let (value, heap) ← r.decodeWord d.heap v word
      return (value, { heap, decoded := d.decoded.set index.toNat (some value) })

/-- Decodes a position for a slot, which takes a share of its own. -/
def decodeSlot (r : Record) (snap : Snapshot) (d : Decoder) (index : LiveIndex) :
    Except Fault (Option Handle × Decoder) := do
  let (value, d) ← r.decode snap d index
  match value.handle? with
  | none => return (none, d)
  | some h => return (some h, { d with heap := ← d.heap.incref h })

/-- Fills slots one after another; the old contents of a slot are released once it is filled. -/
def fillSlots (r : Record) (snap : Snapshot) (d : Decoder) :
    List (LiveIndex × Option Handle) → Except Fault (List (Option Handle) × Decoder)
  | [] => .ok ([], d)
  | (index, old) :: rest => do
    let (value, d) ← r.decodeSlot snap d index
    let heap ← d.heap.xdecref old
    let (values, d) ← r.fillSlots snap { d with heap } rest
    return (value :: values, d)

/-- The slots of one stack entry, bottom first. -/
def fillEntry (r : Record) (snap : Snapshot) (d : Decoder) :
    StackEntry → Except Fault (List (Option Handle) × Decoder)
  | .value index => do
    let (value, d) ← r.decodeSlot snap d index
    return ([value], d)
  | .methodPair callable receiver => do
    if callable = LiveIndex.dead then return ([none, none], d)
    let (func, d) ← r.decode snap d callable
    match func.handle? with
    | none => throw (.noCallable r.nonce)
    | some h =>
      if ← d.heap.isPlainFunction h then
        let (function, d) ← r.decodeSlot snap d callable
        let (self, d) ← r.decodeSlot snap d receiver
        return ([function, self], d)
      else
        let (bound, d) ← r.decodeSlot snap d callable
        return ([none, bound], d)

/-- Fills the operand stack from the top down; entries are given top first. -/
def fillStack (r : Record) (snap : Snapshot) (d : Decoder) (stack : List (Option Handle)) :
    List StackEntry → Except Fault (List (Option Handle) × Decoder)
  | [] => .ok (stack, d)
  | e :: rest => do
    let (slots, d) ← r.fillEntry snap d e
    r.fillStack snap d (slots ++ stack) rest

/-- Gives back the first shares of the primitives boxed for a frame, by position. -/
def dropBoxes (d : Decoder) : Except Fault Heap :=
  d.decoded.foldlM (fun heap value =>
    match value with
    | some (.boxed h) => heap.decref h
    | _ => .ok heap) d.heap

/-- Rebuilds one frame in place. -/
def materializeFrame (r : Record) (snap : Snapshot) (heap : Heap) (fr : FrameRecord)
    (innermost : Bool) (target : Frame) : Except Fault (Frame × Heap) := do
  if target.code.id ≠ fr.code.id then throw (.targetCode r.nonce fr.code.id target.code.id)
  if target.slots.length ≠ fr.slots.length then
    throw (.targetSlots r.nonce fr.slots.length fr.code.qualname target.slots.length)
  let d : Decoder := { heap, decoded := List.replicate r.live.length none }
  let (slots, d) ← r.fillSlots snap d (fr.slots.zip target.slots)
  let (stack, d) ← r.fillStack snap d [] fr.stack.reverse
  let heap ← target.stack.foldlM Heap.xdecref d.heap
  let next ← r.reason.resumeOffset innermost fr.cause
  let heap ← dropBoxes { d with heap }
  return ({
    target with
    slots, stack, next
    handlers := fr.handlers
    line := fr.code.line? next
    status := .executing
    materialized := true }, heap)

/-- Rebuilds the frames that have not been, outermost first, and counts them. The last pair is the
innermost frame. -/
def materializeAll (r : Record) (snap : Snapshot) (heap : Heap) :
    List (FrameRecord × Frame) → Except Fault (List Frame × Heap × Nat)
  | [] => .ok ([], heap, 0)
  | (fr, target) :: rest => do
    if target.materialized then
      let (frames, heap, fresh) ← r.materializeAll snap heap rest
      return (target :: frames, heap, fresh)
    else
      let (frame, heap) ← r.materializeFrame snap heap fr rest.isEmpty target
      let (frames, heap, fresh) ← r.materializeAll snap heap rest
      return (frame :: frames, heap, fresh + 1)

/-- Rebuilds every frame of a record into the targets, outermost first. Returns the frames, the heap and
the number of frames that were not rebuilt before. -/
def materialize (r : Record) (snap : Snapshot) (heap : Heap) (targets : List Frame) :
    Except Fault (List Frame × Heap × Nat) := do
  if targets.length ≠ r.frames.length then
    throw (.targetCount r.nonce r.frames.length targets.length)
  r.materializeAll snap heap (r.frames.zip targets)

/-- Releases the share that compiled code held of one live value. -/
def releaseValue (r : Record) (snap : Snapshot) (heap : Heap) (v : LiveValue) :
    Except Fault Heap := do
  if v.refKind = .owned ∧ v.valueKind = .object then
    heap.xdecref (← Handle.ofWord (← r.readValue snap v))
  else return heap

/-- Releases the shares that compiled code held of its owned references. -/
def releaseNative (r : Record) (snap : Snapshot) (heap : Heap) : Except Fault Heap :=
  r.live.foldlM (r.releaseValue snap) heap

end Record

end Bailout
