import Bailout.Fault

/-!
# The object heap

Objects with share counts. Every reference held by a frame slot, a container or native code is one share
of its object. A cell is empty after its object is freed, and the cell freed last is the first to be
used again. Immortal objects are never freed, whatever their count.
-/

namespace Bailout

structure HeapCell where
  object : Object
  count : Nat
  immortal : Bool
deriving DecidableEq, Repr

structure Heap where
  cells : List (Option HeapCell)
  /-- Positions of the empty cells, the next one to use first. -/
  free : List Nat
  /-- Number of allocated objects. -/
  live : Nat
deriving DecidableEq, Repr

/-- The greatest share count; counts are 32-bit. -/
def HeapCell.maxCount : Nat := 0xffffffff

/-- Reads a word as native code stores references. Zero is no reference. -/
def Handle.ofWord (word : Word) : Except Fault (Option Handle) :=
  if word = 0 then .ok none
  else if word.toNat % 8 ≠ 0 then .error (.misalignedWord word)
  else if 0x100000000 ≤ word.toNat / 8 then .error (.wordRange word)
  else .ok (some ⟨word.toNat / 8 - 1⟩)

namespace Heap

def cell? (heap : Heap) (h : Handle) : Option HeapCell := (heap.cells[h.index]?).join

/-- The cell of a live object; a fault otherwise. -/
def cell (heap : Heap) (h : Handle) : Except Fault HeapCell :=
  match heap.cell? h with
  | some c => .ok c
  | none => .error (.dangling h)

def get? (heap : Heap) (h : Handle) : Option Object := (heap.cell? h).map (·.object)

def get (heap : Heap) (h : Handle) : Except Fault Object := (·.object) <$> heap.cell h

def isLive (heap : Heap) (h : Handle) : Bool := (heap.cell? h).isSome

def count? (heap : Heap) (h : Handle) : Option Nat := (heap.cell? h).map (·.count)

/-- Replaces the contents of a cell. -/
def put (heap : Heap) (h : Handle) (c : Option HeapCell) : Heap :=
  { heap with cells := heap.cells.set h.index c }

/-- Overwrites the payload of a live object. -/
def set (heap : Heap) (h : Handle) (object : Object) : Except Fault Heap := do
  let c ← heap.cell h
  return heap.put h (some { c with object })

def allocCell (heap : Heap) (c : HeapCell) : Handle × Heap :=
  match heap.free with
  | i :: free => (⟨i⟩, { cells := heap.cells.set i (some c), free, live := heap.live + 1 })
  | [] =>
    (⟨heap.cells.length⟩, { heap with cells := heap.cells ++ [some c], live := heap.live + 1 })

/-- Allocates an object with one share, owned by the caller. -/
def alloc (heap : Heap) (object : Object) : Handle × Heap := heap.allocCell ⟨object, 1, false⟩

/-- Allocates an object that is never freed. -/
def allocImmortal (heap : Heap) (object : Object) : Handle × Heap := heap.allocCell ⟨object, 1, true⟩

/-- The singletons come first in every heap. -/
def noneHandle : Handle := ⟨0⟩

def boolHandle (value : Bool) : Handle := if value then ⟨1⟩ else ⟨2⟩

/-- A heap that holds the immortal singletons only. -/
def initial : Heap :=
  let empty : Heap := ⟨[], [], 0⟩
  let heap := (empty.allocImmortal .none).2
  let heap := (heap.allocImmortal (.bool true)).2
  (heap.allocImmortal (.bool false)).2

/-- Takes one more share. -/
def incref (heap : Heap) (h : Handle) : Except Fault Heap := do
  let c ← heap.cell h
  if c.count < HeapCell.maxCount then return heap.put h (some { c with count := c.count + 1 })
  else throw (.countOverflow h)

/-! ## Boxing machine values -/

def boxSigned (heap : Heap) (value : Int) : Handle × Heap := heap.alloc (.int value)

/-- Boxes an unsigned word, keeping its full value. -/
def boxUnsigned (heap : Heap) (value : Nat) : Handle × Heap :=
  heap.alloc (if value < 0x8000000000000000 then .int value else .uint value)

def boxDouble (heap : Heap) (bits : UInt64) : Handle × Heap := heap.alloc (.float bits)

/-- A new share of a boolean singleton. -/
def boxBool (heap : Heap) (value : Bool) : Except Fault (Handle × Heap) := do
  let heap ← heap.incref (boolHandle value)
  return (boolHandle value, heap)

/-! ## Queries -/

def isPlainFunction (heap : Heap) (h : Handle) : Except Fault Bool :=
  (·.isPlainFunction) <$> heap.get h

/-- Sets the status of a generator object. -/
def setGenStatus (heap : Heap) (h : Handle) (status : GenStatus) : Except Fault Heap := do
  match ← heap.get h with
  | .generator code _ => heap.set h (.generator code status)
  | other => throw (.notGenerator h other.kind)

/-- Every live object with its handle, by handle. -/
def entries (heap : Heap) : List (Handle × HeapCell) :=
  heap.cells.zipIdx.filterMap fun (c, i) => c.map fun c => (⟨i⟩, c)

/-- A one-line summary: objects, cells, empty cells. -/
def summary (heap : Heap) : String :=
  s!"Heap \x7b live: {heap.live}, capacity: {heap.cells.length}, free: {heap.free.length} \x7d"

/-! ## Releasing shares

Giving back the last share of an object frees it, and gives back the shares of its children in turn. The
work list is a stack, so the last child is released first. Every step takes one share away from the
heap, which bounds the whole cascade whatever the object graph looks like.
-/

/-- The shares of all live objects together. -/
def totalCount (heap : Heap) : Nat :=
  (heap.cells.map fun c => (c.map (·.count)).getD 0).foldr (· + ·) 0

theorem foldr_add_set_lt {l : List Nat} {i n : Nat} (hi : i < l.length) (hn : n < l[i]) :
    (l.set i n).foldr (· + ·) 0 < l.foldr (· + ·) 0 := by
  have hsplit (m : Nat) : (l.set i m).foldr (· + ·) 0 =
      (l.take i).foldr (· + ·) 0 + (m + (l.drop (i + 1)).foldr (· + ·) 0) := by
    rw [List.set_eq_take_append_cons_drop, if_pos hi, List.foldr_append, List.foldr_cons,
      ← @List.foldr_assoc Nat (· + ·), Nat.zero_add]
  calc (l.set i n).foldr (· + ·) 0
      < (l.set i l[i]).foldr (· + ·) 0 := by
        rw [hsplit, hsplit]
        exact Nat.add_lt_add_left (Nat.add_lt_add_right hn _) _
    _ = l.foldr (· + ·) 0 := by rw [List.set_getElem_self]

/-- Lowering the count of a live object lowers the total. -/
theorem totalCount_put_lt {heap : Heap} {h : Handle} {c : HeapCell} {d : Option HeapCell}
    (hc : heap.cell? h = some c) (hd : (d.map (·.count)).getD 0 < c.count) :
    (heap.put h d).totalCount < heap.totalCount := by
  obtain ⟨hlt, hget⟩ : ∃ hlt : h.index < heap.cells.length, heap.cells[h.index] = some c := by
    unfold cell? at hc
    cases hx : heap.cells[h.index]? with
    | none => simp [hx] at hc
    | some x => exact List.getElem?_eq_some_iff.1 (by simpa [hx] using hc)
  unfold totalCount put
  rw [List.map_set]
  exact foldr_add_set_lt (by rw [List.length_map]; exact hlt) (by rw [List.getElem_map, hget]; exact hd)

/-- Empties the cell of an object whose last share is gone. -/
def freeCell (heap : Heap) (h : Handle) : Heap :=
  { heap.put h none with free := h.index :: heap.free, live := heap.live - 1 }

@[simp] theorem totalCount_freeCell (heap : Heap) (h : Handle) :
    (heap.freeCell h).totalCount = (heap.put h none).totalCount := rfl

/-- Releases one share of each pending reference, first the head of the list. -/
def releaseAll (heap : Heap) : List Handle → Except Fault Heap
  | [] => .ok heap
  | h :: pending =>
    match _hc : heap.cell? h with
    | none => .error (.dangling h)
    | some c =>
      if _hz : c.count = 0 then .error (.countUnderflow h)
      else if 1 < c.count ∨ c.immortal then
        releaseAll (heap.put h (some { c with count := c.count - 1 })) pending
      else releaseAll (heap.freeCell h) (c.object.children.reverse ++ pending)
termination_by heap.totalCount
decreasing_by
  · exact totalCount_put_lt _hc (by simp; omega)
  · exact totalCount_put_lt _hc (by simp; omega)

/-- Releases one share. -/
def decref (heap : Heap) (h : Handle) : Except Fault Heap := heap.releaseAll [h]

/-- Releases one share of a reference that may be absent. -/
def xdecref (heap : Heap) (h : Option Handle) : Except Fault Heap :=
  match h with
  | some h => heap.decref h
  | none => .ok heap

end Heap

/-! ## Types of known values -/

namespace Ty

/-- A primitive integer of the given kind with a known value. -/
def ofInt (kind : Ty) (value : Int) : Except Fault Ty :=
  if kind.isIntegerKind then .ok (narrowed kind.bits (.int value)) else .error (.integerKind kind)

/-- The kind an object belongs to. -/
def objectKind : Object → Kind
  | .none => .noneType
  | .bool _ => .bool
  | .int _ | .uint _ => .longExact
  | .float _ => .floatExact
  | .str _ => .strExact
  | .tuple _ => .tupleExact
  | .list _ => .listExact
  | .function _ _ => .func
  | .cell _ => .cell
  | .generator _ _ => .gen
  | .boundMethod _ _ => .objectExact
  | .inst _ _ => .objectUser

/-- The type of one live object. The kind of `None` has one value already and is not narrowed. -/
def ofObject (heap : Heap) (h : Handle) : Except Fault Ty :=
  (heap.get h).map fun
    | .none => ofKinds Kind.noneType.mask
    | object => narrowed (objectKind object).mask (.object h)

end Ty

end Bailout
