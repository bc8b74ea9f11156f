/-!
# Identifiers

The numbers that name objects, classes, code units, registers, blocks, symbols, frames, published
records, installed units and bytecode positions. Each kind is a type of its own, so that one cannot
stand for another, and has one text.

The machine keeps handles, registers, blocks, symbols and record numbers in 32 bits and live value
indices in 31, stops when it runs out of them, and lets nonces wrap at 64. Here these numbers are
unbounded and nothing runs out: what is said of allocation is said of runs that stay within the widths.
-/

namespace Bailout

/-- A raw machine word. -/
abbrev Word := UInt64

/-- Names a heap object by the position of its cell. The text counts from one. -/
structure Handle where
  index : Nat
deriving DecidableEq, Repr

/-- Names a user-defined class. -/
structure ClassId where
  val : Nat
deriving DecidableEq, Repr

/-- Names a bytecode unit. -/
structure CodeId where
  val : Nat
deriving DecidableEq, Repr

/-- Names a virtual register. -/
structure Reg where
  index : Nat
deriving DecidableEq, Repr

/-- Names a basic block. -/
structure BlockId where
  index : Nat
deriving DecidableEq, Repr

/-- Names an interned string. -/
structure Symbol where
  index : Nat
deriving DecidableEq, Repr

/-- Names a frame by its position in the call chain, oldest first. -/
structure FrameId where
  index : Nat
deriving DecidableEq, Repr

/-- Names a published record. -/
structure DeoptId where
  index : Nat
deriving DecidableEq, Repr

/-- Names an installed unit. -/
structure UnitId where
  val : Nat
deriving DecidableEq, Repr

/-- Byte offset of an instruction within a bytecode unit. Offsets are 32-bit signed; the arithmetic on
them is checked. -/
structure Offset where
  value : Int
deriving DecidableEq, Repr

instance : ToString Handle := ⟨fun h => "@" ++ Nat.repr (h.index + 1)⟩
instance : ToString ClassId := ⟨fun c => "class#" ++ Nat.repr c.val⟩
instance : ToString CodeId := ⟨fun c => "code#" ++ Nat.repr c.val⟩
instance : ToString Reg := ⟨fun r => "v" ++ Nat.repr r.index⟩
instance : ToString BlockId := ⟨fun b => "bb" ++ Nat.repr b.index⟩
instance : ToString Symbol := ⟨fun s => "sym#" ++ Nat.repr s.index⟩
instance : ToString DeoptId := ⟨fun d => "deopt#" ++ Nat.repr d.index⟩
instance : ToString UnitId := ⟨fun u => "unit#" ++ Nat.repr u.val⟩
instance : ToString Offset := ⟨fun o => Int.repr o.value⟩

/-- Encodes a handle the way native code stores it: aligned to eight, never zero. -/
def Handle.toWord (h : Handle) : Word := UInt64.ofNat (8 * (h.index + 1))

end Bailout
