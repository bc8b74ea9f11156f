import Bailout.Opcode

/-!
# Exits from compiled code

Why compiled code is left, and where its live values sit then. The reason follows from the opcode of the
instruction and decides where the interpreter resumes.
-/

namespace Bailout

inductive Reason where
  | guardFailure
  | yieldFrom
  | generatorYield
  | raise
  | raiseStatic
  | reraise
  | unhandledException
  | unhandledUnboundLocal
  | unhandledUnboundFreevar
  | unhandledNullField
  /-- Asked for from outside, for instance after patching a patchpoint. -/
  | forced
deriving DecidableEq, Repr

namespace Reason

/-- Every reason, in order of declaration. -/
def all : List Reason :=
  [guardFailure, yieldFrom, generatorYield, raise, raiseStatic, reraise, unhandledException,
    unhandledUnboundLocal, unhandledUnboundFreevar, unhandledNullField, forced]

def name : Reason → String
  | guardFailure => "GuardFailure"
  | yieldFrom => "YieldFrom"
  | generatorYield => "GeneratorYield"
  | raise => "Raise"
  | raiseStatic => "RaiseStatic"
  | reraise => "Reraise"
  | unhandledException => "UnhandledException"
  | unhandledUnboundLocal => "UnhandledUnboundLocal"
  | unhandledUnboundFreevar => "UnhandledUnboundFreevar"
  | unhandledNullField => "UnhandledNullField"
  | forced => "Forced"

def ofName? (s : String) : Option Reason := all.find? (fun r => r.name == s)

instance : ToString Reason := ⟨name⟩

def ofOpcode : Opcode → Reason
  | .checkVar => unhandledUnboundLocal
  | .checkFreevar => unhandledUnboundFreevar
  | .checkField => unhandledNullField
  | .guard | .guardType | .guardIs | .deopt => guardFailure
  | .deoptPatchpoint => forced
  | .raise => raise
  | .yieldFrom => yieldFrom
  | .initialYield | .yieldValue => generatorYield
  | _ => unhandledException

/-- An exception propagates into the interpreter. -/
def isException : Reason → Bool
  | raise | raiseStatic | reraise | unhandledException | unhandledUnboundLocal
  | unhandledUnboundFreevar | unhandledNullField => true
  | guardFailure | yieldFrom | generatorYield | forced => false

end Reason

/-! ## Machine locations

A machine register, or a byte offset into the spill area of the native frame.
-/

/-- Bytes in one word of the spill area. -/
def wordSize : Nat := 8

inductive Location where
  | reg (number : Nat)
  | spill (offset : Int)
deriving DecidableEq, Repr

def Location.text : Location → String
  | .reg number => "r" ++ Nat.repr number
  | .spill offset => "[spill+" ++ Int.repr offset ++ "]"

instance : ToString Location := ⟨Location.text⟩

end Bailout
