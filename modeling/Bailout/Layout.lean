import Bailout.Error
import Bailout.Fault
import Bailout.Record

/-!
# Location assignment

Every register that is live at some site of a unit gets one location for the whole unit. In order of
first use, the first registers go to machine registers and the rest to spill slots. Units that suspend
spill everything, because their state survives in the spill area.
-/

namespace Bailout

/-! ## Compilation settings -/

structure Settings where
  /-- Machine registers for live values. -/
  registerBudget : Nat := 6
  /-- Check functions before compiling them. -/
  validate : Bool := true
  workers : Nat := 1
  /-- Bytes in one spill slot. -/
  slotSize : Nat := 8
deriving DecidableEq, Repr

/-! ## Layouts -/

structure Layout where
  /-- In order of first use. -/
  locations : List (Reg × Location) := []
  spillSlots : Nat := 0
  /-- Size of the native frame in bytes. -/
  frameSize : Nat := 0
deriving DecidableEq, Repr

namespace Layout

def location? (l : Layout) (r : Reg) : Option Location :=
  (l.locations.find? fun p => p.1 == r).map (·.2)

/-- The registers with their locations, in order of the registers' numbers. -/
def byReg (l : Layout) : List (Reg × Location) :=
  l.locations.mergeSort fun a b => a.1.index ≤ b.1.index

/-- Gives a location to a register that has none yet. -/
def place (budget slotSize : Nat) (l : Layout) (r : Reg) :
    Except Fault (Except CompileError Layout) := do
  match l.location? r with
  | some _ => return .ok l
  | none =>
    let registers := l.locations.length - l.spillSlots
    if registers < budget then
      return .ok { l with locations := l.locations ++ [(r, .reg registers)] }
    else
      let offset ← Checked.size .multiply (l.spillSlots * slotSize)
      if 0x80000000 ≤ offset then return .error (.unsupportedLocation (.spillOffset offset))
      return .ok {
        l with
        locations := l.locations ++ [(r, .spill offset)]
        spillSlots := l.spillSlots + 1 }

/-- Places registers one after another, up to the first that cannot be placed. -/
def placeAll (budget slotSize : Nat) (l : Layout) : List Reg → Except Fault (Except CompileError Layout)
  | [] => .ok (.ok l)
  | r :: rest => do
    match ← l.place budget slotSize r with
    | .error e => return .error e
    | .ok l => l.placeAll budget slotSize rest

/-- Fills in the locations of a record. -/
def fill (l : Layout) (r : Record) : Record :=
  { r with live := r.live.map fun v => { v with location := l.location? v.reg } }

/-- Assigns a location to every live value of the records. -/
def assign (records : List Record) (settings : Settings) (spillAll : Bool) :
    Except Fault (Except CompileError (Layout × List Record)) := do
  if settings.slotSize = 0 ∨ settings.slotSize % wordSize ≠ 0 then
    return .error (.unsupportedLocation (.slotSize settings.slotSize))
  let budget := if spillAll then 0 else settings.registerBudget
  if 256 < budget then return .error (.unsupportedLocation (.budget budget))
  let regs := records.flatMap fun r => r.live.map (·.reg)
  match ← placeAll budget settings.slotSize {} regs with
  | .error e => return .error e
  | .ok l =>
    let frameSize ← Checked.size .multiply (l.spillSlots * settings.slotSize)
    let l := { l with frameSize }
    return .ok (l, records.map l.fill)

end Layout

end Bailout
