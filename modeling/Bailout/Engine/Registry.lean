import Bailout.Compile
import Bailout.Error
import Bailout.Intern

/-!
# The registry

Installed units and published records. A record keeps its number for ever; discarding the unit it belongs
to leaves a hole, so that no number is used twice.
-/

namespace Bailout

structure InstalledUnit where
  id : UnitId
  name : Symbol
  code : CodeUnit
  /-- Size of the native frame in bytes. -/
  frameSize : Nat
  /-- The records of the unit's sites, in the order of the sites. -/
  deoptIds : List DeoptId
deriving DecidableEq, Repr

structure Registry where
  table : List (Option Record) := []
  /-- In order of installation. -/
  units : List InstalledUnit := []
  nextUnit : Nat := 0
  names : InternTable := {}
deriving DecidableEq, Repr

namespace Registry

def record? (r : Registry) (id : DeoptId) : Option Record := (r.table[id.index]?).join

def unit? (r : Registry) (id : UnitId) : Option InstalledUnit := r.units.find? (·.id == id)

/-- The name a unit was installed under. -/
def unitName? (r : Registry) (id : UnitId) : Option String :=
  (r.unit? id).bind fun u => r.names.resolve? u.name

/-- Publishes one record; all its values must have locations. -/
def publish (r : Registry) (record : Record) : Except EngineError DeoptId × Registry :=
  if record.isLocated then
    (.ok ⟨r.table.length⟩, { r with table := r.table ++ [some record] })
  else (.error (.unlocated record.nonce), r)

/-- Publishes the records of a unit and adds it. A unit with one unusable record publishes none. -/
def install (r : Registry) (u : CompiledUnit) : Except EngineError UnitId × Registry :=
  match u.records.find? fun record => !record.isLocated with
  | some record => (.error (.unlocated record.nonce), r)
  | none =>
    let id : UnitId := ⟨r.nextUnit⟩
    let (name, names) := r.names.intern u.name
    let deoptIds := (List.range u.records.length).map fun i => DeoptId.mk (r.table.length + i)
    (.ok id, {
      table := r.table ++ u.records.map some
      units := r.units ++ [{ id, name, code := u.code, frameSize := u.frameSize, deoptIds }]
      nextUnit := r.nextUnit + 1
      names })

/-- Removes a unit and its records. -/
def discard (r : Registry) (id : UnitId) : Except EngineError Unit × Registry :=
  match r.unit? id with
  | none => (.error (.unknownUnit id), r)
  | some u =>
    (.ok (), {
      r with
      table := u.deoptIds.foldl (fun table d => table.set d.index none) r.table
      units := r.units.filter (·.id != id) })

end Registry

end Bailout
