import Bailout.Engine.Registry
import Bailout.Proofs.Intern
import Mathlib.Data.List.Nodup

/-!
# The registry and its history

A registry is accounted for by what happened to it: records published singly, units installed, units
discarded. `Ledger` keeps this history beside the registry while the registry's own operations run.

`Registry.Tracks` is the invariant. Each publication takes the next place of the table, so that the table
is the list of all publications, with a hole for each whose unit was discarded. `Registry.Accounts` is
what follows for somebody who only looks numbers up.
-/

namespace Bailout

/-! ## What happens to a registry -/

inductive Event where
  /-- A record was published by itself. -/
  | published (id : DeoptId) (record : Record)
  /-- A unit was installed, and its records got the given numbers. -/
  | installed (id : UnitId) (sites : List DeoptId) (unit : CompiledUnit)
  | discarded (id : UnitId)
deriving DecidableEq, Repr

namespace Event

/-- The record numbers that are handed out. -/
def deoptIds : Event → List DeoptId
  | .published id _ => [id]
  | .installed _ sites _ => sites
  | .discarded _ => []

/-- The unit number that is handed out. -/
def unitId? : Event → Option UnitId
  | .installed id _ _ => some id
  | _ => none

/-- The records that are published. -/
def records : Event → List Record
  | .published _ record => [record]
  | .installed _ _ unit => unit.records
  | .discarded _ => []

end Event

/-- The unit was installed, and has not been discarded since. -/
def Standing (history : List Event) (id : UnitId) (sites : List DeoptId) (unit : CompiledUnit) : Prop :=
  .installed id sites unit ∈ history ∧ .discarded id ∉ history

/-- The record was published under the number, by itself or at its place in a unit that stands. -/
def Published (history : List Event) (id : DeoptId) (record : Record) : Prop :=
  .published id record ∈ history ∨
    ∃ unitId sites unit, Standing history unitId sites unit ∧ (id, record) ∈ sites.zip unit.records

/-- What the registry answers is what its history says. -/
structure Registry.Accounts (r : Registry) (history : List Event) : Prop where
  located : ∀ event ∈ history, ∀ record ∈ event.records, record.isLocated
  deoptIds_once : (history.flatMap Event.deoptIds).Nodup
  unitIds_once : (history.filterMap Event.unitId?).Nodup
  /-- A unit gets one number for each of its records, in their order. -/
  sites_length : ∀ id sites unit, .installed id sites unit ∈ history →
    sites.length = unit.records.length
  record_iff : ∀ id record, r.record? id = some record ↔ Published history id record
  unit_standing : ∀ id sites unit, Standing history id sites unit →
    ∃ u, r.unit? id = some u ∧ u.deoptIds = sites ∧ u.code = unit.code ∧
      u.frameSize = unit.frameSize ∧ r.unitName? id = some unit.name
  unit_gone : ∀ id, (∀ sites unit, ¬ Standing history id sites unit) → r.unit? id = none
  disjoint_units : ∀ id id' u u', id ≠ id' → r.unit? id = some u → r.unit? id' = some u' →
    u.deoptIds.Disjoint u'.deoptIds
  disjoint_single : ∀ id record unitId u, .published id record ∈ history →
    r.unit? unitId = some u → id ∉ u.deoptIds

/-! ## The registry and its history side by side -/

structure Ledger where
  registry : Registry := {}
  /-- What happened, oldest first. -/
  history : List Event := []

/-- The numbers of a unit's records. -/
def Registry.sites (r : Registry) (id : UnitId) : List DeoptId :=
  ((r.unit? id).map (·.deoptIds)).getD []

namespace Ledger

/-- Follows a change of the registry, noting what happened if it succeeded. -/
def note {α : Type} (l : Ledger) (change : Except EngineError α × Registry) (event : α → Event) :
    Except EngineError α × Ledger :=
  (change.1, ⟨change.2, l.history ++ (change.1.toOption.map event).toList⟩)

def publish (record : Record) (l : Ledger) : Except EngineError DeoptId × Ledger :=
  l.note (l.registry.publish record) fun id => .published id record

def install (unit : CompiledUnit) (l : Ledger) : Except EngineError UnitId × Ledger :=
  let change := l.registry.install unit
  l.note change fun id => .installed id (change.2.sites id) unit

def discard (id : UnitId) (l : Ledger) : Except EngineError Unit × Ledger :=
  l.note (l.registry.discard id) fun _ => .discarded id

end Ledger

/-! ## The invariant -/

/-- A record under its number, with the unit it belongs to. -/
structure Publication where
  id : DeoptId
  owner : Option UnitId
  record : Record
deriving DecidableEq, Repr

def Event.publications : Event → List Publication
  | .published id record => [⟨id, none, record⟩]
  | .installed id sites unit =>
    (sites.zip unit.records).map fun (site, record) => ⟨site, some id, record⟩
  | .discarded _ => []

/-- Whether the unit that the publication belongs to was discarded. -/
def Publication.gone (history : List Event) (p : Publication) : Bool :=
  p.owner.any fun id => decide (Event.discarded id ∈ history)

/-- What the table holds for a publication. -/
def Publication.slot (history : List Event) (p : Publication) : Option Record :=
  if p.gone history then none else some p.record

structure Registry.Tracks (r : Registry) (history : List Event) : Prop where
  ids : (history.flatMap Event.publications).map (·.id) = (List.range r.table.length).map DeoptId.mk
  table : r.table = (history.flatMap Event.publications).map (·.slot history)
  located : ∀ event ∈ history, ∀ record ∈ event.records, record.isLocated
  sites_length : ∀ id sites unit, .installed id sites unit ∈ history →
    sites.length = unit.records.length
  unitIds : history.filterMap Event.unitId? = (List.range r.nextUnit).map UnitId.mk
  discarded_lt : ∀ id, .discarded id ∈ history → id.val < r.nextUnit
  units_nodup : (r.units.map (·.id)).Nodup
  units_standing : ∀ u ∈ r.units, ∃ unit, Standing history u.id u.deoptIds unit ∧
    u.code = unit.code ∧ u.frameSize = unit.frameSize ∧ r.names.resolve? u.name = some unit.name
  standing_units : ∀ id sites unit, Standing history id sites unit → ∃ u ∈ r.units, u.id = id

/-! ## Publications -/

theorem Publication.gone_append (history new : List Event) (p : Publication) :
    p.gone (history ++ new) = (p.gone history || p.gone new) := by
  unfold gone
  cases p.owner with
  | none => rfl
  | some id => simp

/-- What the table holds changes only when a unit is discarded. -/
theorem Publication.slot_append {history new : List Event} {p : Publication} (h : p.gone new = false) :
    p.slot (history ++ new) = p.slot history := by
  unfold slot
  rw [gone_append, h, Bool.or_false]

theorem Publication.slot_eq_some {history : List Event} {p : Publication} {record : Record} :
    p.slot history = some record ↔
      p.record = record ∧ ∀ id, p.owner = some id → .discarded id ∉ history := by
  unfold slot gone
  cases p.owner with
  | none => simp
  | some id => by_cases hid : Event.discarded id ∈ history <;> simp [hid]

theorem mem_publications {history : List Event} {p : Publication} :
    p ∈ history.flatMap Event.publications ↔
      (p.owner = none ∧ .published p.id p.record ∈ history) ∨
      ∃ id sites unit, p.owner = some id ∧ .installed id sites unit ∈ history ∧
        (p.id, p.record) ∈ sites.zip unit.records := by
  rw [List.mem_flatMap]
  constructor
  · rintro ⟨event, he, hp⟩
    cases event with
    | published id record =>
      obtain rfl : p = ⟨id, none, record⟩ := by simpa [Event.publications] using hp
      exact .inl ⟨rfl, he⟩
    | installed id sites unit =>
      obtain ⟨⟨site, record⟩, hmem, rfl⟩ := List.mem_map.1 hp
      exact .inr ⟨id, sites, unit, rfl, he, hmem⟩
    | discarded id => simp [Event.publications] at hp
  · obtain ⟨d, owner, record⟩ := p
    rintro (⟨rfl, he⟩ | ⟨id, sites, unit, rfl, he, hmem⟩)
    · exact ⟨_, he, List.mem_singleton.2 rfl⟩
    · exact ⟨_, he, List.mem_map.2 ⟨(d, record), hmem, rfl⟩⟩

/-- Where the numbers that a `filterMap` picks are distinct, a number is picked from one element. -/
theorem eq_of_filterMap_nodup {α β : Type} {f : α → Option β} {l : List α} (h : (l.filterMap f).Nodup)
    {a a' : α} {b : β} (ha : a ∈ l) (ha' : a' ∈ l) (hb : f a = some b) (hb' : f a' = some b) :
    a = a' := by
  induction l with
  | nil => simp at ha
  | cons x l ih =>
    cases hx : f x with
    | none =>
      rw [List.filterMap_cons_none hx] at h
      have hne : ∀ {y}, f y = some b → y ≠ x := by
        rintro y hy rfl
        simp [hx] at hy
      exact ih h (List.mem_of_ne_of_mem (hne hb) ha) (List.mem_of_ne_of_mem (hne hb') ha')
    | some c =>
      rw [List.filterMap_cons_some hx, List.nodup_cons] at h
      obtain ⟨hc, h⟩ := h
      have hpicked : ∀ {y}, y ∈ l → f y = some b → c ≠ b := by
        rintro y hy hby rfl
        exact hc (List.mem_filterMap.2 ⟨y, hy, hby⟩)
      rcases List.mem_cons.1 ha with rfl | hal
      · rcases List.mem_cons.1 ha' with rfl | hal'
        · rfl
        · exact absurd (Option.some.inj (hx.symm.trans hb)) (hpicked hal' hb')
      · rcases List.mem_cons.1 ha' with rfl | hal'
        · exact absurd (Option.some.inj (hx.symm.trans hb')) (hpicked hal hb)
        · exact ih h hal hal'

/-! ## What the invariant says -/

namespace Registry.Tracks

variable {r : Registry} {history : List Event}

theorem empty : ({} : Registry).Tracks [] := by
  constructor <;> simp [Standing]

theorem unitIds_nodup (h : r.Tracks history) : (history.filterMap Event.unitId?).Nodup := by
  rw [h.unitIds]
  exact List.nodup_range.map fun i j hij => UnitId.mk.inj hij

theorem installed_lt (h : r.Tracks history) {id : UnitId} {sites : List DeoptId} {unit : CompiledUnit}
    (hi : .installed id sites unit ∈ history) : id.val < r.nextUnit := by
  have hid : id ∈ history.filterMap Event.unitId? := List.mem_filterMap.2 ⟨_, hi, rfl⟩
  rw [h.unitIds] at hid
  obtain ⟨i, hlt, rfl⟩ := List.mem_map.1 hid
  exact List.mem_range.1 hlt

theorem installed_inj (h : r.Tracks history) {id : UnitId} {sites sites' : List DeoptId}
    {unit unit' : CompiledUnit} (hi : .installed id sites unit ∈ history)
    (hi' : .installed id sites' unit' ∈ history) : sites = sites' ∧ unit = unit' := by
  have := eq_of_filterMap_nodup h.unitIds_nodup hi hi' rfl rfl
  injection this with _ hs hu
  exact ⟨hs, hu⟩

theorem publication_iff (h : r.Tracks history) {k : Nat} {p : Publication} :
    (history.flatMap Event.publications)[k]? = some p ↔
      p ∈ history.flatMap Event.publications ∧ p.id = ⟨k⟩ := by
  have hid : ∀ (j : Nat) (q : Publication),
      (history.flatMap Event.publications)[j]? = some q → q.id = ⟨j⟩ := by
    intro j q hq
    have hj : ((history.flatMap Event.publications).map (·.id))[j]? = some q.id := by
      rw [List.getElem?_map, hq, Option.map_some]
    rw [h.ids, List.getElem?_map, Option.map_eq_some_iff] at hj
    obtain ⟨i, hi, hq⟩ := hj
    obtain ⟨hj, rfl⟩ := List.getElem?_eq_some_iff.1 hi
    rw [← hq, List.getElem_range]
  constructor
  · intro hk
    exact ⟨List.mem_of_getElem? hk, hid k p hk⟩
  · rintro ⟨hmem, hk⟩
    obtain ⟨j, hj⟩ := List.mem_iff_getElem?.1 hmem
    obtain rfl : j = k := DeoptId.mk.inj ((hid j p hj).symm.trans hk)
    exact hj

theorem publication_inj (h : r.Tracks history) {p q : Publication}
    (hp : p ∈ history.flatMap Event.publications) (hq : q ∈ history.flatMap Event.publications)
    (hid : p.id = q.id) : p = q := by
  have hp := (h.publication_iff (k := q.id.index)).2 ⟨hp, hid⟩
  have hq := (h.publication_iff (k := q.id.index)).2 ⟨hq, rfl⟩
  exact Option.some.inj (hp.symm.trans hq)

theorem record?_eq_some (h : r.Tracks history) {id : DeoptId} {record : Record} :
    r.record? id = some record ↔
      ∃ p ∈ history.flatMap Event.publications, p.id = id ∧ p.slot history = some record := by
  unfold Registry.record?
  rw [h.table, List.getElem?_map, Option.join_eq_some_iff, Option.map_eq_some_iff]
  constructor
  · rintro ⟨p, hp, hslot⟩
    obtain ⟨hmem, hid⟩ := h.publication_iff.1 hp
    exact ⟨p, hmem, hid, hslot⟩
  · rintro ⟨p, hmem, rfl, hslot⟩
    exact ⟨p, h.publication_iff.2 ⟨hmem, rfl⟩, hslot⟩

theorem publication_of_site (h : r.Tracks history) {id : UnitId} {sites : List DeoptId}
    {unit : CompiledUnit} (hi : .installed id sites unit ∈ history) {site : DeoptId}
    (hs : site ∈ sites) :
    ∃ record, (⟨site, some id, record⟩ : Publication) ∈ history.flatMap Event.publications := by
  obtain ⟨k, hk, hget⟩ := List.getElem_of_mem hs
  have hk' : k < unit.records.length := h.sites_length _ _ _ hi ▸ hk
  have hzip : (sites[k], unit.records[k]) ∈ sites.zip unit.records :=
    List.mem_iff_getElem.2 ⟨k, by rw [List.length_zip]; omega, List.getElem_zip⟩
  exact ⟨unit.records[k], mem_publications.2 (.inr ⟨id, sites, unit, rfl, hi, hget ▸ hzip⟩)⟩

/-- The numbers of a unit are those of the publications it owns. -/
theorem owner_iff (h : r.Tracks history) {id : UnitId} {sites : List DeoptId} {unit : CompiledUnit}
    (hi : .installed id sites unit ∈ history) {p : Publication}
    (hp : p ∈ history.flatMap Event.publications) : p.owner = some id ↔ p.id ∈ sites := by
  constructor
  · intro ho
    rcases mem_publications.1 hp with ⟨hn, -⟩ | ⟨id', sites', unit', ho', hi', hmem⟩
    · simp [ho] at hn
    · obtain rfl : id = id' := Option.some.inj (ho.symm.trans ho')
      obtain ⟨rfl, -⟩ := h.installed_inj hi hi'
      exact (List.of_mem_zip hmem).1
  · intro hs
    obtain ⟨record, hown⟩ := h.publication_of_site hi hs
    rw [h.publication_inj hp hown rfl]

theorem unit?_eq_some (h : r.Tracks history) {id : UnitId} {u : InstalledUnit} :
    r.unit? id = some u ↔ u ∈ r.units ∧ u.id = id := by
  unfold Registry.unit?
  constructor
  · intro hu
    exact ⟨List.mem_of_find?_eq_some hu, by simpa using List.find?_some hu⟩
  · rintro ⟨hmem, hid⟩
    cases hu : r.units.find? (·.id == id) with
    | none => exact absurd (List.find?_eq_none.1 hu u hmem) (by simp [hid])
    | some u' =>
      have hid' : u'.id = id := by simpa using List.find?_some hu
      rw [List.inj_on_of_nodup_map h.units_nodup hmem (List.mem_of_find?_eq_some hu)
        (hid.trans hid'.symm)]

theorem installed_of_unit? (h : r.Tracks history) {id : UnitId} {u : InstalledUnit}
    (hu : r.unit? id = some u) : ∃ unit, Standing history id u.deoptIds unit ∧
      u.code = unit.code ∧ u.frameSize = unit.frameSize ∧ r.names.resolve? u.name = some unit.name := by
  obtain ⟨hmem, rfl⟩ := h.unit?_eq_some.1 hu
  exact h.units_standing u hmem

theorem deoptIds_eq (h : r.Tracks history) :
    history.flatMap Event.deoptIds = (history.flatMap Event.publications).map (·.id) := by
  rw [List.map_flatMap]
  refine List.flatMap_congr fun event he => ?_
  cases event with
  | published id record => rfl
  | installed id sites unit =>
    change sites = ((sites.zip unit.records).map _).map _
    rw [List.map_map]
    exact (List.map_fst_zip (Nat.le_of_eq (h.sites_length id sites unit he))).symm
  | discarded id => rfl

theorem accounts (h : r.Tracks history) : r.Accounts history where
  located := h.located
  deoptIds_once := by
    rw [h.deoptIds_eq, h.ids]
    exact List.nodup_range.map fun i j hij => DeoptId.mk.inj hij
  unitIds_once := h.unitIds_nodup
  sites_length := h.sites_length
  record_iff := by
    intro id record
    rw [h.record?_eq_some]
    constructor
    · rintro ⟨p, hp, rfl, hslot⟩
      obtain ⟨rfl, hstands⟩ := Publication.slot_eq_some.1 hslot
      rcases mem_publications.1 hp with ⟨-, he⟩ | ⟨unitId, sites, unit, ho, hi, hmem⟩
      · exact .inl he
      · exact .inr ⟨unitId, sites, unit, ⟨hi, hstands unitId ho⟩, hmem⟩
    · rintro (he | ⟨unitId, sites, unit, ⟨hi, hstands⟩, hmem⟩)
      · refine ⟨⟨id, none, record⟩, mem_publications.2 (.inl ⟨rfl, he⟩), rfl, ?_⟩
        exact Publication.slot_eq_some.2 ⟨rfl, fun _ ho => by simp at ho⟩
      · refine ⟨⟨id, some unitId, record⟩,
          mem_publications.2 (.inr ⟨unitId, sites, unit, rfl, hi, hmem⟩), rfl, ?_⟩
        exact Publication.slot_eq_some.2 ⟨rfl, fun _ ho => Option.some.inj ho ▸ hstands⟩
  unit_standing := by
    intro id sites unit hst
    obtain ⟨u, hu, hid⟩ := h.standing_units id sites unit hst
    have hfound := h.unit?_eq_some.2 ⟨hu, hid⟩
    obtain ⟨unit', hst', hcode, hsize, hname⟩ := h.installed_of_unit? hfound
    obtain ⟨rfl, rfl⟩ := h.installed_inj hst.1 hst'.1
    refine ⟨u, hfound, rfl, hcode, hsize, ?_⟩
    rw [Registry.unitName?, hfound, Option.bind_some, hname]
  unit_gone := by
    intro id hno
    cases hu : r.unit? id with
    | none => rfl
    | some u =>
      obtain ⟨unit, hst, -⟩ := h.installed_of_unit? hu
      exact absurd hst (hno _ unit)
  disjoint_units := by
    intro id id' u u' hne hu hu' site hs hs'
    obtain ⟨unit, hst, -⟩ := h.installed_of_unit? hu
    obtain ⟨unit', hst', -⟩ := h.installed_of_unit? hu'
    obtain ⟨record, hp⟩ := h.publication_of_site hst.1 hs
    have howner := (h.owner_iff hst'.1 hp).2 hs'
    exact hne (Option.some.inj howner)
  disjoint_single := by
    intro id record unitId u he hu hs
    obtain ⟨unit, hst, -⟩ := h.installed_of_unit? hu
    have hp : (⟨id, none, record⟩ : Publication) ∈ history.flatMap Event.publications :=
      mem_publications.2 (.inl ⟨rfl, he⟩)
    simpa using (h.owner_iff hst.1 hp).2 hs

end Registry.Tracks

/-! ## What the operations do -/

namespace Registry

theorem publish_located (r : Registry) {record : Record} (h : record.isLocated) :
    r.publish record = (.ok ⟨r.table.length⟩, { r with table := r.table ++ [some record] }) := by
  rw [publish, if_pos h]

theorem publish_unlocated (r : Registry) {record : Record} (h : ¬ record.isLocated) :
    r.publish record = (.error (.unlocated record.nonce), r) := by
  rw [publish, if_neg h]

/-- The unit as it is installed next. -/
def nextInstalled (r : Registry) (u : CompiledUnit) : InstalledUnit where
  id := ⟨r.nextUnit⟩
  name := (r.names.intern u.name).1
  code := u.code
  frameSize := u.frameSize
  deoptIds := (List.range u.records.length).map fun i => DeoptId.mk (r.table.length + i)

theorem install_located (r : Registry) {u : CompiledUnit} (h : ∀ record ∈ u.records, record.isLocated) :
    r.install u = (.ok ⟨r.nextUnit⟩, {
      table := r.table ++ u.records.map some
      units := r.units ++ [r.nextInstalled u]
      nextUnit := r.nextUnit + 1
      names := (r.names.intern u.name).2 }) := by
  have hfind : u.records.find? (fun record => !record.isLocated) = none :=
    List.find?_eq_none.2 fun record hr => by simp [h record hr]
  rw [install, hfind]
  rfl

/-- One record without a location refuses the unit, wherever it stands. -/
theorem install_unlocated (r : Registry) {u : CompiledUnit} {record : Record}
    (hr : record ∈ u.records) (h : ¬ record.isLocated) :
    ∃ first ∈ u.records, r.install u = (.error (.unlocated first.nonce), r) := by
  cases hfind : u.records.find? (fun record => !record.isLocated) with
  | none => exact absurd (List.find?_eq_none.1 hfind record hr) (by simpa using h)
  | some first =>
    refine ⟨first, List.mem_of_find?_eq_some hfind, ?_⟩
    rw [install, hfind]

theorem publish_error {r : Registry} {record : Record} {err : EngineError}
    (h : (r.publish record).1 = .error err) : (r.publish record).2 = r := by
  by_cases hr : record.isLocated
  · simp [r.publish_located hr] at h
  · rw [r.publish_unlocated hr]

theorem install_error {r : Registry} {u : CompiledUnit} {err : EngineError}
    (h : (r.install u).1 = .error err) : (r.install u).2 = r := by
  by_cases hr : ∀ record ∈ u.records, record.isLocated
  · simp [r.install_located hr] at h
  · obtain ⟨record, hmem, hloc⟩ : ∃ record ∈ u.records, ¬ record.isLocated := by simpa using hr
    obtain ⟨first, -, herr⟩ := r.install_unlocated hmem hloc
    rw [herr]

/-- The table without the records of the given numbers. -/
def clear (table : List (Option Record)) (ids : List DeoptId) : List (Option Record) :=
  ids.foldl (fun table d => table.set d.index none) table

theorem discard_known (r : Registry) {id : UnitId} {u : InstalledUnit} (h : r.unit? id = some u) :
    r.discard id = (.ok (), {
      r with table := clear r.table u.deoptIds, units := r.units.filter (·.id != id) }) := by
  rw [discard, h]
  rfl

theorem discard_unknown (r : Registry) {id : UnitId} (h : r.unit? id = none) :
    r.discard id = (.error (.unknownUnit id), r) := by
  rw [discard, h]

theorem discard_error {r : Registry} {id : UnitId} {err : EngineError}
    (h : (r.discard id).1 = .error err) : (r.discard id).2 = r := by
  cases hu : r.unit? id with
  | none => rw [r.discard_unknown hu]
  | some u => simp [r.discard_known hu] at h

theorem getElem?_clear (table : List (Option Record)) (ids : List DeoptId) (k : Nat) :
    (clear table ids)[k]? = if ⟨k⟩ ∈ ids then table[k]?.map fun _ => none else table[k]? := by
  unfold clear
  induction ids generalizing table with
  | nil => simp
  | cons d ids ih =>
    rw [List.foldl_cons, ih]
    by_cases hd : d.index = k
    · obtain rfl : d = ⟨k⟩ := by rw [← hd]
      rw [if_pos List.mem_cons_self, List.getElem?_set_self']
      cases table[k]? with
      | none => simp
      | some slot => simp
    · have hne : ⟨k⟩ ≠ d := fun h => hd (by rw [← h])
      rw [List.getElem?_set_ne hd]
      simp [hne]

@[simp] theorem length_clear (table : List (Option Record)) (ids : List DeoptId) :
    (clear table ids).length = table.length := by
  unfold clear
  induction ids generalizing table with
  | nil => rfl
  | cons d ids ih => rw [List.foldl_cons, ih, List.length_set]

theorem record?_discard (r : Registry) {id : UnitId} {u : InstalledUnit} (h : r.unit? id = some u)
    (d : DeoptId) : (r.discard id).2.record? d = if d ∈ u.deoptIds then none else r.record? d := by
  rw [r.discard_known h]
  change ((clear r.table u.deoptIds)[d.index]?).join = _
  rw [getElem?_clear]
  by_cases hd : d ∈ u.deoptIds
  · rw [if_pos hd, if_pos hd]
    cases r.table[d.index]? <;> rfl
  · rw [if_neg hd, if_neg hd]
    rfl

theorem unit?_discard (r : Registry) {id : UnitId} {u : InstalledUnit} (h : r.unit? id = some u)
    (id' : UnitId) : (r.discard id).2.unit? id' = if id' = id then none else r.unit? id' := by
  rw [r.discard_known h]
  change (r.units.filter (·.id != id)).find? (·.id == id') = _
  rw [List.find?_filter]
  by_cases hid : id' = id
  · rw [if_pos hid, List.find?_eq_none]
    intro v _
    simp [hid]
  · rw [if_neg hid, unit?]
    congr 1
    funext v
    by_cases hv : v.id = id'
    · simp [hv, hid]
    · simp [hv]

/-! ## Each operation keeps the invariant -/

namespace Tracks

variable {r : Registry} {history : List Event}

/-- What the table holds does not change with an event that discards nothing. -/
theorem map_slot_append (history : List Event) (l : List Publication) {event : Event}
    (he : ∀ id, event ≠ .discarded id) :
    l.map (·.slot (history ++ [event])) = l.map (·.slot history) := by
  refine List.map_congr_left fun p _ => Publication.slot_append ?_
  cases hp : p.owner with
  | none => simp [Publication.gone, hp]
  | some id => simpa [Publication.gone, hp] using (he id).symm

/-- The publications of a unit are its records, under its numbers; they are there while the unit
stands. -/
theorem publications_installed {id : UnitId} {sites : List DeoptId} {unit : CompiledUnit}
    (hlen : sites.length = unit.records.length) (hd : .discarded id ∉ history) :
    (Event.installed id sites unit).publications.map (·.id) = sites ∧
    (Event.installed id sites unit).publications.map (·.slot history) = unit.records.map some := by
  have hslot : ∀ x ∈ sites.zip unit.records,
      Publication.slot history ⟨x.1, some id, x.2⟩ = some x.2 := by
    intro x _
    exact Publication.slot_eq_some.2 ⟨rfl, fun id hid => Option.some.inj hid ▸ hd⟩
  simp only [Event.publications, List.map_map]
  constructor
  · exact List.map_fst_zip (Nat.le_of_eq hlen)
  · calc (sites.zip unit.records).map _
      _ = (sites.zip unit.records).map (some ∘ (·.2)) := List.map_congr_left hslot
      _ = ((sites.zip unit.records).map (·.2)).map some := by rw [List.map_map]
      _ = unit.records.map some := by rw [List.map_snd_zip (Nat.le_of_eq hlen.symm)]

theorem publish (h : r.Tracks history) {record : Record} (hr : record.isLocated) :
    Tracks { r with table := r.table ++ [some record] }
      (history ++ [.published ⟨r.table.length⟩ record]) where
  ids := by
    simp [Event.publications, h.ids, List.range_succ]
  table := by
    rw [map_slot_append history _ (by simp), List.flatMap_append, List.map_append, ← h.table]
    rfl
  located := by
    intro event he
    rcases List.mem_append.1 he with he | he
    · exact h.located event he
    · obtain rfl := List.mem_singleton.1 he
      simpa [Event.records] using hr
  sites_length := by
    intro id sites unit hi
    exact h.sites_length id sites unit (by simpa using hi)
  unitIds := by
    simp [Event.unitId?, h.unitIds]
  discarded_lt := by
    intro id hd
    exact h.discarded_lt id (by simpa using hd)
  units_nodup := h.units_nodup
  units_standing := by
    simpa [Standing] using h.units_standing
  standing_units := by
    simpa [Standing] using h.standing_units

theorem install (h : r.Tracks history) {u : CompiledUnit} (hr : ∀ record ∈ u.records, record.isLocated) :
    Tracks (r.install u).2 (history ++ [.installed ⟨r.nextUnit⟩ (r.nextInstalled u).deoptIds u]) := by
  rw [r.install_located hr]
  have hfresh : .discarded ⟨r.nextUnit⟩ ∉ history := fun hd => Nat.lt_irrefl _ (h.discarded_lt _ hd)
  have hsites : (r.nextInstalled u).deoptIds.length = u.records.length := by simp [nextInstalled]
  obtain ⟨hids, hslots⟩ := publications_installed hsites hfresh
  constructor
  case ids =>
    rw [List.flatMap_append, List.map_append, h.ids, List.flatMap_singleton, hids]
    simp only [List.length_append, List.length_map, List.range_add, List.map_append, List.map_map]
    rfl
  case table =>
    rw [map_slot_append history _ (by simp), List.flatMap_append, List.map_append, ← h.table,
      List.flatMap_singleton, hslots]
  case located =>
    intro event he
    rcases List.mem_append.1 he with he | he
    · exact h.located event he
    · obtain rfl := List.mem_singleton.1 he
      exact hr
  case sites_length =>
    intro id sites unit hi
    rcases List.mem_append.1 hi with hi | hi
    · exact h.sites_length id sites unit hi
    · injection List.mem_singleton.1 hi with _ hs hu
      rw [hs, hu, hsites]
  case unitIds =>
    simp [Event.unitId?, h.unitIds, List.range_succ]
  case discarded_lt =>
    intro id hd
    exact Nat.lt_succ_of_lt (h.discarded_lt id (by simpa using hd))
  case units_nodup =>
    rw [List.map_append, List.nodup_append]
    refine ⟨h.units_nodup, by simp, ?_⟩
    rintro id hid id' hid' rfl
    obtain ⟨u', hu', rfl⟩ := List.mem_map.1 hid
    obtain ⟨unit, hst, -⟩ := h.units_standing u' hu'
    have hnew : u'.id = ⟨r.nextUnit⟩ := by simpa [nextInstalled] using hid'
    have hlt := h.installed_lt hst.1
    rw [hnew] at hlt
    exact Nat.lt_irrefl _ hlt
  case units_standing =>
    intro u' hu'
    rcases List.mem_append.1 hu' with hu' | hu'
    · obtain ⟨unit, hst, hcode, hsize, hname⟩ := h.units_standing u' hu'
      refine ⟨unit, ⟨List.mem_append_left _ hst.1, ?_⟩, hcode, hsize,
        InternTable.resolve?_intern_of_some hname _⟩
      simpa using hst.2
    · obtain rfl := List.mem_singleton.1 hu'
      refine ⟨u, ⟨List.mem_append_right _ (List.mem_singleton.2 rfl), ?_⟩, rfl, rfl,
        InternTable.resolve?_intern _ _⟩
      simpa [nextInstalled] using hfresh
  case standing_units =>
    rintro id sites unit ⟨hi, hd⟩
    rcases List.mem_append.1 hi with hi | hi
    · obtain ⟨u', hu', hid⟩ := h.standing_units id sites unit
        ⟨hi, fun hd' => hd (List.mem_append_left _ hd')⟩
      exact ⟨u', List.mem_append_left _ hu', hid⟩
    · injection List.mem_singleton.1 hi with hid _ _
      exact ⟨r.nextInstalled u, List.mem_append_right _ (List.mem_singleton.2 rfl), hid.symm⟩

theorem discard (h : r.Tracks history) {id : UnitId} {u : InstalledUnit} (hu : r.unit? id = some u) :
    Tracks (r.discard id).2 (history ++ [.discarded id]) := by
  rw [r.discard_known hu]
  obtain ⟨unit, ⟨hi, -⟩, -⟩ := h.installed_of_unit? hu
  have hpubs : (history ++ [Event.discarded id]).flatMap Event.publications =
      history.flatMap Event.publications := by
    simp [Event.publications]
  constructor
  case ids =>
    rw [hpubs, h.ids, length_clear]
  case table =>
    rw [hpubs]
    apply List.ext_getElem?
    intro k
    change (clear r.table u.deoptIds)[k]? = _
    rw [getElem?_clear, h.table, List.getElem?_map, List.getElem?_map]
    cases hp : (history.flatMap Event.publications)[k]? with
    | none => simp
    | some p =>
      obtain ⟨hmem, hid⟩ := h.publication_iff.1 hp
      rw [← hid]
      by_cases hown : p.owner = some id
      · rw [if_pos ((h.owner_iff hi hmem).1 hown)]
        simp [Publication.slot, Publication.gone, hown]
      · rw [if_neg (mt (h.owner_iff hi hmem).2 hown)]
        have hkept : p.gone [.discarded id] = false := by
          cases ho : p.owner with
          | none => simp [Publication.gone, ho]
          | some owner =>
            have hne : owner ≠ id := fun heq => hown (heq ▸ ho)
            simpa [Publication.gone, ho] using hne
        rw [Option.map_some, Option.map_some, Publication.slot_append hkept]
  case located =>
    intro event he
    rcases List.mem_append.1 he with he | he
    · exact h.located event he
    · obtain rfl := List.mem_singleton.1 he
      simp [Event.records]
  case sites_length =>
    intro id sites unit hi
    exact h.sites_length id sites unit (by simpa using hi)
  case unitIds =>
    simp [Event.unitId?, h.unitIds]
  case discarded_lt =>
    intro id' hd
    rcases List.mem_append.1 hd with hd | hd
    · exact h.discarded_lt id' hd
    · obtain rfl : id' = id := by simpa using hd
      exact h.installed_lt hi
  case units_nodup =>
    exact h.units_nodup.sublist (List.filter_sublist.map _)
  case units_standing =>
    intro u' hu'
    obtain ⟨hu', hne⟩ := List.mem_filter.1 hu'
    obtain ⟨unit, hst, hrest⟩ := h.units_standing u' hu'
    refine ⟨unit, ⟨List.mem_append_left _ hst.1, ?_⟩, hrest⟩
    intro hd
    rcases List.mem_append.1 hd with hd | hd
    · exact hst.2 hd
    · injection List.mem_singleton.1 hd with hid
      simp [hid] at hne
  case standing_units =>
    rintro id' sites unit ⟨hi', hd⟩
    obtain ⟨u', hu', rfl⟩ := h.standing_units id' sites unit
      ⟨by simpa using hi', fun hd' => hd (List.mem_append_left _ hd')⟩
    refine ⟨u', List.mem_filter.2 ⟨hu', ?_⟩, rfl⟩
    have hne : u'.id ≠ id := fun heq => hd (heq ▸ List.mem_append_right _ (List.mem_singleton.2 rfl))
    simpa using hne

end Tracks

end Registry

/-! ## The ledger -/

namespace Ledger

/-- The ledger's history accounts for its registry. -/
def Sound (l : Ledger) : Prop := l.registry.Tracks l.history

variable {l : Ledger}

theorem registry_install (u : CompiledUnit) (l : Ledger) :
    l.registry.install u = ((l.install u).1, (l.install u).2.registry) := rfl

theorem history_install (u : CompiledUnit) (l : Ledger) :
    (l.install u).2.history = l.history ++ ((l.install u).1.toOption.map fun id =>
      Event.installed id ((l.install u).2.registry.sites id) u).toList := rfl

theorem note_error {α : Type} (l : Ledger) (e : EngineError) (event : α → Event) :
    l.note (.error e, l.registry) event = (.error e, l) := by
  simp [note, Except.toOption]

theorem note_ok {α : Type} (l : Ledger) (a : α) (r : Registry) (event : α → Event) :
    l.note (.ok a, r) event = (.ok a, ⟨r, l.history ++ [event a]⟩) := rfl

theorem Sound.publish (h : l.Sound) (record : Record) : (l.publish record).2.Sound := by
  unfold Ledger.publish
  by_cases hr : record.isLocated
  · rw [l.registry.publish_located hr, note_ok]
    exact Registry.Tracks.publish h hr
  · rw [l.registry.publish_unlocated hr, note_error]
    exact h

theorem Sound.install (h : l.Sound) (unit : CompiledUnit) : (l.install unit).2.Sound := by
  unfold Ledger.install
  by_cases hr : ∀ record ∈ unit.records, record.isLocated
  · have hnew := Registry.Tracks.install h hr
    have hunit : (l.registry.install unit).2.unit? ⟨l.registry.nextUnit⟩ =
        some (l.registry.nextInstalled unit) := by
      refine hnew.unit?_eq_some.2 ⟨?_, rfl⟩
      rw [l.registry.install_located hr]
      exact List.mem_append_right _ (List.mem_singleton.2 rfl)
    have hsites : (l.registry.install unit).2.sites ⟨l.registry.nextUnit⟩ =
        (l.registry.nextInstalled unit).deoptIds := by
      rw [Registry.sites, hunit]
      rfl
    rw [← hsites] at hnew
    rw [l.registry.install_located hr] at hnew ⊢
    exact hnew
  · obtain ⟨record, hmem, hloc⟩ : ∃ record ∈ unit.records, ¬ record.isLocated := by simpa using hr
    obtain ⟨first, -, herr⟩ := l.registry.install_unlocated hmem hloc
    rw [herr, note_error]
    exact h

theorem Sound.discard (h : l.Sound) (id : UnitId) : (l.discard id).2.Sound := by
  unfold Ledger.discard
  cases hu : l.registry.unit? id with
  | none =>
    rw [l.registry.discard_unknown hu, note_error]
    exact h
  | some u =>
    have hnew := Registry.Tracks.discard h hu
    rw [l.registry.discard_known hu] at hnew ⊢
    exact hnew

end Ledger

end Bailout
