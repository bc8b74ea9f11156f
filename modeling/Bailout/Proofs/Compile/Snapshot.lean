import Bailout.Proofs.Compile
import Bailout.Frame.Basic

/-!
# Snapshots of compiled code

A word written to a snapshot is read back, and every other word stays, whether or not the area had to
grow. A unit keeps different registers in different locations. So the words of its registers can be
written in any order, and each live value then reads the word of its register: `compile_snapshot`. All
locations are inside the registers of the budget and the native frame.
-/

namespace Bailout

/-- The location of one word: a machine register, or a whole number of words into the spill area. -/
def Location.IsWord : Location → Prop
  | .reg _ => True
  | .spill offset => ∃ k : Nat, offset = (k * wordSize : Nat)

namespace Snapshot

variable {s s' : Snapshot} {loc loc' : Location} {w w' : Word} {words : List Word} {j k : Nat}
  {writes : List (Location × Word)}

/-! ## Words -/

theorem getElem?_write_self (words : List Word) (k : Nat) (w : Word) :
    (write words k w)[k]? = some w := by
  unfold write
  rw [List.getElem?_set_self]
  rw [List.length_append, List.length_replicate]
  omega

theorem getElem?_write_of_ne (hne : j ≠ k) (h : words[j]? = some w') :
    (write words k w)[j]? = some w' := by
  have hlt : j < words.length := (List.getElem?_eq_some_iff.1 h).1
  unfold write
  rw [List.getElem?_set_ne (Ne.symm hne), List.getElem?_append_left hlt, h]

theorem spillIndex_eq_ok {offset : Int} :
    spillIndex offset = .ok k ↔ offset = (k * wordSize : Nat) := by
  unfold spillIndex wordSize
  split
  · rw [Except.ok.injEq]
    omega
  · constructor
    · intro h
      cases h
    · omega

/-! ## Locations -/

theorem read_eq_ok : s.read loc = .ok w ↔ (∃ n, loc = .reg n ∧ s.regs[n]? = some w) ∨
    ∃ k : Nat, loc = .spill (k * wordSize : Nat) ∧ s.spill[k]? = some w := by
  unfold read
  cases loc with
  | reg n =>
    cases hn : s.regs[n]? with
    | none => simp [hn]
    | some x => simp [hn]
  | spill offset =>
    constructor
    · intro h
      obtain ⟨k, hk, h⟩ := bind_eq_ok.1 h
      refine .inr ⟨k, congrArg _ (spillIndex_eq_ok.1 hk), ?_⟩
      cases hw : s.spill[k]? with
      | none => simp [hw] at h
      | some x => simpa [hw] using h
    · rintro (⟨n, hloc, -⟩ | ⟨k, hloc, hw⟩)
      · cases hloc
      · have hk := spillIndex_eq_ok.2 (Location.spill.inj hloc)
        simp [hk, hw]

theorem set_eq_ok : s.set loc w = .ok s' ↔
    (∃ n, loc = .reg n ∧ s' = { s with regs := write s.regs n w }) ∨
      ∃ k : Nat, loc = .spill (k * wordSize : Nat) ∧ s' = { s with spill := write s.spill k w } := by
  unfold set
  cases loc with
  | reg n => simp [eq_comm]
  | spill offset =>
    rw [bind_eq_ok]
    constructor
    · rintro ⟨k, hk, h⟩
      exact .inr ⟨k, congrArg _ (spillIndex_eq_ok.1 hk), (Except.ok.inj h).symm⟩
    · rintro (⟨n, hloc, -⟩ | ⟨k, hloc, rfl⟩)
      · cases hloc
      · exact ⟨k, spillIndex_eq_ok.2 (Location.spill.inj hloc), rfl⟩

theorem set_ok (s : Snapshot) (hloc : loc.IsWord) (w : Word) : ∃ s', s.set loc w = .ok s' := by
  cases loc with
  | reg n => exact ⟨_, set_eq_ok.2 (.inl ⟨n, rfl, rfl⟩)⟩
  | spill offset =>
    obtain ⟨k, rfl⟩ := hloc
    exact ⟨_, set_eq_ok.2 (.inr ⟨k, rfl, rfl⟩)⟩

theorem read_set_self (h : s.set loc w = .ok s') : s'.read loc = .ok w := by
  rw [read_eq_ok]
  obtain ⟨n, rfl, rfl⟩ | ⟨k, rfl, rfl⟩ := set_eq_ok.1 h
  · exact .inl ⟨n, rfl, getElem?_write_self _ _ _⟩
  · exact .inr ⟨k, rfl, getElem?_write_self _ _ _⟩

theorem read_set_of_ne (h : s.set loc w = .ok s') (hne : loc' ≠ loc) (hr : s.read loc' = .ok w') :
    s'.read loc' = .ok w' := by
  rw [read_eq_ok] at hr ⊢
  obtain ⟨n, rfl, rfl⟩ | ⟨k, rfl, rfl⟩ := set_eq_ok.1 h
  · obtain ⟨m, rfl, hm⟩ | hspill := hr
    · have hmn : m ≠ n := fun heq => hne (congrArg _ heq)
      exact .inl ⟨m, rfl, getElem?_write_of_ne hmn hm⟩
    · exact .inr hspill
  · obtain hreg | ⟨j, rfl, hj⟩ := hr
    · exact .inl hreg
    · have hjk : j ≠ k := by
        rintro rfl
        exact hne rfl
      exact .inr ⟨j, rfl, getElem?_write_of_ne hjk hj⟩

/-! ## Several writes -/

theorem setAll_cons_eq_ok {p : Location × Word} :
    s.setAll (p :: writes) = .ok s' ↔ ∃ t, s.set p.1 p.2 = .ok t ∧ t.setAll writes = .ok s' := by
  rw [setAll, bind_eq_ok]

theorem setAll_ok (s : Snapshot) (h : ∀ p ∈ writes, p.1.IsWord) : ∃ s', s.setAll writes = .ok s' := by
  induction writes generalizing s with
  | nil => exact ⟨s, rfl⟩
  | cons p rest ih =>
    rw [List.forall_mem_cons] at h
    obtain ⟨t, ht⟩ := s.set_ok h.1 p.2
    obtain ⟨s', hs'⟩ := ih t h.2
    exact ⟨s', setAll_cons_eq_ok.2 ⟨t, ht, hs'⟩⟩

/-- A word stays when every later write to its location writes the same. -/
theorem read_setAll_of_read (h : s.setAll writes = .ok s') (hr : s.read loc = .ok w)
    (hall : ∀ p ∈ writes, p.1 = loc → p.2 = w) : s'.read loc = .ok w := by
  induction writes generalizing s with
  | nil =>
    obtain rfl := Except.ok.inj h
    exact hr
  | cons p rest ih =>
    rw [List.forall_mem_cons] at hall
    obtain ⟨t, ht, h⟩ := setAll_cons_eq_ok.1 h
    refine ih h ?_ hall.2
    by_cases hp : p.1 = loc
    · rw [← hp, ← hall.1 hp]
      exact read_set_self ht
    · exact read_set_of_ne ht (Ne.symm hp) hr

/-- A word is read back when every write to its location writes the same. -/
theorem read_setAll_of_mem (h : s.setAll writes = .ok s') (hm : (loc, w) ∈ writes)
    (hall : ∀ p ∈ writes, p.1 = loc → p.2 = w) : s'.read loc = .ok w := by
  induction writes generalizing s with
  | nil => exact absurd hm List.not_mem_nil
  | cons p rest ih =>
    rw [List.forall_mem_cons] at hall
    obtain ⟨t, ht, h⟩ := setAll_cons_eq_ok.1 h
    rcases List.mem_cons.1 hm with hp | hm
    · rw [← hp] at ht
      exact read_setAll_of_read h (read_set_self ht) hall.2
    · exact ih h hm hall.2

end Snapshot

/-! ## Layouts -/

namespace Layout

variable {budget slotSize : Nat} {regs rs : List Reg} {l : Layout} {r : Reg} {loc : Location}
  {σ : Reg → Word}

/-- The writes that put the words of registers, in the order given, into their locations. -/
def writes (l : Layout) (σ : Reg → Word) (rs : List Reg) : List (Location × Word) :=
  rs.filterMap fun r => (l.location? r).map fun loc => (loc, σ r)

theorem mem_writes {p : Location × Word} :
    p ∈ l.writes σ rs ↔ ∃ r ∈ rs, l.location? r = some p.1 ∧ p.2 = σ r := by
  unfold writes
  rw [List.mem_filterMap]
  refine exists_congr fun r => and_congr_right fun _ => ?_
  rw [Option.map_eq_some_iff]
  constructor
  · rintro ⟨loc, hloc, rfl⟩
    exact ⟨hloc, rfl⟩
  · rintro ⟨hloc, hword⟩
    exact ⟨p.1, hloc, by rw [← hword]⟩

theorem Dense.isWord (hd : l.Dense budget slotSize regs) (hpos : 0 < slotSize)
    (hword : slotSize % wordSize = 0) (h : l.location? r = some loc) : loc.IsWord := by
  cases loc with
  | reg n => trivial
  | spill offset =>
    obtain ⟨hnonneg, hmod, -⟩ := hd.spill_mem hpos hword h
    refine ⟨(offset / wordSize).toNat, ?_⟩
    unfold wordSize at hmod ⊢
    omega

/-- All writes to a location write the word of the register that is kept there. -/
theorem Dense.word_of_mem_writes (hd : l.Dense budget slotSize regs) (hpos : 0 < slotSize)
    (h : l.location? r = some loc) : ∀ p ∈ l.writes σ rs, p.1 = loc → p.2 = σ r := by
  rintro p hp rfl
  obtain ⟨r', -, hr', hword⟩ := mem_writes.1 hp
  rw [hword, hd.injective hpos hr' h]

/-- The registers of the budget and the words of the frame hold every location. -/
theorem Dense.read_ok (hd : l.Dense budget slotSize regs) (hpos : 0 < slotSize)
    (hword : slotSize % wordSize = 0) (h : l.location? r = some loc) {s : Snapshot}
    (hregs : budget ≤ s.regs.length) (hspill : l.frameSize / wordSize ≤ s.spill.length) :
    ∃ w, s.read loc = .ok w := by
  obtain ⟨k, hk, -, rfl⟩ | ⟨k, -, -, rfl⟩ := hd.cases h
  · have hlt : k < s.regs.length := by omega
    exact ⟨_, Snapshot.read_eq_ok.2 (.inl ⟨k, rfl, List.getElem?_eq_getElem hlt⟩)⟩
  · obtain ⟨j, hj⟩ := hd.isWord hpos hword h
    have hend := (hd.spill_mem hpos hword h).2.2
    have hlt : j < s.spill.length := by
      rw [hj] at hend
      unfold wordSize at hend hspill
      omega
    rw [hj]
    exact ⟨_, Snapshot.read_eq_ok.2 (.inr ⟨j, rfl, List.getElem?_eq_getElem hlt⟩)⟩

end Layout

namespace Function

variable {f : Function} {settings : Settings} {nonce last : Nat} {u : CompiledUnit}

/-- **Snapshots of a unit read back.** However the words of all registers of the layout are written,
each live value of each record reads the word of its register, and all other words are as before. A
snapshot with the registers of the budget and the words of the frame can be read at every live value. -/
theorem compile_snapshot (h : f.compile settings nonce = .ok (.ok u, last)) :
    (∀ (σ : Reg → Word) (s : Snapshot) (rs : List Reg), (∀ r, (u.layout.location? r).isSome → r ∈ rs) →
      ∃ s', s.setAll (u.layout.writes σ rs) = .ok s' ∧
        (∀ record ∈ u.records, ∀ v ∈ record.live,
          ∃ loc, v.location = some loc ∧ s'.read loc = .ok (σ v.reg)) ∧
        ∀ loc w, (∀ r, u.layout.location? r ≠ some loc) → s.read loc = .ok w → s'.read loc = .ok w) ∧
    ∀ s : Snapshot, (f.code.isGeneratorLike = false → settings.registerBudget ≤ s.regs.length) →
      u.frameSize / wordSize ≤ s.spill.length →
      ∀ record ∈ u.records, ∀ v ∈ record.live, ∃ loc w, v.location = some loc ∧ s.read loc = .ok w := by
  obtain ⟨hpos, hword, regs, hd⟩ := dense_of_compile h
  constructor
  · intro σ s rs hall
    have hwords : ∀ p ∈ u.layout.writes σ rs, p.1.IsWord := by
      intro p hp
      obtain ⟨r, -, hr, -⟩ := Layout.mem_writes.1 hp
      exact hd.isWord hpos hword hr
    obtain ⟨s', hs'⟩ := s.setAll_ok hwords
    refine ⟨s', hs', fun record hrecord v hv => ?_, fun loc w hout hread => ?_⟩
    · obtain ⟨loc, hloc, hreg⟩ := location_of_compile h hrecord hv
      have hmem : (loc, σ v.reg) ∈ u.layout.writes σ rs :=
        Layout.mem_writes.2 ⟨v.reg, hall _ (Option.isSome_of_eq_some hreg), hreg, rfl⟩
      exact ⟨loc, hloc, Snapshot.read_setAll_of_mem hs' hmem (hd.word_of_mem_writes hpos hreg)⟩
    · refine Snapshot.read_setAll_of_read hs' hread fun p hp heq => ?_
      obtain ⟨r, -, hr, -⟩ := Layout.mem_writes.1 hp
      exact absurd (heq ▸ hr) (hout r)
  · intro s hregs hspill record hrecord v hv
    obtain ⟨loc, hloc, hreg⟩ := location_of_compile h hrecord hv
    have hbudget : Layout.budgetOf settings f.code.isGeneratorLike ≤ s.regs.length := by
      unfold Layout.budgetOf
      cases hgen : f.code.isGeneratorLike with
      | true => exact Nat.zero_le _
      | false => exact hregs hgen
    obtain ⟨w, hw⟩ := hd.read_ok hpos hword hreg hbudget hspill
    exact ⟨loc, w, hloc, hw⟩

end Function

/-! ## Three arguments, one machine register, spill slots of two words -/

namespace Saved

def code : CodeUnit :=
  { id := ⟨1⟩, name := "f", locals := ["x", "y", "z"], stackSize := 2, length := 16 }

def argument (n : Nat) : Instr :=
  { kind := .loadArg n, operands := [], output := some ⟨n⟩, block := some ⟨0⟩ }

def guard : Instr where
  kind := .guard
  operands := [⟨0⟩]
  output := none
  block := some ⟨0⟩
  frameState := some ⟨{ code, offset := ⟨0⟩, locals := [some ⟨0⟩, some ⟨1⟩, some ⟨2⟩] }, []⟩
  deopt := some { live := [⟨⟨0⟩, .owned, .object⟩, ⟨⟨1⟩, .owned, .object⟩, ⟨⟨2⟩, .owned, .object⟩] }

def func : Function where
  name := "f"
  code
  env := ⟨[.top, .top, .top]⟩
  graph := ⟨[some ⟨⟨0⟩, [argument 0, argument 1, argument 2, guard,
    { kind := .ret, operands := [⟨0⟩], output := none, block := some ⟨0⟩ }]⟩], ⟨0⟩⟩

def settings : Settings := { registerBudget := 1, slotSize := 16 }

def layout : Layout where
  locations := [(⟨0⟩, .reg 0), (⟨1⟩, .spill 0), (⟨2⟩, .spill 16)]
  spillSlots := 2
  frameSize := 32

theorem compile : ∃ u, func.compile settings 0 = .ok (.ok u, 1) ∧ u.layout = layout :=
  have order : func.graph.order = [⟨0⟩] := Graph.order_of_leaf rfl
  have validate := Function.validate_of_order order rfl rfl
  ⟨_, Function.compile_of_sites validate (Function.deoptSites_of_order order) rfl rfl, rfl⟩

theorem location? (r : Reg) : layout.location? r =
    [some (.reg 0), some (.spill 0), some (.spill 16)].getD r.index none := by
  obtain ⟨n⟩ := r
  match n with
  | 0 | 1 | 2 => rfl
  | n + 3 => simp [layout, Layout.location?]

end Saved

/-- The spill area is too short for the last register, and the second half of the first slot is kept. -/
theorem compile_snapshot_saved : ∃ u s', Saved.func.compile Saved.settings 0 = .ok (.ok u, 1) ∧
    Snapshot.setAll ⟨[], [2, 3]⟩ (u.layout.writes (fun r => .ofNat (40 + r.index)) [⟨2⟩, ⟨0⟩, ⟨1⟩]) =
      .ok s' ∧
    (∀ record ∈ u.records, ∀ v ∈ record.live,
      ∃ loc, v.location = some loc ∧ s'.read loc = .ok (.ofNat (40 + v.reg.index))) ∧
    s'.read (.spill 8) = .ok 3 ∧
    ∀ record ∈ u.records, ∀ v ∈ record.live,
      ∃ loc w, v.location = some loc ∧ Snapshot.read ⟨[1], [2, 3, 4, 5]⟩ loc = .ok w := by
  obtain ⟨u, hu, hlayout⟩ := Saved.compile
  obtain ⟨hback, hroom⟩ := Function.compile_snapshot hu
  have hall : ∀ r, (u.layout.location? r).isSome → r ∈ ([⟨2⟩, ⟨0⟩, ⟨1⟩] : List Reg) := by
    rw [hlayout]
    rintro ⟨n⟩ hr
    match n with
    | 0 | 1 | 2 => decide
    | n + 3 => simp [Saved.location?] at hr
  have hout : ∀ r, u.layout.location? r ≠ some (.spill 8) := by
    rw [hlayout]
    rintro ⟨n⟩
    match n with
    | 0 | 1 | 2 => decide
    | n + 3 => simp [Saved.location?]
  obtain ⟨s', hs', hlive, hkept⟩ := hback (fun r => .ofNat (40 + r.index)) ⟨[], [2, 3]⟩ _ hall
  refine ⟨u, s', hu, hs', hlive, hkept _ 3 hout rfl, hroom _ (fun _ => by decide) ?_⟩
  unfold CompiledUnit.frameSize
  rw [hlayout]
  decide

end Bailout
