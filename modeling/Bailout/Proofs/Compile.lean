import Bailout.Compile
import Bailout.Proofs.Graph.Order
import Bailout.Proofs.Layout.Assign
import Bailout.Proofs.Record.RoundTrip
import Bailout.Proofs.Validation

/-!
# Checked code compiles

A checked function compiles, given settings that fit, unless it blames a register that it does not
have: the checks read every register an instruction uses, but not the blamed one.
-/

namespace Bailout

/-- The registers to recover where an instruction leaves compiled code: each live one once, then the
blamed one if it is not live. -/
def Instr.recovered (i : Instr) : List Reg :=
  (LiveReg.distinct i.live).map (·.reg) ++ (i.guilty?.filter fun g => (i.live? g).isNone).toList

namespace Function

variable {f : Function} {i : Instr} {nonce : Nat}

/-- The instructions that can leave compiled code, in reachable blocks. -/
def deoptInstrs (f : Function) : List Instr := f.deoptSites.filterMap fun s => (f.instr s).toOption

/-- The registers to recover somewhere, in order of use. -/
def recovered (f : Function) : List Reg := f.deoptInstrs.flatMap Instr.recovered

/-- Every instruction has the operands its kind asks for. -/
def WellFormed (f : Function) : Prop :=
  ∀ i ∈ f.instrs, i.kind.operandCount = .ok i.operands.length

/-- A live method lookup on an operand stack has a live receiver. -/
def ReceiversLive (f : Function) (i : Instr) : Prop :=
  ∀ fs, i.frameState = some fs → ∀ a ∈ fs.frames, ∀ r ∈ a.stack, (i.live? r).isSome →
    ∀ d self, f.lookup? r = some d → d.operands[0]? = some self → (i.live? self).isSome

/-- The blamed register, if there is one, is live or at least a register of the function. -/
def BlameKnown (f : Function) (i : Instr) : Prop :=
  ∀ g, i.guilty? = some g → (i.live? g).isSome ∨ f.env.contains g

/-! ## One record -/

theorem operandCount_loadMethod {k : InstrKind} (h : k.opcode = .loadMethod) :
    k.operandCount = .ok 1 := by
  cases k with
  | loadMethod name => rfl
  | _ => cases h

theorem operand_of_lookup? (hf : f.WellFormed) {r : Reg} {d : Instr} (h : f.lookup? r = some d) :
    ∃ self, d.operand 0 = .ok self ∧ d.operands[0]? = some self := by
  unfold lookup? at h
  obtain ⟨hdef, hop⟩ := Option.filter_eq_some_iff.1 h
  have hmem : d ∈ f.instrs := List.mem_reverse.1 (List.mem_of_find?_eq_some hdef)
  have hlen : d.operands.length = 1 := by
    have hcount := hf d hmem
    rw [operandCount_loadMethod (of_decide_eq_true hop)] at hcount
    simpa using hcount.symm
  obtain ⟨self, hself⟩ := List.length_eq_one_iff.1 hlen
  exact ⟨self, by simp [Instr.operand, hself], by simp [hself]⟩

theorem frameRecord_ok (hf : f.WellFormed) (hr : f.ReceiversLive i) {fs : FrameState}
    (hfs : i.frameState = some fs) {a : Activation} (ha : a ∈ fs.frames) :
    ∃ fr, f.frameRecord (LiveReg.distinct i.live) a = .ok fr := by
  have hstack : ∀ r ∈ a.stack, ∃ e, f.stackEntry (LiveReg.distinct i.live) a r = .ok e := by
    intro r hra
    rw [stackEntry_eq]
    cases hd : f.lookup? r with
    | none => exact ⟨_, rfl⟩
    | some d =>
      obtain ⟨self, hop, hself⟩ := operand_of_lookup? hf hd
      simp only [hop, ok_bind, LiveReg.indexOf_distinct_eq_dead]
      cases hlive : i.live? r with
      | none => exact ⟨_, rfl⟩
      | some l =>
        have hsome := hr fs hfs a ha r hra (by simp [hlive]) d self hd hself
        simp [Option.isSome_iff_ne_none.1 hsome]
  obtain ⟨stack, hs⟩ := mapM_ok hstack
  exact ⟨_, by simp only [frameRecord, hs, ok_bind]; rfl⟩

theorem typeOf_ok {g : Reg} (h : f.env.contains g) : ∃ ty, f.env.typeOf g = .ok ty := by
  have hlt : g.index < f.env.types.length := by simpa [Env.contains] using h
  exact ⟨f.env.types[g.index], by simp [Env.typeOf, Env.typeOf?, hlt]⟩

theorem typeOf_unknown {g : Reg} (h : ¬ f.env.contains g) :
    f.env.typeOf g = .error (.unknownRegister g) := by
  have hge : f.env.types.length ≤ g.index := by simpa [Env.contains] using h
  simp [Env.typeOf, Env.typeOf?, hge]

theorem buildRecord_ok (hf : f.WellFormed) (hr : f.ReceiversLive i) (hb : f.BlameKnown i)
    {fs : FrameState} (hfs : i.frameState = some fs) (nonce : Nat) :
    ∃ rec, f.buildRecord i nonce = .ok (.ok rec) := by
  have hcapture : ∃ captured, f.capture i = .ok captured := by
    unfold capture
    split
    · next g hg =>
      obtain ⟨hg, hnone⟩ := Option.filter_eq_some_iff.1 hg
      obtain ⟨ty, hty⟩ := typeOf_ok ((hb g hg).resolve_left (by simpa using hnone))
      exact ⟨_, by simp only [liveReg, hty]; rfl⟩
    · exact ⟨_, rfl⟩
  obtain ⟨captured, hc⟩ := hcapture
  obtain ⟨frames, hframes⟩ := mapM_ok fun a ha => frameRecord_ok hf hr hfs ha
  exact ⟨_, by rw [buildRecord_eq nonce hfs, hc, ok_bind, hframes]; rfl⟩

/-- A blamed register that is neither live nor known stops the compilation. -/
theorem buildRecord_unknown (hb : ¬ f.BlameKnown i) {fs : FrameState} (hfs : i.frameState = some fs)
    (nonce : Nat) :
    ∃ g, i.guilty? = some g ∧ ¬ f.env.contains g ∧
      f.buildRecord i nonce = .error (.unknownRegister g) := by
  unfold BlameKnown at hb
  push Not at hb
  obtain ⟨g, hg, hlive, henv⟩ := hb
  refine ⟨g, hg, by simpa using henv, ?_⟩
  have hnone : i.live? g = none := by simpa using hlive
  have hcapture : f.capture i = .error (.unknownRegister g) := by
    simp [capture, hg, hnone, Option.filter_some, liveReg, typeOf_unknown henv, Except.map]
  rw [buildRecord_eq nonce hfs, hcapture, error_bind]

/-! ## All records -/

/-- The records come in the order of the sites, each under the next nonce. -/
theorem buildRecords_eq_ok {sites : List Site} {records : List Record} {last : Nat}
    (h : f.buildRecords sites nonce = .ok (.ok records, last)) :
    last = nonce + sites.length ∧ List.Forall₂ (fun p rec => ∃ i, f.instr p.1 = .ok i ∧
      f.buildRecord i p.2 = .ok (.ok rec)) (sites.zipIdx nonce) records := by
  induction sites generalizing nonce records with
  | nil =>
    obtain ⟨rfl, rfl⟩ : [] = records ∧ nonce = last := by simpa [buildRecords] using h
    exact ⟨rfl, .nil⟩
  | cons s rest ih =>
    simp only [buildRecords] at h
    obtain ⟨i, hi, h⟩ := bind_eq_ok.1 h
    obtain ⟨built, hbuilt, h⟩ := bind_eq_ok.1 h
    cases built with
    | error e => simp at h
    | ok rec =>
      obtain ⟨⟨result, n⟩, hrest, h⟩ := bind_eq_ok.1 h
      cases result with
      | error e => simp [Except.map] at h
      | ok recs =>
        obtain ⟨rfl, rfl⟩ : rec :: recs = records ∧ n = last := by simpa [Except.map] using h
        obtain ⟨rfl, hrecs⟩ := ih hrest
        refine ⟨by simp [Nat.add_assoc, Nat.add_comm 1], ?_⟩
        exact .cons ⟨i, hi, hbuilt⟩ hrecs

/-- A place for which a record can be built, if the blamed register is known. -/
def Recordable (f : Function) (s : Site) : Prop :=
  ∃ i fs, f.instr s = .ok i ∧ i.frameState = some fs ∧ f.ReceiversLive i

theorem buildRecords_ok {sites : List Site} (hf : f.WellFormed) (hs : ∀ s ∈ sites, f.Recordable s)
    (hb : ∀ s ∈ sites, ∀ i, f.instr s = .ok i → f.BlameKnown i) (nonce : Nat) :
    ∃ records, f.buildRecords sites nonce = .ok (.ok records, nonce + sites.length) := by
  induction sites generalizing nonce with
  | nil => exact ⟨[], rfl⟩
  | cons s rest ih =>
    rw [List.forall_mem_cons] at hs hb
    obtain ⟨⟨i, fs, hi, hfs, hr⟩, hs⟩ := hs
    obtain ⟨rec, hrec⟩ := buildRecord_ok hf hr (hb.1 i hi) hfs nonce
    obtain ⟨records, hrest⟩ := ih hs hb.2 (nonce + 1)
    refine ⟨rec :: records, ?_⟩
    simp [buildRecords, hi, hrec, hrest, Except.map, Nat.add_assoc, Nat.add_comm 1]

/-- The first place that blames an unknown register stops the compilation. -/
theorem buildRecords_unknown {sites : List Site} (hf : f.WellFormed)
    (hs : ∀ s ∈ sites, f.Recordable s)
    (hb : ∃ s ∈ sites, ∃ i, f.instr s = .ok i ∧ ¬ f.BlameKnown i) (nonce : Nat) :
    ∃ g, ¬ f.env.contains g ∧ f.buildRecords sites nonce = .error (.unknownRegister g) := by
  induction sites generalizing nonce with
  | nil => simp at hb
  | cons s rest ih =>
    rw [List.forall_mem_cons] at hs
    obtain ⟨⟨i, fs, hi, hfs, hr⟩, hs⟩ := hs
    by_cases hk : f.BlameKnown i
    · obtain ⟨rec, hrec⟩ := buildRecord_ok hf hr hk hfs nonce
      have hrest : ∃ s ∈ rest, ∃ i, f.instr s = .ok i ∧ ¬ f.BlameKnown i := by
        obtain ⟨s', hs', i', hi', hk'⟩ := hb
        rcases List.mem_cons.1 hs' with rfl | hs'
        · obtain rfl : i = i' := by simpa [hi] using hi'
          exact absurd hk hk'
        · exact ⟨s', hs', i', hi', hk'⟩
      obtain ⟨g, hg, hstop⟩ := ih hs hrest (nonce + 1)
      exact ⟨g, hg, by simp [buildRecords, hi, hrec, hstop]⟩
    · obtain ⟨g, -, hg, hstop⟩ := buildRecord_unknown hk hfs nonce
      exact ⟨g, hg, by simp [buildRecords, hi, hstop]⟩

/-! ## Registers to recover -/

theorem map_reg_live {rec : Record} (h : f.buildRecord i nonce = .ok (.ok rec)) :
    rec.live.map (·.reg) = i.recovered := by
  obtain ⟨fs, captured, -, hc, -, hlive, -⟩ := buildRecord_eq_ok h
  have hregs : rec.live.map (·.reg) = (rec.live.map LiveValue.liveReg).map (·.reg) := by
    simp [LiveValue.liveReg, Function.comp_def]
  rw [hregs, map_liveReg_marked hlive, List.map_append, (capture_eq_ok hc).1]
  rfl

/-- The layout sees the registers that the instructions ask for. -/
theorem recovered_eq {records : List Record} {last : Nat}
    (h : f.buildRecords f.deoptSites nonce = .ok (.ok records, last)) :
    Layout.recovered records = f.recovered := by
  unfold recovered deoptInstrs Layout.recovered
  obtain ⟨-, hrecs⟩ := buildRecords_eq_ok h
  clear h
  generalize f.deoptSites = sites at hrecs
  induction sites generalizing nonce records with
  | nil =>
    cases hrecs
    rfl
  | cons s rest ih =>
    rw [List.zipIdx_cons] at hrecs
    cases hrecs with
    | @cons _ rec _ recs hhead htail =>
      obtain ⟨i, hi, hrec⟩ := hhead
      simp [hi, Except.toOption, map_reg_live hrec, ih htail]

end Function

/-- What settings must satisfy for a function: word-sized spill slots, a budget that machine registers
can have, and spill offsets that fit. -/
structure Settings.Fits (settings : Settings) (f : Function) : Prop where
  positive : settings.slotSize ≠ 0
  word : settings.slotSize % wordSize = 0
  size : settings.slotSize < 0x10000000000000000
  budget : settings.registerBudget ≤ 256
  spill : Layout.SpillFits (if f.code.isGeneratorLike then 0 else settings.registerBudget)
    settings.slotSize f.recovered.eraseDups.length

namespace Function

variable {f : Function} {settings : Settings}

theorem mem_deoptInstrs {i : Instr} :
    i ∈ f.deoptInstrs ↔ ∃ s ∈ f.deoptSites, f.instr s = .ok i := by
  simp only [deoptInstrs, List.mem_filterMap]
  refine exists_congr fun s => and_congr_right fun _ => ?_
  cases f.instr s <;> simp [Except.toOption]

theorem recordable_of_validate (hv : f.validate = .ok ()) (hr : ∀ i ∈ f.deoptInstrs, f.ReceiversLive i)
    {s : Site} (hs : s ∈ f.deoptSites) : f.Recordable s := by
  obtain ⟨i, hi⟩ := instr_of_mem_deoptSites hs
  obtain ⟨fs, hfs, -⟩ := frameState_of_validate hv hs hi
  exact ⟨i, fs, hi, hfs, hr i (mem_deoptInstrs.2 ⟨s, hs, hi⟩)⟩

theorem precheck_of_validate (hv : f.validate = .ok ()) : f.precheck settings = .ok () := by
  unfold precheck
  rw [hv]
  split <;> rfl

theorem compile_of_sites {sites : List Site} {nonce last : Nat} {records located : List Record}
    {layout : Layout} (hv : f.validate = .ok ()) (hsites : f.deoptSites = sites)
    (hbuilt : f.buildRecords sites nonce = .ok (.ok records, last))
    (hassigned : Layout.assign records settings f.code.isGeneratorLike = .ok (.ok (layout, located))) :
    f.compile settings nonce =
      .ok (.ok { name := f.name, code := f.code, records := located, sites, layout }, last) := by
  unfold compile finish
  rw [precheck_of_validate hv, hsites]
  simp only [hbuilt, hassigned, ok_bind]
  rfl

theorem finish_ok (hs : settings.Fits f) {records : List Record}
    (hr : Layout.recovered records = f.recovered) :
    ∃ u, f.finish settings records = .ok (.ok u) := by
  have hbudget : Layout.budgetOf settings f.code.isGeneratorLike ≤ 256 := by
    unfold Layout.budgetOf
    split
    · omega
    · exact hs.budget
  have hl := Layout.assign_ok hs.positive hs.word hs.size hbudget (by rw [hr]; exact hs.spill)
  exact ⟨_, by simp only [finish, hl, ok_bind]; rfl⟩

theorem assign_of_finish {records : List Record} {u : CompiledUnit}
    (h : f.finish settings records = .ok (.ok u)) :
    Layout.assign records settings f.code.isGeneratorLike = .ok (.ok (u.layout, u.records)) ∧
      u.sites = f.deoptSites := by
  obtain ⟨assigned, hassign, h⟩ := bind_eq_ok.1 h
  cases assigned with
  | error e => simp at h
  | ok p =>
    obtain ⟨layout, filled⟩ := p
    obtain rfl := Except.ok.inj (Except.ok.inj h)
    exact ⟨hassign, rfl⟩

theorem finish_eq_ok {records : List Record} {u : CompiledUnit}
    (h : f.finish settings records = .ok (.ok u)) :
    u.sites = f.deoptSites ∧ u.records = records.map u.layout.fill ∧
      ∀ r ∈ Layout.recovered records, (u.layout.location? r).isSome := by
  obtain ⟨hassign, hsites⟩ := assign_of_finish h
  exact ⟨hsites, Layout.assign_eq_ok hassign⟩

/-- A finished unit can be installed: all its values have locations. -/
theorem isLocated_of_finish {records : List Record} {u : CompiledUnit}
    (h : f.finish settings records = .ok (.ok u)) :
    ∀ r ∈ u.records, r.isLocated := by
  obtain ⟨-, hrecords, hlocated⟩ := finish_eq_ok h
  intro r hr
  rw [hrecords] at hr
  obtain ⟨built, hbuilt, rfl⟩ := List.mem_map.1 hr
  simp only [Record.isLocated, Layout.fill, List.all_map, List.all_eq_true]
  intro v hv
  exact hlocated v.reg (List.mem_flatMap.2 ⟨built, hbuilt, List.mem_map_of_mem hv⟩)

theorem finish_of_compile {nonce last : Nat} {u : CompiledUnit}
    (h : f.compile settings nonce = .ok (.ok u, last)) :
    ∃ records, f.buildRecords f.deoptSites nonce = .ok (.ok records, last) ∧
      f.finish settings records = .ok (.ok u) := by
  unfold compile at h
  split at h
  · simp at h
  · obtain ⟨⟨result, n⟩, hbuild, h⟩ := bind_eq_ok.1 h
    cases result with
    | error e => simp at h
    | ok records =>
      obtain ⟨finished, hfinish, h⟩ := bind_eq_ok.1 h
      obtain ⟨rfl, rfl⟩ : finished = .ok u ∧ n = last := by simpa using h
      exact ⟨records, hbuild, hfinish⟩

/-- What a compiled unit holds: the records of all sites, with locations filled in. -/
theorem compile_eq_ok {nonce last : Nat} {u : CompiledUnit}
    (h : f.compile settings nonce = .ok (.ok u, last)) :
    ∃ records, f.buildRecords f.deoptSites nonce = .ok (.ok records, last) ∧
      u.sites = f.deoptSites ∧ u.records = records.map u.layout.fill ∧
      ∀ r ∈ Layout.recovered records, (u.layout.location? r).isSome := by
  obtain ⟨records, hbuild, hfinish⟩ := finish_of_compile h
  exact ⟨records, hbuild, finish_eq_ok hfinish⟩

/-- The layout of a unit is dense, with machine registers only where the unit does not spill everything. -/
theorem dense_of_compile {nonce last : Nat} {u : CompiledUnit}
    (h : f.compile settings nonce = .ok (.ok u, last)) :
    0 < settings.slotSize ∧ settings.slotSize % wordSize = 0 ∧ ∃ regs,
      u.layout.Dense (Layout.budgetOf settings f.code.isGeneratorLike) settings.slotSize regs := by
  obtain ⟨records, -, hfinish⟩ := finish_of_compile h
  obtain ⟨hpos, hword, -, hlayout, -⟩ := Layout.assign_eq_finished (assign_of_finish hfinish).1
  refine ⟨hpos, hword, (Layout.recovered records).eraseDups, ?_⟩
  rw [hlayout]
  exact Layout.dense_finished (Layout.nodup_eraseDups _)

theorem location_of_compile {nonce last : Nat} {u : CompiledUnit}
    (h : f.compile settings nonce = .ok (.ok u, last)) {record : Record} (hr : record ∈ u.records)
    {v : LiveValue} (hv : v ∈ record.live) :
    ∃ loc, v.location = some loc ∧ u.layout.location? v.reg = some loc := by
  obtain ⟨records, -, -, hrecords, hlocated⟩ := compile_eq_ok h
  rw [hrecords] at hr
  obtain ⟨built, hbuilt, rfl⟩ := List.mem_map.1 hr
  obtain ⟨source, hsource, rfl⟩ := List.mem_map.1 hv
  obtain ⟨loc, hloc⟩ := Option.isSome_iff_exists.1
    (hlocated source.reg (List.mem_flatMap.2 ⟨built, hbuilt, List.mem_map_of_mem hsource⟩))
  exact ⟨loc, hloc, hloc⟩

/-- Every site has a record, built from its instruction, and every live value of it has a location. -/
theorem record_of_compile {nonce last : Nat} {u : CompiledUnit}
    (h : f.compile settings nonce = .ok (.ok u, last)) {k : Nat} {s : Site}
    (hs : u.sites[k]? = some s) :
    s ∈ f.deoptSites ∧ ∃ i built, f.instr s = .ok i ∧
      f.buildRecord i (nonce + k) = .ok (.ok built) ∧ u.records[k]? = some (u.layout.fill built) ∧
      ∀ v ∈ built.live, (u.layout.location? v.reg).isSome := by
  obtain ⟨records, hbuild, hsites, hrecords, hlocated⟩ := compile_eq_ok h
  rw [hsites] at hs
  obtain ⟨hk, hs⟩ := List.getElem?_eq_some_iff.1 hs
  have hbuilt := (buildRecords_eq_ok hbuild).2
  have hk' : k < records.length := by
    rw [← hbuilt.length_eq]
    simpa using hk
  obtain ⟨i, hi, hrec⟩ := (List.forall₂_iff_get.1 hbuilt).2 k (by simpa using hk) hk'
  refine ⟨hs ▸ List.getElem_mem hk, i, records[k], ?_, ?_, ?_, fun v hv => hlocated v.reg ?_⟩
  · simpa [hs] using hi
  · simpa using hrec
  · rw [hrecords, List.getElem?_map, List.getElem?_eq_getElem hk', Option.map_some]
  · exact List.mem_flatMap.2 ⟨records[k], List.getElem_mem hk', List.mem_map_of_mem hv⟩

theorem site_of_compile {nonce last : Nat} {u : CompiledUnit}
    (h : f.compile settings nonce = .ok (.ok u, last)) {k : Nat} {rec : Record}
    (hrec : u.records[k]? = some rec) :
    ∃ s ∈ f.deoptSites, u.sites[k]? = some s ∧ ∃ i built, f.instr s = .ok i ∧
      f.buildRecord i (nonce + k) = .ok (.ok built) ∧ rec = u.layout.fill built := by
  have hk : k < u.sites.length := by
    obtain ⟨records, hbuild, hsites, hrecords, -⟩ := compile_eq_ok h
    have hlen := (buildRecords_eq_ok hbuild).2.length_eq
    have hlt := (List.getElem?_eq_some_iff.1 hrec).1
    rw [hrecords, List.length_map] at hlt
    rw [List.length_zipIdx] at hlen
    rw [hsites]
    omega
  have hs := List.getElem?_eq_getElem hk
  obtain ⟨hmem, i, built, hi, hbuilt, hrec', -⟩ := record_of_compile h hs
  rw [hrec] at hrec'
  exact ⟨_, hmem, hs, i, built, hi, hbuilt, Option.some.inj hrec'⟩

/-- **Checked code compiles**, exactly when every blamed register is known. Otherwise the compilation
faults on the first that is not. -/
theorem compile_validated (hf : f.WellFormed) (hv : f.validate = .ok ())
    (hr : ∀ i ∈ f.deoptInstrs, f.ReceiversLive i) (hs : settings.Fits f) (nonce : Nat) :
    ((∀ i ∈ f.deoptInstrs, f.BlameKnown i) →
      ∃ u, f.compile settings nonce = .ok (.ok u, nonce + f.deoptSites.length)) ∧
    ((¬ ∀ i ∈ f.deoptInstrs, f.BlameKnown i) →
      ∃ g, ¬ f.env.contains g ∧ f.compile settings nonce = .error (.unknownRegister g)) := by
  have hsites : ∀ s ∈ f.deoptSites, f.Recordable s := fun s => recordable_of_validate hv hr
  unfold compile
  rw [precheck_of_validate hv]
  constructor
  · intro hb
    obtain ⟨records, hrecs⟩ := buildRecords_ok hf hsites
      (fun s hs i hi => hb i (mem_deoptInstrs.2 ⟨s, hs, hi⟩)) nonce
    obtain ⟨u, hu⟩ := finish_ok hs (recovered_eq hrecs)
    exact ⟨u, by simp [hrecs, hu]⟩
  · intro hb
    push Not at hb
    obtain ⟨i, hi, hb⟩ := hb
    obtain ⟨s, hs, hi⟩ := mem_deoptInstrs.1 hi
    obtain ⟨g, hg, hstop⟩ := buildRecords_unknown hf hsites ⟨s, hs, i, hi, hb⟩ nonce
    exact ⟨g, hg, by simp [hstop]⟩

end Function

/-! ## A guard that blames a register

The guard keeps its operand alive and blames the register it is given. -/

namespace Blaming

def code : CodeUnit := { id := ⟨1⟩, name := "f", locals := ["x"], stackSize := 2, length := 16 }

def guard (blamed : Reg) : Instr where
  kind := .guard
  operands := [⟨0⟩]
  output := none
  block := some ⟨0⟩
  frameState := some ⟨{ code, offset := ⟨0⟩, locals := [some ⟨0⟩] }, []⟩
  deopt := some { live := [⟨⟨0⟩, .owned, .object⟩], guilty := some blamed }

/-- Loads the argument, comes to an instruction, and returns. -/
def through (i : Instr) : Function where
  name := "f"
  code
  env := ⟨[.top]⟩
  graph := ⟨[some ⟨⟨0⟩, [
    { kind := .loadArg 0, operands := [], output := some ⟨0⟩, block := some ⟨0⟩ },
    i,
    { kind := .ret, operands := [⟨0⟩], output := none, block := some ⟨0⟩ }]⟩], ⟨0⟩⟩

def func (blamed : Reg) : Function := through (guard blamed)

theorem order_through (i : Instr) : (through i).graph.order = [⟨0⟩] := Graph.order_of_leaf rfl

theorem validate (blamed : Reg) : (func blamed).validate = .ok () :=
  Function.validate_of_order (order_through _) rfl rfl

theorem deoptSites (blamed : Reg) : (func blamed).deoptSites = [⟨⟨0⟩, 1⟩] :=
  Function.deoptSites_of_order (order_through _)

theorem deoptInstrs (blamed : Reg) : (func blamed).deoptInstrs = [guard blamed] := by
  unfold Function.deoptInstrs
  rw [deoptSites]
  rfl

theorem wellFormed (blamed : Reg) : (func blamed).WellFormed := by
  intro i hi
  obtain rfl | rfl | rfl : i = _ ∨ i = _ ∨ i = _ := by
    simpa [Function.instrs, Graph.toList, func, through] using hi
  all_goals rfl

theorem receiversLive (blamed : Reg) :
    ∀ i ∈ (func blamed).deoptInstrs, (func blamed).ReceiversLive i := by
  intro i hi fs hfs a ha r hr
  rw [deoptInstrs, List.mem_singleton] at hi
  subst hi
  obtain rfl : _ = fs := by simpa [guard] using hfs
  obtain rfl : a = _ := by simpa [FrameState.frames, FrameState.chain] using ha
  simp at hr

theorem fits {blamed : Reg} (h : (guard blamed).recovered.eraseDups.length ≤ 6) :
    Settings.Fits {} (func blamed) := by
  refine ⟨by decide, by decide, by decide, by decide, fun k hk => ?_⟩
  rw [Function.recovered, deoptInstrs, List.flatMap_singleton] at hk
  have hbudget : k < (guard blamed).recovered.eraseDups.length - 6 := hk
  omega

end Blaming

theorem compile_validated_blaming :
    (∃ u, (Blaming.func ⟨0⟩).compile {} 7 = .ok (.ok u, 8)) ∧
      ∃ g, ¬ (Blaming.func ⟨99⟩).env.contains g ∧
        (Blaming.func ⟨99⟩).compile {} 7 = .error (.unknownRegister g) := by
  have known := Function.compile_validated (Blaming.wellFormed ⟨0⟩) (Blaming.validate ⟨0⟩)
    (Blaming.receiversLive ⟨0⟩) (Blaming.fits (by decide)) 7
  have unknown := Function.compile_validated (Blaming.wellFormed ⟨99⟩) (Blaming.validate ⟨99⟩)
    (Blaming.receiversLive ⟨99⟩) (Blaming.fits (by decide)) 7
  rw [Blaming.deoptSites] at known
  rw [Blaming.deoptInstrs] at known unknown
  refine ⟨known.1 ?_, unknown.2 ?_⟩
  · intro i hi g hg
    rw [List.mem_singleton] at hi
    subst hi
    obtain rfl : _ = g := by simpa [Blaming.guard, Instr.guilty?] using hg
    exact .inl (by decide)
  · intro h
    have := h _ List.mem_cons_self ⟨99⟩ rfl
    revert this
    decide

end Bailout
