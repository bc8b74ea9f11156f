import Bailout.Proofs.Record.Frames

/-!
# Records mirror frame states

A record built for an instruction says of every slot and every stack entry which register it came from.
`Record.Mirrors` collects what reading the record back gives, and `buildRecord_mirrors` proves it of
every record that is built.
-/

namespace Bailout

/-- `listed` holds the entries that count, one for each register, in order of first occurrence. -/
structure LiveReg.FirstsOf (states listed : List LiveReg) : Prop where
  ordered : listed.Pairwise fun a b =>
    states.findIdx (·.reg == a.reg) < states.findIdx (·.reg == b.reg)
  first : ∀ l ∈ listed, states.find? (·.reg == l.reg) = some l
  complete : ∀ l ∈ states, l.reg ∈ listed.map (·.reg)

theorem LiveReg.firstsOf_distinct (states : List LiveReg) : FirstsOf states (distinct states) where
  ordered := pairwise_distinct states
  first l hl := by
    obtain ⟨p, hp⟩ := List.mem_iff_getElem?.1 hl
    rw [← find?_distinct, ← getElem?_position?, position?_getElem? (nodup_distinct states) hp]
    exact hp
  complete l hl := by
    have hsome : (states.find? (·.reg == l.reg)).isSome := List.find?_isSome.2 ⟨l, hl, by simp⟩
    rw [← find?_distinct, List.find?_isSome] at hsome
    obtain ⟨l', hl', h⟩ := hsome
    exact List.mem_map.2 ⟨l', hl', by simpa using h⟩

/-- How a stack entry stands for a register: a pair exactly for a method lookup. A lookup that is not
live leaves both halves dead; a live one names a live receiver. -/
def Function.EntryFor (f : Function) (i : Instr) (rec : Record) (r : Reg) : StackEntry → Prop
  | .value index => f.lookup? r = none ∧ rec.resolve index = .ok (i.live? r)
  | .methodPair callable receiver => ∃ d, f.lookup? r = some d ∧
      ((i.live? r = none ∧ callable = LiveIndex.dead ∧ receiver = LiveIndex.dead) ∨
        ∃ l self l', i.live? r = some l ∧ d.operands[0]? = some self ∧ i.live? self = some l' ∧
          rec.resolve callable = .ok (some l) ∧ rec.resolve receiver = .ok (some l'))

structure FrameRecord.Mirrors (f : Function) (i : Instr) (rec : Record) (a : Activation)
    (fr : FrameRecord) : Prop where
  code : fr.code = a.code
  handlers : fr.handlers = a.handlers
  cause : fr.cause = a.offset
  /-- A slot resolves to the live entry of its register; anything else is dead. -/
  slots : List.Forall₂ (fun slot index => rec.resolve index = .ok (slot.bind i.live?)) a.slots fr.slots
  stack : List.Forall₂ (f.EntryFor i rec) a.stack fr.stack

structure Record.Mirrors (f : Function) (i : Instr) (fs : FrameState) (rec : Record) : Prop where
  /-- The live registers, then the blamed one if it is not among them. -/
  live : ∃ listed captured, rec.live.map LiveValue.liveReg = listed ++ captured ∧
    LiveReg.FirstsOf i.live listed ∧
    captured.map (·.reg) = (i.guilty?.filter fun g => (i.live? g).isNone).toList ∧
    ∀ l ∈ captured, l.refKind ≠ .owned
  distinct : (rec.live.map (·.reg)).Nodup
  guilty : rec.guiltyValue?.map (·.reg) = i.guilty?
  /-- Marked are the live method lookups that some stack holds. -/
  method : ∀ v ∈ rec.live, (v.twoSlots = true ↔ v.source = .loadMethod) ∧
    (v.twoSlots = true ↔
      (i.live? v.reg).isSome ∧ (f.lookup? v.reg).isSome ∧ ∃ a ∈ fs.frames, v.reg ∈ a.stack)
  unlocated : ∀ v ∈ rec.live, v.location = none
  frames : List.Forall₂ (FrameRecord.Mirrors f i rec) fs.frames rec.frames
  reason : rec.reason = .ofOpcode i.opcode
  descr : rec.descr = some (i.descr?.getD i.opcode.name)

namespace Function

variable {f : Function} {i : Instr} {rec : Record} {captured : List LiveReg}

/-! ## Live values -/

theorem map_liveReg_values (i : Instr) (captured : List LiveReg) :
    (values i captured).map LiveValue.liveReg = LiveReg.distinct i.live ++ captured := by
  simp [values, Function.comp_def]

/-- Marking method lookups changes no register, ownership or representation. -/
theorem map_liveReg_marked {indices : List LiveIndex}
    (h : rec.live = indices.foldl LiveValue.markMethod (values i captured)) :
    rec.live.map LiveValue.liveReg = LiveReg.distinct i.live ++ captured := by
  rw [h, map_liveReg_foldl_markMethod, map_liveReg_values]

theorem reg_mem_distinct {i : Instr} {r : Reg} :
    r ∈ (LiveReg.distinct i.live).map (·.reg) ↔ (i.live? r).isSome := by
  rw [Instr.live?, ← LiveReg.find?_distinct, List.find?_isSome]
  simp

/-- A captured register is not live, so no register is listed twice. -/
theorem nodup_distinct_capture (hc : f.capture i = .ok captured) :
    ((LiveReg.distinct i.live ++ captured).map (·.reg)).Nodup := by
  rw [List.map_append, (capture_eq_ok hc).1, List.nodup_append]
  refine ⟨LiveReg.nodup_distinct _, ?_, fun a ha b hb hab => ?_⟩
  · cases i.guilty?.filter fun g => (i.live? g).isNone <;> simp
  · rw [Option.mem_toList, Option.filter_eq_some_iff] at hb
    rw [reg_mem_distinct, hab] at ha
    simp_all

theorem nodup_reg_of_map_liveReg
    (hl : rec.live.map LiveValue.liveReg = LiveReg.distinct i.live ++ captured)
    (hc : f.capture i = .ok captured) : (rec.live.map (·.reg)).Nodup := by
  have h := nodup_distinct_capture hc
  rw [← hl, List.map_map] at h
  exact h

theorem guiltyValue?_reg
    (hl : rec.live.map LiveValue.liveReg = LiveReg.distinct i.live ++ captured)
    (hc : f.capture i = .ok captured)
    (hg : rec.guilty = i.guilty?.bind (LiveReg.position? (LiveReg.distinct i.live ++ captured))) :
    rec.guiltyValue?.map (·.reg) = i.guilty? := by
  cases h : i.guilty? with
  | none => simp [Record.guiltyValue?, hg, h]
  | some g =>
    have hmem : g ∈ (LiveReg.distinct i.live ++ captured).map (·.reg) := by
      rw [List.map_append, List.mem_append, reg_mem_distinct, (capture_eq_ok hc).1, h]
      by_cases hlive : (i.live? g).isSome
      · exact .inl hlive
      · exact .inr (by simpa [Option.filter_some] using hlive)
    obtain ⟨l, hl', rfl⟩ := List.mem_map.1 hmem
    obtain ⟨p, hp⟩ := List.mem_iff_getElem?.1 hl'
    rw [h, Option.bind_some, LiveReg.position?_getElem? (nodup_distinct_capture hc) hp] at hg
    rw [← hl, List.getElem?_map, Option.map_eq_some_iff] at hp
    obtain ⟨v, hv, rfl⟩ := hp
    simp [Record.guiltyValue?, hg, hv, LiveValue.liveReg]

/-! ## Frames -/

theorem entryFor_of_stackEntry {a : Activation} {r : Reg} {e : StackEntry}
    (hl : rec.live.map LiveValue.liveReg = LiveReg.distinct i.live ++ captured)
    (h : f.stackEntry (LiveReg.distinct i.live) a r = .ok e) : f.EntryFor i rec r e := by
  have hres := Record.resolve_indexOf hl
  rw [stackEntry_eq] at h
  cases hd : f.lookup? r with
  | none =>
    rw [hd] at h
    obtain rfl := Except.ok.inj h
    exact ⟨hd, hres (some r)⟩
  | some d =>
    rw [hd] at h
    obtain ⟨self, hself, h⟩ := bind_eq_ok.1 h
    have hop : d.operands[0]? = some self := by
      unfold Instr.operand at hself
      split at hself <;> simp_all
    split at h
    · next hr =>
      obtain rfl := Except.ok.inj h
      exact ⟨d, hd, .inl ⟨LiveReg.indexOf_distinct_eq_dead.1 hr, rfl, rfl⟩⟩
    · next hr =>
      split at h
      · cases h
      · next hs =>
        obtain rfl := Except.ok.inj h
        obtain ⟨l, hlr⟩ := Option.ne_none_iff_exists'.1 (mt LiveReg.indexOf_distinct_eq_dead.2 hr)
        obtain ⟨l', hls⟩ := Option.ne_none_iff_exists'.1 (mt LiveReg.indexOf_distinct_eq_dead.2 hs)
        refine ⟨d, hd, .inr ⟨l, self, l', hlr, hop, hls, ?_, ?_⟩⟩
        · rw [hres, Option.bind_some, hlr]
        · rw [hres, Option.bind_some, hls]

theorem mirrors_of_frameRecord {a : Activation} {fr : FrameRecord}
    (hl : rec.live.map LiveValue.liveReg = LiveReg.distinct i.live ++ captured)
    (h : f.frameRecord (LiveReg.distinct i.live) a = .ok fr) : fr.Mirrors f i rec a := by
  obtain ⟨hcode, hslots, hstack, hhandlers, hcause⟩ := frameRecord_eq_ok.1 h
  refine ⟨hcode, hhandlers, hcause, ?_, hstack.imp fun r e he => entryFor_of_stackEntry hl he⟩
  rw [hslots, List.forall₂_map_right_iff, List.forall₂_same]
  exact fun slot _ => Record.resolve_indexOf hl slot

/-! ## Marked lookups -/

theorem mem_methodIndices {frames : List FrameRecord} {index : LiveIndex} :
    index ∈ methodIndices frames ↔
      index ≠ LiveIndex.dead ∧ ∃ fr ∈ frames, ∃ receiver, .methodPair index receiver ∈ fr.stack := by
  simp only [methodIndices, List.mem_flatMap, List.mem_filterMap]
  constructor
  · rintro ⟨fr, hfr, e, he, h⟩
    cases e with
    | value _ => simp at h
    | methodPair callable receiver =>
      obtain ⟨hne, rfl⟩ : ¬ callable = LiveIndex.dead ∧ callable = index := by simpa using h
      exact ⟨hne, fr, hfr, receiver, he⟩
  · rintro ⟨hne, fr, hfr, receiver, he⟩
    exact ⟨fr, hfr, .methodPair index receiver, he, by simp [hne]⟩

/-- With distinct registers, a position is marked exactly when some stack holds its register as a
method lookup. -/
theorem mem_methodIndices_iff {fs : FrameState} {p : Nat} {v : LiveValue}
    (hframes : List.Forall₂ (FrameRecord.Mirrors f i rec) fs.frames rec.frames)
    (hn : (rec.live.map (·.reg)).Nodup) (hv : rec.live[p]? = some v) :
    p ∈ (methodIndices rec.frames).map Int.toNat ↔
      (i.live? v.reg).isSome ∧ (f.lookup? v.reg).isSome ∧ ∃ a ∈ fs.frames, v.reg ∈ a.stack := by
  simp only [List.mem_map, mem_methodIndices]
  constructor
  · rintro ⟨index, ⟨hne, fr, hfr, receiver, he⟩, rfl⟩
    obtain ⟨a, ha, hm⟩ := forall₂_mem_right hframes hfr
    obtain ⟨r, hr, d, hd, ⟨-, h, -⟩ | ⟨l, self, l', hlr, -, -, hres, -⟩⟩ :=
      forall₂_mem_right hm.stack he
    · exact absurd h hne
    · obtain ⟨q, w, rfl, hw, rfl⟩ := Record.resolve_eq_some hres
      obtain rfl : w = v := by simpa [hw] using hv
      obtain rfl : w.reg = r := (Instr.live?_eq_some hlr).2
      exact ⟨by simp [hlr], by simp [hd], a, ha, hr⟩
  · rintro ⟨hlive, hlookup, a, ha, hr⟩
    obtain ⟨fr, hfr, hm⟩ := forall₂_mem_left hframes ha
    obtain ⟨e, he, hentry⟩ := forall₂_mem_left hm.stack hr
    cases e with
    | value index => simp [hentry.1] at hlookup
    | methodPair callable receiver =>
      obtain ⟨d, hd, ⟨h, -⟩ | ⟨l, self, l', hlr, -, -, hres, -⟩⟩ := hentry
      · simp [h] at hlive
      · obtain ⟨q, w, rfl, hw, rfl⟩ := Record.resolve_eq_some hres
        have hreg : w.reg = v.reg := (Instr.live?_eq_some hlr).2
        refine ⟨q, ⟨fun h => ?_, fr, hfr, receiver, he⟩, ?_⟩
        · rw [h] at hres
          cases hres
        · rw [Int.toNat_natCast]
          have hq : q < (rec.live.map (·.reg)).length := by
            simpa using (List.getElem?_eq_some_iff.1 hw).1
          refine (List.getElem?_inj hq hn).1 ?_
          rw [List.getElem?_map, List.getElem?_map, hw, hv]
          simp [hreg]

theorem live_marks {v : LiveValue}
    (hm : rec.live = (methodIndices rec.frames).foldl LiveValue.markMethod (values i captured))
    {p : Nat} (hv : rec.live[p]? = some v) :
    v.location = none ∧ (v.twoSlots = true ↔ v.source = .loadMethod) ∧
      (v.twoSlots = true ↔ p ∈ (methodIndices rec.frames).map Int.toNat) := by
  rw [hm, getElem?_foldl_markMethod, Option.map_eq_some_iff] at hv
  obtain ⟨v₀, hv₀, rfl⟩ := hv
  rw [values, List.getElem?_map, Option.map_eq_some_iff] at hv₀
  obtain ⟨l, -, rfl⟩ := hv₀
  split
  · next hp => simp [LiveValue.asMethod, LiveValue.ofLiveReg, hp]
  · next hp => simp [LiveValue.ofLiveReg, hp]

/-- **Reading a record back.** A record that is built mirrors the frame state of its instruction. -/
theorem buildRecord_mirrors {nonce : Nat} (h : f.buildRecord i nonce = .ok (.ok rec)) :
    ∃ fs, i.frameState = some fs ∧ rec.Mirrors f i fs ∧ rec.nonce = nonce := by
  obtain ⟨fs, captured, hfs, hc, hframes, hlive, hreason, hguilty, hdescr, hnonce⟩ :=
    buildRecord_eq_ok h
  have hl : rec.live.map LiveValue.liveReg = LiveReg.distinct i.live ++ captured := by
    rw [hlive, map_liveReg_foldl_markMethod, map_liveReg_values]
  have hn := nodup_reg_of_map_liveReg hl hc
  have hmirror : List.Forall₂ (FrameRecord.Mirrors f i rec) fs.frames rec.frames :=
    hframes.imp fun a fr hfr => mirrors_of_frameRecord hl hfr
  refine ⟨fs, hfs, ?_, hnonce⟩
  refine {
    live := ⟨_, captured, hl, LiveReg.firstsOf_distinct _, capture_eq_ok hc⟩
    distinct := hn
    guilty := guiltyValue?_reg hl hc hguilty
    method := fun v hv => ?_
    unlocated := fun v hv => ?_
    frames := hmirror
    reason := hreason
    descr := hdescr }
  · obtain ⟨p, hp⟩ := List.mem_iff_getElem?.1 hv
    obtain ⟨-, hsource, htwo⟩ := live_marks hlive hp
    exact ⟨hsource, htwo.trans (mem_methodIndices_iff hmirror hn hp)⟩
  · obtain ⟨p, hp⟩ := List.mem_iff_getElem?.1 hv
    exact (live_marks hlive hp).1

end Function

/-! ## A check inside an inlined call

The caller has a method lookup on its stack, the check blames a register that is not live, and one
register is listed twice. -/

namespace Inlined

def outer : CodeUnit :=
  { id := ⟨1⟩, name := "outer", locals := ["x", "y"], stackSize := 2, length := 16 }

def inner : CodeUnit :=
  { id := ⟨2⟩, name := "inner", locals := ["a"], cells := ["c"], stackSize := 2, length := 16 }

def caller : Activation :=
  { code := outer, offset := ⟨4⟩, locals := [some ⟨0⟩, some ⟨2⟩], cells := [], stack := [⟨1⟩] }

def state : FrameState where
  frame := { code := inner, offset := ⟨6⟩, locals := [some ⟨3⟩], cells := [none], stack := [⟨3⟩, ⟨0⟩] }
  callers := [caller]

def lookup : Instr where
  kind := .loadMethod "m"
  operands := [⟨0⟩]
  output := some ⟨1⟩
  block := some ⟨0⟩
  frameState := some ⟨{ caller with stack := [] }, []⟩
  deopt := some { live := [⟨⟨0⟩, .owned, .object⟩] }

def check : Instr where
  kind := .checkVar "a"
  operands := [⟨2⟩]
  output := some ⟨4⟩
  block := some ⟨0⟩
  frameState := some state
  deopt := some {
    live := [⟨⟨0⟩, .owned, .object⟩, ⟨⟨1⟩, .borrowed, .object⟩, ⟨⟨0⟩, .borrowed, .object⟩,
      ⟨⟨3⟩, .uncounted, .signed⟩]
    guilty := some ⟨2⟩ }

def instrs : List Instr :=
  [{ kind := .loadArg 0, operands := [], output := some ⟨0⟩, block := some ⟨0⟩ }, lookup,
    { kind := .loadArg 1, operands := [], output := some ⟨2⟩, block := some ⟨0⟩ },
    { kind := .loadConst (.narrowed Kind.cInt64.mask (.int 7)), operands := [], output := some ⟨3⟩,
      block := some ⟨0⟩ },
    { kind := .beginInlinedFunction inner.id, operands := [], output := none, block := some ⟨0⟩,
      frameState := some ⟨caller, []⟩ },
    check,
    { kind := .endInlinedFunction, operands := [], output := none, block := some ⟨0⟩ },
    { kind := .ret, operands := [⟨4⟩], output := none, block := some ⟨0⟩ }]

def func : Function where
  name := "outer"
  code := outer
  env := ⟨[.top, .top, .top, .narrowed Kind.cInt64.mask (.int 7), .top]⟩
  graph := ⟨[some ⟨⟨0⟩, instrs⟩], ⟨0⟩⟩

end Inlined

theorem buildRecord_mirrors_inlined :
    ∃ rec, Inlined.func.buildRecord Inlined.check 5 = .ok (.ok rec) ∧
      rec.live.map (·.reg) = [⟨0⟩, ⟨1⟩, ⟨3⟩, ⟨2⟩] ∧
      rec.frames.map (·.slots) = [[0, LiveIndex.dead], [2, LiveIndex.dead]] ∧
      rec.frames.map (·.stack) = [[.methodPair 1 0], [.value 2, .value 0]] ∧
      ∃ fs, Inlined.check.frameState = some fs ∧ rec.Mirrors Inlined.func Inlined.check fs ∧
        rec.nonce = 5 :=
  ⟨_, rfl, rfl, rfl, rfl, Function.buildRecord_mirrors rfl⟩

end Bailout
