import Bailout.Proofs.Fallible
import Bailout.Proofs.Record.Live

/-!
# What a built record holds

`buildRecord_eq` splits the construction into its parts: the register captured for the report, the
frames, and the marks on method lookups. `Record.resolve` reads a position back as a live register, and
`resolve_indexOf` says that the position recorded for a register resolves to its live entry.
-/

namespace Bailout

namespace Function

/-- The method lookup that defines a register. -/
def lookup? (f : Function) (r : Reg) : Option Instr :=
  (f.definition? r).filter fun i => i.opcode = .loadMethod

theorem methodReceiver_eq (f : Function) (r : Reg) :
    f.methodReceiver r =
      match f.lookup? r with
      | some i => (i.operand 0).map some
      | none => .ok none := by
  unfold methodReceiver lookup?
  cases f.definition? r with
  | none => rfl
  | some i => by_cases h : i.opcode = .loadMethod <;> simp [h, Option.filter_some]

/-- The blamed register, if it has to be recorded on top of the live ones. -/
def capture (f : Function) (i : Instr) : Except Fault (List LiveReg) :=
  match i.guilty?.filter fun g => (i.live? g).isNone with
  | some g => (f.liveReg g .borrowed).map fun l => [l]
  | none => .ok []

/-- A captured register is the blamed one, is not live, and is not owned. -/
theorem capture_eq_ok {f : Function} {i : Instr} {captured : List LiveReg}
    (h : f.capture i = .ok captured) :
    captured.map (·.reg) = (i.guilty?.filter fun g => (i.live? g).isNone).toList ∧
      ∀ l ∈ captured, l.refKind ≠ .owned := by
  unfold capture at h
  split at h
  · next g hg =>
    obtain ⟨l, hl, rfl⟩ := map_eq_ok.1 h
    obtain ⟨ty, -, rfl⟩ := map_eq_ok.1 hl
    refine ⟨by simp [hg, LiveReg.ofTy], fun l hl => ?_⟩
    obtain rfl := List.mem_singleton.1 hl
    simp only [LiveReg.ofTy]
    split <;> simp
  · next hg =>
    obtain rfl : [] = captured := by simpa using h
    simp [hg]

/-- The live values of a record before method lookups are marked. -/
def values (i : Instr) (captured : List LiveReg) : List LiveValue :=
  (LiveReg.distinct i.live ++ captured).map LiveValue.ofLiveReg

theorem liveReg_reg {f : Function} {r : Reg} {k : RefKind} {l : LiveReg}
    (h : f.liveReg r k = .ok l) : l.reg = r := by
  obtain ⟨ty, -, rfl⟩ := map_eq_ok.1 h
  rfl

theorem buildRecord_eq {f : Function} {i : Instr} {fs : FrameState} (nonce : Nat)
    (hfs : i.frameState = some fs) :
    f.buildRecord i nonce = do
      let captured ← f.capture i
      let frames ← fs.frames.mapM (f.frameRecord (LiveReg.distinct i.live))
      return .ok {
        live := (methodIndices frames).foldl LiveValue.markMethod (values i captured)
        frames
        reason := .ofOpcode i.opcode
        guilty := i.guilty?.bind (LiveReg.position? (LiveReg.distinct i.live ++ captured))
        descr := some (i.descr?.getD i.opcode.name)
        nonce } := by
  unfold buildRecord capture
  rw [hfs]
  cases hg : i.guilty? with
  | none => simp [values]
  | some g =>
    have hlive : LiveReg.position? (LiveReg.distinct i.live) g = none ↔ i.live? g = none := by
      rw [LiveReg.position?_eq_none_iff, LiveReg.find?_distinct]
      rfl
    cases hp : LiveReg.position? (LiveReg.distinct i.live) g with
    | some p =>
      have hs : (i.live? g).isNone = false := by
        rw [Option.isNone_eq_false_iff, Option.isSome_iff_ne_none, Ne, ← hlive, hp]
        simp
      simp [hp, hs, values, Option.filter_some]
    | none =>
      have hs : (i.live? g).isNone = true := by simp [hlive.1 hp]
      cases hl : f.liveReg g .borrowed with
      | error e => simp [hp, hs, hl, Except.map, Option.filter_some]
      | ok l =>
        have hpos : LiveReg.position? (LiveReg.distinct i.live ++ [l]) g =
            some (LiveReg.distinct i.live).length := by
          have hp' := hp
          unfold LiveReg.position? at hp' ⊢
          rw [List.findIdx?_append, hp']
          simp [liveReg_reg hl]
        simp [hp, hs, hl, hpos, Except.map, values, Option.filter_some]

theorem stackEntry_eq (f : Function) (live : List LiveReg) (a : Activation) (r : Reg) :
    f.stackEntry live a r =
      match f.lookup? r with
      | none => .ok (.value (LiveReg.indexOf live (some r)))
      | some d => do
        let receiver ← d.operand 0
        if LiveReg.indexOf live (some r) = LiveIndex.dead then
          return .methodPair .dead .dead
        else if LiveReg.indexOf live (some receiver) = LiveIndex.dead then
          throw (.receiver receiver r a.code.qualname a.offset)
        else
          return .methodPair (LiveReg.indexOf live (some r)) (LiveReg.indexOf live (some receiver)) := by
  unfold stackEntry
  rw [methodReceiver_eq]
  cases f.lookup? r with
  | none => rfl
  | some d =>
    cases hd : d.operand 0 with
    | error e => simp [hd, Except.map]
    | ok receiver =>
      by_cases h : LiveReg.indexOf live (some r) = LiveIndex.dead
      · simp [hd, h, Except.map]
      · by_cases h' : LiveReg.indexOf live (some receiver) = LiveIndex.dead <;>
          simp [hd, h, h', Except.map]

theorem frameRecord_eq_ok {f : Function} {live : List LiveReg} {a : Activation} {fr : FrameRecord} :
    f.frameRecord live a = .ok fr ↔
      fr.code = a.code ∧ fr.slots = a.slots.map (LiveReg.indexOf live) ∧
        List.Forall₂ (fun r e => f.stackEntry live a r = .ok e) a.stack fr.stack ∧
        fr.handlers = a.handlers ∧ fr.cause = a.offset := by
  unfold frameRecord
  rw [bind_eq_ok]
  constructor
  · rintro ⟨stack, hs, h⟩
    obtain rfl := Except.ok.inj h
    exact ⟨rfl, rfl, mapM_eq_ok.1 hs, rfl, rfl⟩
  · rintro ⟨h1, h2, h3, h4, h5⟩
    refine ⟨fr.stack, mapM_eq_ok.2 h3, ?_⟩
    obtain ⟨code, slots, stack, handlers, cause⟩ := fr
    simp_all

theorem buildRecord_eq_ok {f : Function} {i : Instr} {nonce : Nat} {rec : Record}
    (h : f.buildRecord i nonce = .ok (.ok rec)) :
    ∃ fs captured, i.frameState = some fs ∧ f.capture i = .ok captured ∧
      List.Forall₂ (fun a fr => f.frameRecord (LiveReg.distinct i.live) a = .ok fr) fs.frames
        rec.frames ∧
      rec.live = (methodIndices rec.frames).foldl LiveValue.markMethod (values i captured) ∧
      rec.reason = .ofOpcode i.opcode ∧
      rec.guilty = i.guilty?.bind (LiveReg.position? (LiveReg.distinct i.live ++ captured)) ∧
      rec.descr = some (i.descr?.getD i.opcode.name) ∧ rec.nonce = nonce := by
  cases hfs : i.frameState with
  | none => simp [buildRecord, hfs] at h
  | some fs =>
    rw [buildRecord_eq nonce hfs] at h
    obtain ⟨captured, hc, h⟩ := bind_eq_ok.1 h
    obtain ⟨frames, hf, h⟩ := bind_eq_ok.1 h
    obtain rfl := Except.ok.inj (Except.ok.inj h)
    exact ⟨fs, captured, rfl, hc, mapM_eq_ok.1 hf, rfl, rfl, rfl, rfl, rfl⟩

end Function

/-! ## Marks -/

/-- The mark that a method lookup leaves on its live value. -/
def LiveValue.asMethod (v : LiveValue) : LiveValue := { v with source := .loadMethod, twoSlots := true }

theorem getElem?_foldl_markMethod (indices : List LiveIndex) (vs : List LiveValue) (p : Nat) :
    (indices.foldl LiveValue.markMethod vs)[p]? =
      vs[p]?.map fun v => if p ∈ indices.map Int.toNat then v.asMethod else v := by
  induction indices generalizing vs with
  | nil => simp
  | cons index indices ih =>
    rw [List.foldl_cons, ih, LiveValue.markMethod, List.getElem?_modify]
    cases vs[p]? with
    | none => simp
    | some v =>
      by_cases h : index.toNat = p <;> by_cases h' : p ∈ indices.map Int.toNat <;>
        simp_all [LiveValue.asMethod, eq_comm]

theorem map_liveReg_foldl_markMethod (indices : List LiveIndex) (vs : List LiveValue) :
    (indices.foldl LiveValue.markMethod vs).map LiveValue.liveReg = vs.map LiveValue.liveReg := by
  refine List.ext_getElem? fun p => ?_
  rw [List.getElem?_map, List.getElem?_map, getElem?_foldl_markMethod]
  cases vs[p]? with
  | none => rfl
  | some v =>
    simp only [Option.map_some]
    split <;> rfl

/-! ## Reading positions back -/

namespace Record

/-- The live register at a position, if the position is not dead. -/
def resolve (r : Record) (index : LiveIndex) : Except Fault (Option LiveReg) :=
  (r.liveValue index).map fun v => v.map LiveValue.liveReg

theorem liveValue_natCast {r : Record} {p : Nat} {v : LiveValue} (h : r.live[p]? = some v) :
    r.liveValue (p : LiveIndex) = .ok (some v) := by
  have hne : ¬ (p : Int) = -1 := by omega
  have hpos : (0 : Int) ≤ p := by omega
  simp [liveValue, LiveIndex.dead, hne, hpos, h]

theorem liveValue_eq_some {r : Record} {index : LiveIndex} {v : LiveValue}
    (h : r.liveValue index = .ok (some v)) : ∃ p : Nat, index = p ∧ r.live[p]? = some v := by
  unfold liveValue at h
  split at h
  · simp at h
  · by_cases hpos : (0 : Int) ≤ index
    · refine ⟨Int.toNat index, (Int.toNat_of_nonneg hpos).symm, ?_⟩
      rw [if_pos hpos] at h
      split at h <;> simp_all
    · rw [if_neg hpos] at h
      cases h

/-- A position that resolves to a live register is the position of a live value. -/
theorem resolve_eq_some {r : Record} {index : LiveIndex} {l : LiveReg}
    (h : r.resolve index = .ok (some l)) :
    ∃ p v, index = (p : Nat) ∧ r.live[p]? = some v ∧ v.liveReg = l := by
  obtain ⟨v, hv, h⟩ := map_eq_ok.1 h
  obtain ⟨v, rfl, rfl⟩ := Option.map_eq_some_iff.1 h
  obtain ⟨p, rfl, hp⟩ := liveValue_eq_some hv
  exact ⟨p, v, rfl, hp, rfl⟩

theorem resolve_indexOf {r : Record} {i : Instr} {captured : List LiveReg}
    (hl : r.live.map LiveValue.liveReg = LiveReg.distinct i.live ++ captured) (o : Option Reg) :
    r.resolve (LiveReg.indexOf (LiveReg.distinct i.live) o) = .ok (o.bind i.live?) := by
  have hpos : ∀ reg, (LiveReg.position? (LiveReg.distinct i.live) reg).bind
      ((LiveReg.distinct i.live)[·]?) = i.live? reg := fun reg => by
    rw [LiveReg.getElem?_position?, LiveReg.find?_distinct]
    rfl
  cases o with
  | none => rfl
  | some reg =>
    unfold LiveReg.indexOf
    simp only [Option.bind_some]
    cases hp : LiveReg.position? (LiveReg.distinct i.live) reg with
    | none =>
      have := hpos reg
      rw [hp] at this
      rw [← this]
      rfl
    | some p =>
      have hlive := hpos reg
      rw [hp, Option.bind_some] at hlive
      obtain ⟨l, hl'⟩ : ∃ l, (LiveReg.distinct i.live)[p]? = some l := by
        have := (List.findIdx?_eq_some_iff_getElem.1 hp).1
        exact ⟨_, List.getElem?_eq_getElem this⟩
      have hget : (r.live.map LiveValue.liveReg)[p]? = some l := by
        rw [hl, List.getElem?_append_left (List.getElem?_eq_some_iff.1 hl').1, hl']
      rw [List.getElem?_map, Option.map_eq_some_iff] at hget
      obtain ⟨v, hv, rfl⟩ := hget
      rw [resolve, liveValue_natCast hv, ← hlive, hl']
      rfl

end Record

end Bailout
