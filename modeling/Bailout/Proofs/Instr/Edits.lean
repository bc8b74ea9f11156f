import Bailout.Proofs.Instr.Built
import Bailout.Proofs.Instr.Rename
import Bailout.Proofs.Record.RoundTrip

/-!
# Live registers under edits

Adding a live register never lists a register twice: one that is present is updated. Replacing a register
does, when both the old and the new one are live, and no later edit takes the repetition back. So the live
registers are unique after exactly those histories in which no replacement meets two live registers. When
the record is built, the first entry of a register counts and the others are dropped, with the shares
that they stood for: `Instr.edits_live_unique`.
-/

namespace Bailout

/-- A renaming keeps registers apart unless it meets both of its own. -/
theorem Reg.nodup_map_rename {old new : Reg} {l : List Reg} :
    (l.map (Reg.rename old new)).Nodup ↔ l.Nodup ∧ ¬ (old ≠ new ∧ old ∈ l ∧ new ∈ l) := by
  constructor
  · intro hn
    refine ⟨hn.of_map, fun ⟨hne, hold, hnew⟩ => hne (List.inj_on_of_nodup_map hn hold hnew ?_)⟩
    unfold Reg.rename
    rw [if_pos rfl, if_neg hne.symm]
  · rintro ⟨hn, hapart⟩
    refine hn.map_on fun r hr s hs heq => ?_
    -- Only a register that becomes `new` could meet another, and that one would be `new` before.
    unfold Reg.rename at heq
    split at heq <;> split at heq
    · next hro hso => rw [hro, hso]
    · next hro hso =>
      subst hro heq
      exact absurd ⟨Ne.symm hso, hr, hs⟩ hapart
    · next hro hso =>
      subst hso heq
      exact absurd ⟨Ne.symm hro, hs, hr⟩ hapart
    · exact heq

theorem LiveReg.map_reg_insert (state : LiveReg) (l : List LiveReg) :
    (state.insert l).map (·.reg) =
      if state.reg ∈ l.map (·.reg) then l.map (·.reg) else l.map (·.reg) ++ [state.reg] := by
  induction l with
  | nil => rfl
  | cons s l ih =>
    unfold LiveReg.insert
    by_cases hs : s.reg = state.reg
    · simp [hs]
    · have hs' : state.reg ≠ s.reg := Ne.symm hs
      rw [if_neg hs, List.map_cons, ih]
      by_cases hl : state.reg ∈ l.map (·.reg) <;> simp [hl, hs']

theorem LiveReg.nodup_insert {state : LiveReg} {l : List LiveReg} :
    ((state.insert l).map (·.reg)).Nodup ↔ (l.map (·.reg)).Nodup := by
  rw [map_reg_insert]
  split
  · rfl
  · next hnew =>
    rw [List.nodup_append]
    constructor
    · exact And.left
    · refine fun hn => ⟨hn, List.nodup_singleton _, fun r hr s hs heq => hnew ?_⟩
      rwa [← List.mem_singleton.1 hs, ← heq]

namespace Instr

/-- Changes to an instruction that leave its kind alone. -/
inductive Edit where
  | addLive (state : LiveReg)
  | rename (old new : Reg)
  | setOperand (index : Nat) (r : Reg)
  | setGuilty (r : Reg)
  /-- What follows is done to a copy. -/
  | copy
  | setFrameState (fs : FrameState)
  /-- Sets the output, the offset and the link. -/
  | place (output : Option Reg) (offset : Option Offset) (block : Option BlockId)

def edit (i : Instr) : Edit → Except Fault Instr
  | .addLive state => i.addLive state
  | .rename old new => .ok (i.rename old new)
  | .setOperand index r => i.setOperand index r
  | .setGuilty r => i.setGuilty r
  | .copy => .ok i.copy
  | .setFrameState fs => i.setFrameState fs
  | .place output offset block => .ok { i with output, offset, block }

/-- Makes edits one after another. -/
def edits (i : Instr) (es : List Edit) : Except Fault Instr := es.foldlM edit i

/-- The registers of the live entries, one for each entry. -/
def liveRegs (i : Instr) : List Reg := i.live.map (·.reg)

/-- The edit replaces a live register by another live one. -/
def Joins (i : Instr) : Edit → Prop
  | .rename old new => old ≠ new ∧ old ∈ i.liveRegs ∧ new ∈ i.liveRegs
  | _ => False

/-- At some point of the history, an edit does. -/
def Merges (i : Instr) (es : List Edit) : Prop :=
  ∃ before e after j, es = before ++ e :: after ∧ i.edits before = .ok j ∧ j.Joins e

variable {i i' : Instr} {e : Edit} {es : List Edit}

theorem merges_cons (h : i.edit e = .ok i') : i.Merges (e :: es) ↔ i.Joins e ∨ i'.Merges es := by
  constructor
  · rintro ⟨before, e', after, j, heq, hbefore, hjoins⟩
    cases before with
    | nil =>
      obtain ⟨rfl, -⟩ := List.cons.inj heq
      obtain rfl : i = j := Except.ok.inj hbefore
      exact .inl hjoins
    | cons first before =>
      obtain ⟨rfl, htail⟩ := List.cons.inj heq
      obtain ⟨i₁, hfirst, hbefore⟩ := foldlM_cons_eq_ok.1 hbefore
      obtain rfl : i₁ = i' := Except.ok.inj (hfirst.symm.trans h)
      exact .inr ⟨before, e', after, j, htail, hbefore, hjoins⟩
  · rintro (hjoins | ⟨before, e', after, j, rfl, hbefore, hjoins⟩)
    · exact ⟨[], e, es, i, rfl, rfl, hjoins⟩
    · exact ⟨e :: before, e', after, j, rfl, foldlM_cons_eq_ok.2 ⟨i', h, hbefore⟩, hjoins⟩

theorem liveRegs_rename (old new : Reg) (i : Instr) :
    (i.rename old new).liveRegs = i.liveRegs.map (Reg.rename old new) := by
  rw [liveRegs, liveRegs, rename_eq_mapRegs, live_mapRegs, List.map_map, List.map_map]
  rfl

/-- An edit makes a repetition only by joining two live registers, and takes none back. -/
theorem nodup_edit (h : i.edit e = .ok i') :
    i'.liveRegs.Nodup ↔ i.liveRegs.Nodup ∧ ¬ i.Joins e := by
  cases e with
  | addLive state =>
    obtain ⟨d, hd, rfl⟩ := modifyDeopt_eq_ok h
    simpa [liveRegs, live, hd, Joins] using LiveReg.nodup_insert
  | rename old new =>
    obtain rfl := Except.ok.inj h
    rw [liveRegs_rename]
    exact Reg.nodup_map_rename
  | setOperand index r =>
    rw [setOperand_eq_ok h]
    simp [liveRegs, live, Joins]
  | setGuilty r =>
    obtain ⟨d, hd, rfl⟩ := modifyDeopt_eq_ok h
    simp [liveRegs, live, hd, Joins]
  | copy =>
    obtain rfl := Except.ok.inj h
    simp [liveRegs, live, copy, Joins]
  | setFrameState fs =>
    obtain ⟨-, rfl⟩ := setFrameState_eq_ok h
    simp [liveRegs, live, Joins]
  | place output offset block =>
    obtain rfl := Except.ok.inj h
    simp [liveRegs, live, Joins]

theorem nodup_edits (h : i.edits es = .ok i') :
    i'.liveRegs.Nodup ↔ i.liveRegs.Nodup ∧ ¬ i.Merges es := by
  induction es generalizing i with
  | nil =>
    obtain rfl : i = i' := Except.ok.inj h
    have hnone : ¬ i.Merges [] := by
      rintro ⟨before, e, after, j, heq, -⟩
      simp at heq
    simp [hnone]
  | cons e es ih =>
    obtain ⟨i₁, he, h⟩ := foldlM_cons_eq_ok.1 h
    rw [ih h, nodup_edit he, merges_cons he, not_or, and_assoc]

/-- A record lists all live entries of its instruction exactly if no register is listed twice. -/
theorem live_prefix_iff {f : Function} {nonce : Nat} {rec : Record}
    (h : f.buildRecord i nonce = .ok (.ok rec)) :
    i.live <+: rec.live.map LiveValue.liveReg ↔ i.liveRegs.Nodup := by
  obtain ⟨fs, captured, -, hc, -, hlive, -⟩ := Function.buildRecord_eq_ok h
  rw [Function.map_liveReg_marked hlive]
  constructor
  · intro hlisted
    exact (Function.nodup_distinct_capture hc).sublist (hlisted.map _).sublist
  · intro hn
    rw [LiveReg.distinct_eq_self hn]
    exact List.prefix_append _ _

/-- **Live registers are unique unless a replacement meets two of them.** After any history of edits of
a new instruction, every register is listed at most once exactly if no edit replaced a live register by
another live one; and a record that is built then holds every entry exactly in this case. -/
theorem edits_live_unique {kind : InstrKind} {operands : List Reg} {output : Option Reg}
    (hnew : Instr.new kind operands output = .ok i) (hedits : i.edits es = .ok i') :
    (i'.liveRegs.Nodup ↔ ¬ i.Merges es) ∧
    ∀ (f : Function) (nonce : Nat) (rec : Record), f.buildRecord i' nonce = .ok (.ok rec) →
      (i'.live <+: rec.live.map LiveValue.liveReg ↔ ¬ i.Merges es) := by
  have hunique : i'.liveRegs.Nodup ↔ ¬ i.Merges es := by
    have hempty : i.liveRegs.Nodup := by
      rw [liveRegs, live_new hnew]
      exact List.nodup_nil
    rw [nodup_edits hedits, and_iff_right hempty]
  exact ⟨hunique, fun f nonce rec hrec => (live_prefix_iff hrec).trans hunique⟩

end Instr

/-! ## A guard with two owned registers that become one -/

namespace Joined

def code : CodeUnit := { id := ⟨1⟩, name := "f", locals := ["x"], stackSize := 1, length := 16 }

def state : FrameState := { frame := { code, locals := [some ⟨1⟩] } }

def fresh : Instr where
  kind := .guard
  operands := [⟨0⟩]
  output := none
  deopt := some { guilty := some ⟨0⟩ }

def edits : List Instr.Edit :=
  [.setFrameState state, .addLive ⟨⟨0⟩, .owned, .object⟩, .addLive ⟨⟨1⟩, .owned, .object⟩, .copy,
    .rename ⟨0⟩ ⟨1⟩]

def edited : Instr where
  kind := .guard
  operands := [⟨1⟩]
  output := none
  frameState := some state
  deopt := some { live := [⟨⟨1⟩, .owned, .object⟩, ⟨⟨1⟩, .owned, .object⟩], guilty := some ⟨1⟩ }

end Joined

/-- Both shares are owned, and the record knows of one. -/
theorem edits_live_unique_joined : ∃ rec, Instr.new .guard [⟨0⟩] none = .ok Joined.fresh ∧
    Joined.fresh.edits Joined.edits = .ok Joined.edited ∧
    (Function.new Joined.code).buildRecord Joined.edited 0 = .ok (.ok rec) ∧
    rec.live.map LiveValue.liveReg = [⟨⟨1⟩, .owned, .object⟩] ∧
    ¬ Joined.edited.liveRegs.Nodup ∧ ¬ Joined.edited.live <+: rec.live.map LiveValue.liveReg := by
  let f := Function.new Joined.code
  have hnew : Instr.new .guard [⟨0⟩] none = .ok Joined.fresh := rfl
  have hedits : Joined.fresh.edits Joined.edits = .ok Joined.edited := rfl
  have hmerges : Joined.fresh.Merges Joined.edits :=
    ⟨Joined.edits.dropLast, .rename ⟨0⟩ ⟨1⟩, [], _, rfl, rfl, by decide, by decide, by decide⟩
  obtain ⟨hunique, hrecord⟩ := Instr.edits_live_unique hnew hedits
  refine ⟨_, hnew, hedits, rfl, rfl, ?_, ?_⟩
  · exact fun hn => hunique.1 hn hmerges
  · exact fun hlisted => (hrecord f 0 _ rfl).1 hlisted hmerges

end Bailout
