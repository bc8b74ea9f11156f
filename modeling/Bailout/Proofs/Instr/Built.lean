import Bailout.Graph
import Bailout.Proofs.Fallible

/-!
# Instructions as they are made

An instruction is made with the operands that its kind asks for, and with deopt data exactly if its
opcode has some. Only opcodes that may have a frame state are given one. No operation changes this.
-/

namespace Bailout

/-- Redirecting a branch keeps the opcode, and with it the number of operands. -/
theorem InstrKind.setSuccessor?_same {k k' : InstrKind} {index : Nat} {target : BlockId}
    (h : k.setSuccessor? index target = some k') :
    k'.opcode = k.opcode ∧ k'.operandCount = k.operandCount := by
  unfold InstrKind.setSuccessor? at h
  split at h <;> cases h <;> exact ⟨rfl, rfl⟩

theorem InstrKind.setSuccessor?_ne_loadConst {k : InstrKind} {index : Nat} {target : BlockId} (ty : Ty) :
    k.setSuccessor? index target ≠ some (.loadConst ty) := by
  intro h
  unfold InstrKind.setSuccessor? at h
  split at h <;> cases h

namespace Instr

/-- Instructions as the operations make them. A frame state comes from `setFrameState`, and is at most
changed or taken away afterwards. -/
inductive Built : Instr → Prop where
  | new {kind : InstrKind} {operands : List Reg} {output : Option Reg} {i : Instr}
      (h : Instr.new kind operands output = .ok i) : Built i
  | setFrameState {i i' : Instr} {fs : FrameState} (hi : Built i) (h : i.setFrameState fs = .ok i') :
      Built i'
  | editFrameState {i : Instr} (g : FrameState → Option FrameState) (hi : Built i) :
      Built { i with frameState := i.frameState.bind g }
  | setSuccessor {i i' : Instr} {index : Nat} {target : BlockId} (hi : Built i)
      (h : i.setSuccessor index target = .ok i') : Built i'
  | setOperand {i i' : Instr} {index : Nat} {r : Reg} (hi : Built i)
      (h : i.setOperand index r = .ok i') : Built i'
  | place {i : Instr} (output : Option Reg) (offset : Option Offset) (block : Option BlockId)
      (hi : Built i) : Built { i with output, offset, block }
  | modifyDeopt {i i' : Instr} {g : DeoptInfo → DeoptInfo} (hi : Built i)
      (h : i.modifyDeopt g = .ok i') : Built i'
  | rename {i : Instr} (old new : Reg) (hi : Built i) : Built (i.rename old new)
  | pruned {i : Instr} (dead : List BlockId) (home : BlockId) (hi : Built i) :
      Built (i.pruned dead home)

/-- An instruction as it is new: nothing is live, and the blamed register is the one that the opcode
names. -/
theorem new_fields {kind : InstrKind} {operands : List Reg} {output : Option Reg} {i : Instr}
    (h : Instr.new kind operands output = .ok i) :
    kind.operandCount = .ok operands.length ∧
      i = { kind, operands, output, deopt :=
        if kind.opcode.hasDeoptData then
          some { guilty := kind.opcode.guiltyOperand?.bind (operands[·]?) : DeoptInfo }
        else none } := by
  unfold Instr.new at h
  obtain ⟨expected, hcount, h⟩ := bind_eq_ok.1 h
  simp only [pure_eq_ok, throw_bind] at h
  split at h
  · cases h
  · next hlen =>
    rw [hcount, Decidable.not_not.1 hlen]
    split at h
    · split at h
      · cases h
      · exact ⟨rfl, (Except.ok.inj h).symm⟩
    · exact ⟨rfl, (Except.ok.inj h).symm⟩

theorem new_eq_ok {kind : InstrKind} {operands : List Reg} {output : Option Reg} {i : Instr}
    (h : Instr.new kind operands output = .ok i) :
    kind.operandCount = .ok operands.length ∧
      ∃ deopt, i = { kind, operands, output, deopt } ∧ deopt.isSome = kind.opcode.hasDeoptData := by
  obtain ⟨hcount, rfl⟩ := new_fields h
  refine ⟨hcount, _, rfl, ?_⟩
  cases kind.opcode.hasDeoptData <;> rfl

theorem new_constant {ty : Ty} {operands : List Reg} {output : Option Reg} {i : Instr}
    (h : Instr.new (.loadConst ty) operands output = .ok i) : ty.isSingleValue := by
  unfold Instr.new at h
  obtain ⟨expected, -, h⟩ := bind_eq_ok.1 h
  simp only [pure_eq_ok, throw_bind] at h
  split at h
  · cases h
  · split at h
    · cases h
    · next hsingle => simpa using hsingle

theorem live_new {kind : InstrKind} {operands : List Reg} {output : Option Reg} {i : Instr}
    (h : Instr.new kind operands output = .ok i) : i.live = [] := by
  obtain ⟨-, rfl⟩ := new_fields h
  cases kind.opcode.hasDeoptData <;> rfl

theorem setFrameState_eq_ok {i i' : Instr} {fs : FrameState} (h : i.setFrameState fs = .ok i') :
    i.opcode.hasFrameState ∧ i' = { i with frameState := some fs } := by
  unfold setFrameState at h
  split at h
  · next hallowed => exact ⟨hallowed, (Except.ok.inj h).symm⟩
  · cases h

theorem setSuccessor_eq_ok {i i' : Instr} {index : Nat} {target : BlockId}
    (h : i.setSuccessor index target = .ok i') :
    ∃ kind, i' = { i with kind } ∧ kind.opcode = i.opcode ∧ kind.operandCount = i.kind.operandCount := by
  unfold setSuccessor at h
  split at h
  · next kind hkind =>
    exact ⟨kind, (Except.ok.inj h).symm, InstrKind.setSuccessor?_same hkind⟩
  · cases h

theorem setOperand_eq_ok {i i' : Instr} {index : Nat} {r : Reg} (h : i.setOperand index r = .ok i') :
    i' = { i with operands := i.operands.set index r } := by
  unfold setOperand at h
  split at h
  · exact (Except.ok.inj h).symm
  · cases h

theorem modifyDeopt_eq_ok {i i' : Instr} {g : DeoptInfo → DeoptInfo} (h : i.modifyDeopt g = .ok i') :
    ∃ d, i.deopt = some d ∧ i' = { i with deopt := some (g d) } := by
  unfold modifyDeopt at h
  split at h
  · next d hd => exact ⟨d, hd, (Except.ok.inj h).symm⟩
  · cases h

theorem link_eq_ok {i i' : Instr} {block : BlockId} (h : i.link block = .ok i') :
    i' = { i with block := some block } := by
  unfold link at h
  split at h
  · cases h
  · exact (Except.ok.inj h).symm

/-! ## What the operations keep -/

/-- What is so of every instruction that the operations make. -/
structure Formed (i : Instr) : Prop where
  operands : i.kind.operandCount = .ok i.operands.length
  deopt : i.deopt.isSome = i.opcode.hasDeoptData
  frameState : i.frameState.isSome → i.opcode.hasFrameState

theorem Formed.pruned {i : Instr} (h : i.Formed) (dead : List BlockId) (home : BlockId) :
    (i.pruned dead home).Formed := by
  unfold Instr.pruned
  split
  · split
    · exact ⟨by simp [InstrKind.operandCount], rfl, by simp⟩
    · exact h
  · exact h

theorem Built.formed {i : Instr} (h : i.Built) : i.Formed := by
  induction h with
  | new h =>
    obtain ⟨hcount, deopt, rfl, hdeopt⟩ := new_eq_ok h
    exact ⟨hcount, hdeopt, by simp⟩
  | setFrameState _ h ih =>
    obtain ⟨hallowed, rfl⟩ := setFrameState_eq_ok h
    exact ⟨ih.operands, ih.deopt, fun _ => hallowed⟩
  | @editFrameState i g _ ih =>
    refine ⟨ih.operands, ih.deopt, fun hs => ih.frameState ?_⟩
    cases hfs : i.frameState with
    | none => simp [hfs] at hs
    | some fs => rfl
  | setSuccessor _ h ih =>
    obtain ⟨kind, rfl, hopcode, hcount⟩ := setSuccessor_eq_ok h
    exact ⟨hcount.trans ih.operands, ih.deopt.trans (congrArg _ hopcode.symm),
      fun hs => (congrArg Opcode.hasFrameState hopcode).trans (ih.frameState hs)⟩
  | setOperand _ h ih =>
    rw [setOperand_eq_ok h]
    exact ⟨by simpa using ih.operands, ih.deopt, ih.frameState⟩
  | place _ _ _ _ ih => exact ⟨ih.operands, ih.deopt, ih.frameState⟩
  | modifyDeopt _ h ih =>
    obtain ⟨d, hd, rfl⟩ := modifyDeopt_eq_ok h
    exact ⟨ih.operands, by simpa [hd, Instr.opcode] using ih.deopt, ih.frameState⟩
  | rename _ _ _ ih =>
    exact ⟨by simpa [Instr.rename] using ih.operands,
      by simpa [Instr.rename, Instr.opcode] using ih.deopt,
      by simpa [Instr.rename, Instr.opcode] using ih.frameState⟩
  | pruned dead home _ ih => exact ih.pruned dead home

theorem Built.constant {i : Instr} (h : i.Built) {ty : Ty} (hkind : i.kind = .loadConst ty) :
    ty.isSingleValue := by
  induction h with
  | new h =>
    obtain ⟨-, deopt, rfl, -⟩ := new_eq_ok h
    obtain rfl := hkind
    exact new_constant h
  | setFrameState _ h ih =>
    obtain ⟨-, rfl⟩ := setFrameState_eq_ok h
    exact ih hkind
  | editFrameState _ _ ih => exact ih hkind
  | setSuccessor _ h ih =>
    unfold Instr.setSuccessor at h
    split at h
    · next kind hset =>
      obtain rfl := Except.ok.inj h
      obtain rfl : kind = .loadConst ty := hkind
      exact absurd hset (InstrKind.setSuccessor?_ne_loadConst ty)
    · cases h
  | setOperand _ h ih =>
    rw [setOperand_eq_ok h] at hkind
    exact ih hkind
  | place _ _ _ _ ih => exact ih hkind
  | modifyDeopt _ h ih =>
    obtain ⟨d, -, rfl⟩ := modifyDeopt_eq_ok h
    exact ih hkind
  | rename _ _ _ ih => exact ih hkind
  | @pruned i dead home _ ih =>
    refine ih ?_
    unfold Instr.pruned at hkind
    split at hkind
    · split at hkind
      · cases hkind
      · exact hkind
    · exact hkind

theorem Formed.phi {i : Instr} (h : i.Formed) {blocks : List BlockId} (hkind : i.kind = .phi blocks) :
    blocks.length = i.operands.length ∧ i.frameState = none ∧ i.deopt = none := by
  have hopcode : i.opcode = .phi := by
    rw [opcode, hkind]
    rfl
  refine ⟨?_, ?_, ?_⟩
  · have hcount := h.operands
    rw [hkind] at hcount
    exact Except.ok.inj hcount
  · rw [← Option.not_isSome_iff_eq_none]
    intro hs
    exact absurd (h.frameState hs) (by rw [hopcode]; decide)
  · rw [← Option.not_isSome_iff_eq_none, h.deopt, hopcode]
    decide

end Instr

end Bailout
