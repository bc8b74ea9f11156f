import Bailout.Instr.Basic
import Mathlib.Data.List.Basic

/-!
# Renaming what an instruction reads

An instruction is a form, in which the registers it reads are left out, together with these registers:
those that `Instr.uses` lists, in this order, and the one it blames. `Instr.eq_of_form` says that there
is nothing else to it. Replacing one register by another maps the registers and keeps the form, through
all frames of the frame state: `Instr.rename_reads`.
-/

namespace Bailout

theorem Reg.rename_ne {old new : Reg} (hne : old ≠ new) (r : Reg) : Reg.rename old new r ≠ old := by
  unfold Reg.rename
  split
  · exact hne.symm
  · assumption

theorem Reg.rename_rename {old new r : Reg} (h : r ≠ new) :
    Reg.rename new old (Reg.rename old new r) = r := by
  unfold Reg.rename
  by_cases hr : r = old
  · rw [if_pos hr, if_pos rfl, hr]
  · rw [if_neg hr, if_neg h]

/-! ## Replacing registers -/

section Replacing

variable (f g : Reg → Reg)

/-- Replaces every register. -/
def DeoptInfo.mapRegs (d : DeoptInfo) : DeoptInfo :=
  { d with
    live := d.live.map fun l => { l with reg := f l.reg }
    guilty := d.guilty.map f }

/-- Replaces every register that is read, and the one that is blamed. -/
def Instr.mapRegs (i : Instr) : Instr :=
  { i with
    operands := i.operands.map f
    frameState := i.frameState.map (FrameState.mapRegs f)
    deopt := i.deopt.map (DeoptInfo.mapRegs f) }

theorem Activation.mapRegs_mapRegs (a : Activation) : (a.mapRegs f).mapRegs g = a.mapRegs (g ∘ f) := by
  simp [Activation.mapRegs, Function.comp_def]

theorem Activation.uses_mapRegs (a : Activation) : (a.mapRegs f).uses = a.uses.map f := by
  have hslots : (a.mapRegs f).slots = a.slots.map (·.map f) := by
    rw [slots, slots, List.map_append]
    rfl
  rw [uses, uses, hslots, List.map_append, List.filterMap_map, List.map_filterMap]
  rfl

theorem FrameState.chain_mapRegs (fs : FrameState) :
    (fs.mapRegs f).chain = fs.chain.map (Activation.mapRegs f) := rfl

theorem FrameState.mapRegs_mapRegs (fs : FrameState) :
    (fs.mapRegs f).mapRegs g = fs.mapRegs (g ∘ f) := by
  simp [FrameState.mapRegs, Activation.mapRegs_mapRegs]

theorem FrameState.uses_mapRegs (fs : FrameState) : (fs.mapRegs f).uses = fs.uses.map f := by
  rw [uses, uses, chain_mapRegs, List.flatMap_map, List.map_flatMap]
  congr 1
  funext a
  exact a.uses_mapRegs f

theorem DeoptInfo.mapRegs_mapRegs (d : DeoptInfo) : (d.mapRegs f).mapRegs g = d.mapRegs (g ∘ f) := by
  simp [DeoptInfo.mapRegs, Function.comp_def]

namespace Instr

theorem mapRegs_mapRegs (i : Instr) : (i.mapRegs f).mapRegs g = i.mapRegs (g ∘ f) := by
  simp [mapRegs, Function.comp_def, FrameState.mapRegs_mapRegs, DeoptInfo.mapRegs_mapRegs]

theorem live_mapRegs (i : Instr) :
    (i.mapRegs f).live = i.live.map fun l => { l with reg := f l.reg } := by
  cases hd : i.deopt with
  | none => simp [live, mapRegs, hd]
  | some d => simp [live, mapRegs, hd, DeoptInfo.mapRegs]

theorem uses_mapRegs (i : Instr) : (i.mapRegs f).uses = i.uses.map f := by
  have hstate : ((i.mapRegs f).frameState.map FrameState.uses).getD [] =
      ((i.frameState.map FrameState.uses).getD []).map f := by
    cases hfs : i.frameState with
    | none => simp [mapRegs, hfs]
    | some fs => simp [mapRegs, hfs, FrameState.uses_mapRegs]
  rw [uses, uses, hstate, live_mapRegs]
  simp [mapRegs, Function.comp_def]

theorem guilty?_mapRegs (i : Instr) : (i.mapRegs f).guilty? = i.guilty?.map f := by
  cases hd : i.deopt with
  | none => simp [guilty?, mapRegs, hd]
  | some d => simp [guilty?, mapRegs, hd, DeoptInfo.mapRegs]

theorem rename_eq_mapRegs (old new : Reg) (i : Instr) :
    i.rename old new = i.mapRegs (Reg.rename old new) := rfl

end Instr

end Replacing

/-! ## Forms

Two things of one form read equally many registers in each part, so that a common list of reads can be
cut where the parts end. -/

section Forms

variable {f : Reg → Reg} {rest rest' : List Reg}

/-- Slots that are empty in the same places and hold the same registers are the same. -/
theorem slots_of_form {l l' : List (Option Reg)} (hform : l.map (·.map f) = l'.map (·.map f))
    (h : l.filterMap id ++ rest = l'.filterMap id ++ rest') : l = l' ∧ rest = rest' := by
  induction l generalizing l' with
  | nil =>
    obtain rfl : l' = [] := by simpa using hform
    exact ⟨rfl, h⟩
  | cons o l ih =>
    cases l' with
    | nil => simp at hform
    | cons o' l' =>
      obtain ⟨ho, hl⟩ := List.cons.inj hform
      cases o with
      | none =>
        obtain rfl : o' = none := Option.map_eq_none_iff.1 ho.symm
        obtain ⟨rfl, hrest⟩ := ih hl h
        exact ⟨rfl, hrest⟩
      | some r =>
        obtain ⟨r', rfl, -⟩ := Option.map_eq_some_iff.1 ho.symm
        obtain ⟨rfl, htail⟩ := List.cons.inj h
        obtain ⟨rfl, hrest⟩ := ih hl htail
        exact ⟨rfl, hrest⟩

theorem regs_of_form {l l' : List Reg} (hform : l.map f = l'.map f) (h : l ++ rest = l' ++ rest') :
    l = l' ∧ rest = rest' :=
  List.append_inj h (by simpa using congrArg List.length hform)

theorem Activation.eq_of_form {a a' : Activation} (hform : a.mapRegs f = a'.mapRegs f)
    (h : a.uses ++ rest = a'.uses ++ rest') : a = a' ∧ rest = rest' := by
  obtain ⟨code, offset, locals, cells, stack, handlers⟩ := a
  obtain ⟨code', offset', locals', cells', stack', handlers'⟩ := a'
  simp only [mapRegs, Activation.mk.injEq] at hform
  obtain ⟨rfl, rfl, hlocals, hcells, hstack, rfl⟩ := hform
  simp only [uses, slots, List.filterMap_append, List.append_assoc] at h
  obtain ⟨rfl, hfromCells⟩ := slots_of_form hlocals h
  obtain ⟨rfl, hfromStack⟩ := slots_of_form hcells hfromCells
  obtain ⟨rfl, hrest⟩ := regs_of_form hstack hfromStack
  exact ⟨rfl, hrest⟩

theorem chain_of_form {l l' : List Activation}
    (hform : l.map (Activation.mapRegs f) = l'.map (Activation.mapRegs f))
    (h : l.flatMap Activation.uses ++ rest = l'.flatMap Activation.uses ++ rest') :
    l = l' ∧ rest = rest' := by
  induction l generalizing l' with
  | nil =>
    obtain rfl : l' = [] := by simpa using hform
    exact ⟨rfl, h⟩
  | cons a l ih =>
    cases l' with
    | nil => simp at hform
    | cons a' l' =>
      obtain ⟨ha, hl⟩ := List.cons.inj hform
      simp only [List.flatMap_cons, List.append_assoc] at h
      obtain ⟨rfl, hafter⟩ := Activation.eq_of_form ha h
      obtain ⟨rfl, hrest⟩ := ih hl hafter
      exact ⟨rfl, hrest⟩

theorem FrameState.eq_of_form {fs fs' : FrameState} (hform : fs.mapRegs f = fs'.mapRegs f)
    (h : fs.uses ++ rest = fs'.uses ++ rest') : fs = fs' ∧ rest = rest' := by
  have hforms := congrArg FrameState.chain hform
  rw [chain_mapRegs, chain_mapRegs] at hforms
  obtain ⟨hchain, hrest⟩ := chain_of_form hforms h
  obtain ⟨frame, callers⟩ := fs
  obtain ⟨frame', callers'⟩ := fs'
  obtain ⟨rfl, rfl⟩ := List.cons.inj hchain
  exact ⟨rfl, hrest⟩

theorem live_of_form {l l' : List LiveReg}
    (hform : l.map (fun s => { s with reg := f s.reg }) = l'.map fun s => { s with reg := f s.reg })
    (h : l.map (·.reg) = l'.map (·.reg)) : l = l' := by
  induction l generalizing l' with
  | nil =>
    obtain rfl : l' = [] := by simpa using hform
    rfl
  | cons s l ih =>
    cases l' with
    | nil => simp at hform
    | cons s' l' =>
      obtain ⟨hs, hl⟩ := List.cons.inj hform
      obtain ⟨hreg, hregs⟩ := List.cons.inj h
      have hsame : s = s' := by
        cases s
        cases s'
        simp_all
      rw [hsame, ih hl hregs]

theorem DeoptInfo.eq_of_form {d d' : DeoptInfo} (hform : d.mapRegs f = d'.mapRegs f)
    (hlive : d.live.map (·.reg) = d'.live.map (·.reg)) (hguilty : d.guilty = d'.guilty) : d = d' := by
  obtain ⟨live, guilty, descr⟩ := d
  obtain ⟨live', guilty', descr'⟩ := d'
  obtain ⟨hform, -, rfl⟩ := DeoptInfo.mk.inj hform
  obtain rfl : live = live' := live_of_form hform hlive
  obtain rfl : guilty = guilty' := hguilty
  rfl

end Forms

namespace Instr

/-- The instruction with the same register in every place where it reads or blames one: its kind, output,
offset and block, the code units, offsets, empty slots and handlers of its frames, the ownership and
representation of its live registers, and its description. -/
def form (i : Instr) : Instr := i.mapRegs fun _ => ⟨0⟩

theorem form_mapRegs (f : Reg → Reg) (i : Instr) : (i.mapRegs f).form = i.form := mapRegs_mapRegs f _ i

/-- An instruction is its form, the registers it reads, and the one it blames. -/
theorem eq_of_form {i j : Instr} (hform : i.form = j.form) (huses : i.uses = j.uses)
    (hguilty : i.guilty? = j.guilty?) : i = j := by
  obtain ⟨kind, operands, output, offset, block, frameState, deopt⟩ := i
  obtain ⟨kind', operands', output', offset', block', frameState', deopt'⟩ := j
  obtain ⟨rfl, hoperands, rfl, rfl, rfl, hstate, hdeopt⟩ := Instr.mk.inj hform
  simp only [uses, List.append_assoc] at huses
  obtain ⟨rfl, huses⟩ := regs_of_form hoperands huses
  obtain ⟨rfl, hlive⟩ : frameState = frameState' ∧
      (deopt.map (·.live) |>.getD []).map (·.reg) = (deopt'.map (·.live) |>.getD []).map (·.reg) := by
    cases frameState with
    | none =>
      obtain rfl : frameState' = none := Option.map_eq_none_iff.1 hstate.symm
      exact ⟨rfl, huses⟩
    | some fs =>
      obtain ⟨fs', rfl, hfs⟩ := Option.map_eq_some_iff.1 hstate.symm
      obtain ⟨rfl, hlive⟩ := FrameState.eq_of_form hfs.symm huses
      exact ⟨rfl, hlive⟩
  obtain rfl : deopt = deopt' := by
    cases deopt with
    | none => exact (Option.map_eq_none_iff.1 hdeopt.symm).symm
    | some d =>
      obtain ⟨d', rfl, hd⟩ := Option.map_eq_some_iff.1 hdeopt.symm
      rw [DeoptInfo.eq_of_form hd.symm hlive hguilty]
  rfl

/-- **Replacing a register renames all reads and changes nothing else.** The registers read are mapped in
order, as is the blamed one, and the form stays. So the old register is not read any more, and unless the
new one occurred before, the opposite replacement restores the instruction. -/
theorem rename_reads (old new : Reg) (i : Instr) :
    (i.rename old new).uses = i.uses.map (Reg.rename old new) ∧
    (i.rename old new).guilty? = i.guilty?.map (Reg.rename old new) ∧
    (i.rename old new).form = i.form ∧
    (old ≠ new → old ∉ (i.rename old new).uses) ∧
    (new ∉ i.uses → i.guilty? ≠ some new → (i.rename old new).rename new old = i) := by
  simp only [rename_eq_mapRegs, uses_mapRegs, guilty?_mapRegs, form_mapRegs, true_and]
  refine ⟨fun hne hmem => ?_, fun huses hguilty => eq_of_form ?_ ?_ ?_⟩
  · obtain ⟨r, -, hr⟩ := List.mem_map.1 hmem
    exact Reg.rename_ne hne r hr
  · rw [form_mapRegs, form_mapRegs]
  · rw [uses_mapRegs, uses_mapRegs, List.map_map]
    refine (List.map_congr_left fun r hr => ?_).trans (List.map_id _)
    exact Reg.rename_rename fun heq => huses (heq ▸ hr)
  · rw [guilty?_mapRegs, guilty?_mapRegs]
    cases hg : i.guilty? with
    | none => rfl
    | some r =>
      have hr : r ≠ new := fun heq => hguilty (by rw [hg, heq])
      rw [Option.map_some, Option.map_some, Reg.rename_rename hr]

end Instr

/-! ## A guard in an inlined call

The register it checks is also a local of the caller, on the stack, and live. -/

namespace Guarded

def outer : CodeUnit := { id := ⟨1⟩, name := "outer", locals := ["x", "y"], stackSize := 1, length := 16 }

def inner : CodeUnit :=
  { id := ⟨2⟩, name := "inner", locals := ["a"], cells := ["c"], stackSize := 1, length := 16 }

def caller : Activation where
  code := outer
  offset := ⟨4⟩
  locals := [some ⟨0⟩, none]
  cells := []
  handlers := [⟨.setupFinally, ⟨8⟩, 0⟩]

def guard : Instr where
  kind := .guard
  operands := [⟨0⟩]
  output := none
  offset := some ⟨6⟩
  block := some ⟨0⟩
  frameState := some {
    frame := { code := inner, offset := ⟨6⟩, locals := [some ⟨1⟩], cells := [none], stack := [⟨0⟩] }
    callers := [caller] }
  deopt := some {
    live := [⟨⟨0⟩, .owned, .object⟩, ⟨⟨1⟩, .uncounted, .signed⟩]
    guilty := some ⟨0⟩
    descr := some "not a number" }

end Guarded

theorem rename_reads_inlined : ⟨2⟩ ∉ Guarded.guard.uses ∧ Guarded.guard.guilty? ≠ some ⟨2⟩ ∧
    (Guarded.guard.rename ⟨0⟩ ⟨2⟩).uses = [⟨2⟩, ⟨1⟩, ⟨2⟩, ⟨2⟩, ⟨2⟩, ⟨1⟩] ∧
    ⟨0⟩ ∉ (Guarded.guard.rename ⟨0⟩ ⟨2⟩).uses ∧
    (Guarded.guard.rename ⟨0⟩ ⟨2⟩).rename ⟨2⟩ ⟨0⟩ = Guarded.guard := by
  obtain ⟨huses, -, -, hgone, hback⟩ := Guarded.guard.rename_reads ⟨0⟩ ⟨2⟩
  have hnew : ⟨2⟩ ∉ Guarded.guard.uses := by decide
  have hblame : Guarded.guard.guilty? ≠ some ⟨2⟩ := by decide
  exact ⟨hnew, hblame, huses, hgone (by decide), hback hnew hblame⟩

end Bailout
