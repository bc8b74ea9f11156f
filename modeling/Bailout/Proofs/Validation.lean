import Bailout.Proofs.Fallible
import Bailout.Validation

/-!
# What the checks establish

A function that passes the checks has passed the check of every instruction in every reachable block.
So every reachable place where code can be left has a frame state, and each frame of it has the slots
that its code unit declares.
-/

namespace Bailout

/-! ## Shapes -/

theorem Activation.slots_length {a : Activation} (h : a.shapeError? = none) :
    a.slots.length = a.code.slots := by
  unfold Activation.shapeError? at h
  split at h
  · simp at h
  · split at h
    · simp at h
    · simp_all [Activation.slots, CodeUnit.slots]

theorem Activation.stack_length {a : Activation} (h : a.shapeError? = none) :
    a.stack.length ≤ a.code.stackSize := by
  unfold Activation.shapeError? at h
  split at h
  · simp at h
  · split at h
    · simp at h
    · split at h
      · simp at h
      · omega

theorem FrameState.checkShape_eq_ok {fs : FrameState} :
    fs.checkShape = .ok () ↔ ∀ a ∈ fs.frames, a.shapeError? = none := by
  unfold FrameState.checkShape
  rw [forM_eq_ok]
  simp only [FrameState.frames, List.mem_reverse]
  refine forall₂_congr fun a _ => ?_
  cases a.shapeError? <;> simp

namespace Function

variable {f : Function} {id : BlockId} {s : Site} {b : Block} {i : Instr} {n : Nat}

/-! ## From the order of the blocks -/

theorem validate_of_order {order : List BlockId} {defined : List Reg} {depths : Depths}
    (horder : f.graph.order = order) (hstructure : order.foldlM f.checkBlock [] = .ok defined)
    (hdepth : order.foldlM f.checkBlockDepth [(f.graph.entry, 0)] = .ok depths) :
    f.validate = .ok () := by
  unfold validate checkStructure checkInlineDepth
  rw [horder, hstructure, hdepth]
  rfl

theorem deoptSites_of_order {order : List BlockId} (h : f.graph.order = order) :
    f.deoptSites = order.flatMap f.blockSites := by
  rw [deoptSites, h]

/-! ## Instructions -/

theorem checkInstr_of_validate (hv : f.validate = .ok ()) (hid : id ∈ f.graph.order)
    (hb : f.graph.block? id = some b) (hi : b.instrs[n]? = some i) :
    ∃ before after, f.checkInstr id b.instrs.length before (i, n) = .ok after := by
  unfold validate at hv
  obtain ⟨_, hstruct, -⟩ := bind_eq_ok.1 hv
  unfold checkStructure at hstruct
  obtain ⟨defined, hfold, -⟩ := bind_eq_ok.1 hstruct
  obtain ⟨t, t', hblock⟩ := foldlM_mem hfold hid
  simp only [checkBlock, hb] at hblock
  split at hblock
  · cases hblock
  · refine foldlM_mem hblock (List.mem_iff_getElem?.2 ⟨n, ?_⟩)
    simp [List.getElem?_zipIdx, hi]

theorem checkInstr_eq_ok {length : Nat} {before after : List Reg} :
    f.checkInstr id length before (i, n) = .ok after ↔
      f.checkReads id (n + 1 == length) n i = .ok () ∧ f.checkOutput id before i = .ok after ∧
      f.checkPhi id i = .ok () ∧ checkFrameState id i = .ok () := by
  unfold checkInstr
  simp only [bind_eq_ok]
  constructor
  · rintro ⟨_, hreads, defined, houtput, _, hphi, _, hfs, hdefined⟩
    obtain rfl := Except.ok.inj hdefined
    exact ⟨hreads, houtput, hphi, hfs⟩
  · rintro ⟨hreads, houtput, hphi, hfs⟩
    exact ⟨(), hreads, after, houtput, (), hphi, (), hfs, rfl⟩

theorem checkReads_eq_ok {last : Bool} :
    f.checkReads id last n i = .ok () ↔ (i.opcode.isTerminator → last) ∧
      (∀ t ∈ i.successors, f.graph.contains t) ∧ ∀ r ∈ i.uses, f.env.contains r := by
  have htargets : i.successors.find? (fun t => !f.graph.contains t) = none ↔
      ∀ t ∈ i.successors, f.graph.contains t := by simp
  have huses : i.uses.find? (fun r => !f.env.contains r) = none ↔
      ∀ r ∈ i.uses, f.env.contains r := by simp
  rw [← htargets, ← huses]
  simp only [checkReads, throw_bind, pure_eq_ok]
  split
  · next hmisplaced => simp_all
  · next hplaced =>
    have hlast : i.opcode.isTerminator → last := by simpa using hplaced
    cases i.successors.find? fun t => !f.graph.contains t with
    | some target => simp
    | none =>
      cases i.uses.find? fun r => !f.env.contains r with
      | some r => simp
      | none => simpa using hlast

theorem checkFrameState_of_checkInstr {length : Nat} {before after : List Reg}
    (h : f.checkInstr id length before (i, n) = .ok after) : checkFrameState id i = .ok () :=
  (checkInstr_eq_ok.1 h).2.2.2

/-! ## Places where code can be left -/

theorem mem_deoptSites : s ∈ f.deoptSites ↔ s.block ∈ f.graph.order ∧
    ∃ b i, f.graph.block? s.block = some b ∧ b.instrs[s.index]? = some i ∧ i.opcode.hasDeoptData := by
  simp only [deoptSites, List.mem_flatMap]
  constructor
  · rintro ⟨id, hid, hs⟩
    unfold blockSites at hs
    split at hs
    · next b hb =>
      obtain ⟨⟨i, n⟩, hin, h⟩ := List.mem_filterMap.1 hs
      obtain ⟨hdeopt, rfl⟩ : i.opcode.hasDeoptData = true ∧ ⟨id, n⟩ = s := by simpa using h
      exact ⟨hid, b, i, hb, by simpa [List.mem_zipIdx_iff_getElem?] using hin, hdeopt⟩
    · simp at hs
  · rintro ⟨hid, b, i, hb, hi, hdeopt⟩
    refine ⟨s.block, hid, ?_⟩
    simp only [blockSites, hb, List.mem_filterMap]
    exact ⟨(i, s.index), by simpa [List.mem_zipIdx_iff_getElem?] using hi, by simp [hdeopt]⟩

theorem instr_eq_ok : f.instr s = .ok i ↔
    ∃ b, f.graph.block? s.block = some b ∧ b.instrs[s.index]? = some i := by
  unfold instr
  rw [bind_eq_ok]
  refine exists_congr fun b => and_congr ?_ ?_
  · unfold Graph.block
    cases f.graph.block? s.block <;> simp
  · unfold Block.instr
    cases b.instrs[s.index]? <;> simp

theorem instr_of_mem_deoptSites (hs : s ∈ f.deoptSites) : ∃ i, f.instr s = .ok i := by
  obtain ⟨-, b, i, hb, hi, -⟩ := mem_deoptSites.1 hs
  exact ⟨i, instr_eq_ok.2 ⟨b, hb, hi⟩⟩

/-- Where checked code can be left there is a frame state, and nothing is wrong with its shape. -/
theorem shape_of_validate (hv : f.validate = .ok ()) (hs : s ∈ f.deoptSites) (hi : f.instr s = .ok i) :
    ∃ fs, i.frameState = some fs ∧ ∀ a ∈ fs.frames, a.shapeError? = none := by
  obtain ⟨hid, b, i', hb, hi', hdeopt⟩ := mem_deoptSites.1 hs
  obtain ⟨b', hb', hi⟩ := instr_eq_ok.1 hi
  obtain rfl : b = b' := by simpa [hb] using hb'
  obtain rfl : i' = i := by simpa [hi'] using hi
  obtain ⟨before, after, hcheck⟩ := checkInstr_of_validate hv hid hb hi'
  have hfs := checkFrameState_of_checkInstr hcheck
  unfold checkFrameState at hfs
  cases h : i'.frameState with
  | none => simp [h, hdeopt] at hfs
  | some fs =>
    rw [h] at hfs
    exact ⟨fs, rfl, FrameState.checkShape_eq_ok.1 hfs⟩

theorem frameState_of_validate (hv : f.validate = .ok ()) (hs : s ∈ f.deoptSites)
    (hi : f.instr s = .ok i) :
    ∃ fs, i.frameState = some fs ∧ ∀ a ∈ fs.frames, a.slots.length = a.code.slots := by
  obtain ⟨fs, hfs, hshape⟩ := shape_of_validate hv hs hi
  exact ⟨fs, hfs, fun a ha => Activation.slots_length (hshape a ha)⟩

end Function

end Bailout
