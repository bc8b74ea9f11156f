import Bailout.Proofs.Compile.Unreachable
import Bailout.Proofs.Graph.Trimmed

/-!
# Checked functions without their unreachable blocks

The checks look at reachable blocks only, but two of them see the others: a phi is compared with all
predecessors of its block, and a branch may lead to any block. A checked phi has an input for each
predecessor, if no block supplies two, and loses those that the block loses as predecessors. Branches of
reachable blocks lead to reachable ones. So a checked function stays checked: `validate_trim`.
-/

namespace Bailout

/-- Only the end of a block leads to other blocks. -/
theorem InstrKind.isTerminator_of_mem_successors {k : InstrKind} {target : BlockId}
    (h : target ∈ k.successors) : k.opcode.isTerminator := by
  unfold InstrKind.successors at h
  split at h
  · rfl
  · rfl
  · rfl
  · exact absurd h List.not_mem_nil

namespace Function

variable {f : Function} {id : BlockId} {b : Block} {i : Instr} {n : Nat}

/-- No phi of a reachable block has two inputs from one block. -/
def DistinctInputs (f : Function) : Prop :=
  ∀ id b, f.graph.block? id = some b → f.graph.Reaches f.graph.entry id →
    ∀ i ∈ b.instrs, ∀ blocks, i.kind = .phi blocks → blocks.Nodup

/-! ## Instructions -/

/-- A target of a checked instruction of a reachable block is reachable too. -/
theorem target_mem_order (hid : id ∈ f.graph.order) (hb : f.graph.block? id = some b)
    (hi : b.instrs[n]? = some i) (hcheck : f.checkReads id (n + 1 == b.instrs.length) n i = .ok ())
    {t : BlockId} (ht : t ∈ i.successors) : t ∈ f.graph.order := by
  obtain ⟨hlast, htargets, -⟩ := checkReads_eq_ok.1 hcheck
  have hterm : i.isTerminator := InstrKind.isTerminator_of_mem_successors ht
  have hend : b.instrs.getLast? = some i := by
    have hlen : n + 1 = b.instrs.length := by simpa using hlast hterm
    rw [List.getLast?_eq_getElem?, ← hlen, Nat.add_sub_cancel, hi]
  have hsucc : f.graph.successors id = i.successors := by
    simp [Graph.successors, hb, Block.successors, Block.terminator?, hend, Option.filter_some, hterm]
  exact Graph.order_closed hid (hsucc ▸ ht) (htargets t ht)

theorem checkReads_trim (hf : f.graph.Consistent) (hid : id ∈ f.graph.order)
    (hb : f.graph.block? id = some b) (hi : b.instrs[n]? = some i)
    (h : f.checkReads id (n + 1 == b.instrs.length) n i = .ok ()) :
    f.trim.checkReads id (n + 1 == b.instrs.length) n (i.pruned f.graph.dead id) = .ok () := by
  obtain ⟨hlast, htargets, huses⟩ := checkReads_eq_ok.1 h
  have hloses := (hf.built id b hb i (List.mem_of_getElem? hi)).formed.loses f.graph.dead id
  refine checkReads_eq_ok.2 ⟨by rwa [Instr.opcode_pruned], fun t ht => ?_, fun r hr => ?_⟩
  · rw [Instr.successors_pruned] at ht
    exact (Graph.contains_removeUnreachable hf.numbered).2
      ⟨htargets t ht, target_mem_order hid hb hi h ht⟩
  · exact huses r (hloses.uses_subset hr)

theorem checkPhi_of_ne_phi (h : i.opcode ≠ .phi) : f.checkPhi id i = .ok () := by
  unfold checkPhi
  split
  · next blocks hkind => exact absurd (by rw [Instr.opcode, hkind]; rfl) h
  · rfl

/-- A phi loses the inputs from blocks that its block loses as predecessors. -/
theorem checkPhi_trim (hn : f.graph.Numbered) (hi : i.Formed)
    (hdistinct : ∀ blocks, i.kind = .phi blocks → blocks.Nodup) (h : f.checkPhi id i = .ok ()) :
    f.trim.checkPhi id (i.pruned f.graph.dead id) = .ok () := by
  by_cases hop : i.opcode = .phi
  · obtain ⟨blocks, hkind⟩ : ∃ blocks, i.kind = .phi blocks := by
      unfold Instr.opcode at hop
      cases hk : i.kind with
      | phi blocks => exact ⟨blocks, rfl⟩
      | _ => rw [hk] at hop; cases hop
    obtain ⟨hlen, hmem⟩ := (checkPhi_eq_ok hkind).1 h
    have hperm : blocks.Perm (f.graph.predecessors id) :=
      ((hdistinct blocks hkind).subperm hmem).perm_of_length_le (Nat.le_of_eq hlen.symm)
    have hstay : blocks.filter (· ∉ f.graph.dead) = blocks.filter (· ∈ f.graph.order) := by
      refine List.filter_congr fun p hp => ?_
      have hc : f.graph.contains p :=
        Graph.contains_of_mem_successors ((Graph.mem_predecessors hn).1 (hmem p hp))
      simp [Graph.mem_dead hn, hc]
    have hperm' : (blocks.filter (· ∉ f.graph.dead)).Perm (f.trim.graph.predecessors id) := by
      rw [hstay, trim, Graph.predecessors_removeUnreachable hn]
      exact hperm.filter _
    exact (checkPhi_eq_ok ((hi.loses f.graph.dead id).kind_eq hkind)).2
      ⟨hperm'.length_eq, fun p hp => hperm'.mem_iff.1 hp⟩
  · rw [Instr.pruned_of_ne_phi _ _ hop]
    exact checkPhi_of_ne_phi hop

theorem checkInstr_trim (hf : f.graph.Consistent) (hd : f.DistinctInputs) (hid : id ∈ f.graph.order)
    (hb : f.graph.block? id = some b) (hi : b.instrs[n]? = some i) {before after : List Reg}
    (h : f.checkInstr id b.instrs.length before (i, n) = .ok after) :
    f.trim.checkInstr id b.instrs.length before (i.pruned f.graph.dead id, n) = .ok after := by
  obtain ⟨hreads, houtput, hphi, hfs⟩ := checkInstr_eq_ok.1 h
  have hmem : i ∈ b.instrs := List.mem_of_getElem? hi
  have hformed := (hf.built id b hb i hmem).formed
  have hreach := (Graph.mem_order_iff_reaches (Graph.contains_of_block? hb)).1 hid
  refine checkInstr_eq_ok.2 ⟨checkReads_trim hf hid hb hi hreads, ?_,
    checkPhi_trim hf.numbered hformed (hd id b hb hreach i hmem) hphi, ?_⟩
  · unfold checkOutput at houtput ⊢
    rwa [Instr.output_pruned, Instr.opcode_pruned]
  · unfold checkFrameState at hfs ⊢
    rwa [(hformed.loses f.graph.dead id).frameState_eq, Instr.opcode_pruned]

/-! ## Blocks -/

theorem block?_trim (hf : f.graph.Consistent) (hid : id ∈ f.graph.order) :
    f.trim.graph.block? id = (f.graph.block? id).map (Block.pruned f.graph.dead) := by
  rw [trim, Graph.block?_removeUnreachable hf.numbered, if_pos hid]

theorem checkBlock_trim (hf : f.graph.Consistent) (hd : f.DistinctInputs) (hid : id ∈ f.graph.order)
    {before after : List Reg} (h : f.checkBlock before id = .ok after) :
    f.trim.checkBlock before id = .ok after := by
  unfold checkBlock at h ⊢
  rw [block?_trim hf hid]
  cases hb : f.graph.block? id with
  | none => simpa [hb] using h
  | some b =>
    simp only [hb, Option.map_some, Block.terminator?_pruned, Option.isNone_map] at h ⊢
    split at h
    · cases h
    · next hends =>
      rw [if_neg hends, Block.pruned, List.length_map, List.zipIdx_map, List.foldlM_map,
        hf.numbered id b hb]
      refine foldlM_mono ?_ h
      rintro ⟨i, n⟩ hin before after hcheck
      exact checkInstr_trim hf hd hid hb (by simpa [List.mem_zipIdx_iff_getElem?] using hin) hcheck

theorem depthAfter_pruned (hi : i.Formed) (dead : List BlockId) (depth : Nat) :
    depthAfter id depth (i.pruned dead id) = depthAfter id depth i := by
  unfold depthAfter
  rw [Instr.opcode_pruned, (hi.loses dead id).frameState_eq]

theorem checkBlockDepth_trim (hf : f.graph.Consistent) (hid : id ∈ f.graph.order) {ds ds' : Depths}
    (h : f.checkBlockDepth ds id = .ok ds') : f.trim.checkBlockDepth ds id = .ok ds' := by
  unfold checkBlockDepth at h ⊢
  rw [block?_trim hf hid]
  cases hb : f.graph.block? id with
  | none => simpa [hb] using h
  | some b =>
    simp only [hb, Option.map_some, Block.successors_pruned] at h ⊢
    obtain ⟨depth, hdepth, hpass⟩ := bind_eq_ok.1 h
    refine bind_eq_ok.2 ⟨depth, ?_, hpass⟩
    rw [Block.pruned, List.foldlM_map, hf.numbered id b hb]
    refine foldlM_mono (fun i hi d d' hafter => ?_) hdepth
    rwa [depthAfter_pruned (hf.built id b hb i hi).formed]

theorem validate_trim (hf : f.graph.Consistent) (hd : f.DistinctInputs) (h : f.validate = .ok ()) :
    f.trim.validate = .ok () := by
  obtain ⟨_, hstructure, hdepth⟩ := bind_eq_ok.1 h
  obtain ⟨defined, hblocks, -⟩ := bind_eq_ok.1 hstructure
  obtain ⟨depths, hdepths, -⟩ := bind_eq_ok.1 hdepth
  have horder : f.trim.graph.order = f.graph.order := Graph.order_removeUnreachable hf.numbered
  have hstructure' : f.trim.checkStructure = .ok () := by
    unfold checkStructure
    rw [horder]
    exact bind_eq_ok.2
      ⟨defined, foldlM_mono (fun id hid _ _ => checkBlock_trim hf hd hid) hblocks, rfl⟩
  have hdepth' : f.trim.checkInlineDepth = .ok () := by
    unfold checkInlineDepth
    rw [horder]
    exact bind_eq_ok.2 ⟨depths, foldlM_mono (fun id hid _ _ => checkBlockDepth_trim hf hid) hdepths, rfl⟩
  exact bind_eq_ok.2 ⟨(), hstructure', hdepth'⟩

/-- **Taking unreachable blocks out keeps the program.** What goes is exactly what the entry does not
reach; what stays loses the phi inputs from there and nothing else; doing it again changes nothing; and a
checked function stays checked, if no reachable phi has two inputs from one block. -/
theorem trim_preserves (h : f.graph.Built) :
    f.graph.Trimmed f.graph.removeUnreachable.1 f.trim.graph ∧
      (f.validate = .ok () → f.DistinctInputs → f.trim.validate = .ok ()) :=
  ⟨Graph.removeUnreachable_trimmed h.consistent, fun hv hd => validate_trim h.consistent hd hv⟩

end Function

/-! ## A phi that is linked elsewhere

Two blocks lead to a phi, one of them unreachable. The phi is exchanged for a copy as a value, so its link
can be any. -/

namespace Stray

def code : CodeUnit := { id := ⟨1⟩, name := "f", locals := ["x", "y"], stackSize := 2, length := 16 }

def phi (inputs : List (BlockId × Reg)) (link : Option BlockId) : Instr where
  kind := .phi (inputs.map (·.1))
  operands := inputs.map (·.2)
  output := some ⟨2⟩
  block := link

def entry : Block := ⟨⟨0⟩, [
  { kind := .loadArg 0, operands := [], output := some ⟨0⟩, block := some ⟨0⟩ },
  { kind := .loadArg 1, operands := [], output := some ⟨1⟩, block := some ⟨0⟩ },
  { kind := .branch ⟨2⟩, operands := [], output := none, block := some ⟨0⟩ }]⟩

def detached : Block :=
  ⟨⟨1⟩, [{ kind := .branch ⟨2⟩, operands := [], output := none, block := some ⟨1⟩ }]⟩

def join (inputs : List (BlockId × Reg)) (link : Option BlockId) : Block := ⟨⟨2⟩, [
  phi inputs link, { kind := .ret, operands := [⟨2⟩], output := none, block := some ⟨2⟩ }]⟩

def func (link : Option BlockId) : Function where
  name := "f"
  code
  env := ⟨[.top, .top, .top]⟩
  graph := ⟨[some entry, some detached, some (join [(⟨1⟩, ⟨1⟩), (⟨0⟩, ⟨0⟩)] link)], ⟨0⟩⟩

/-- The function as it is made, before the exchange. -/
def made : Except Fault Function :=
  [(⟨0⟩, .loadArg 0, []), (⟨0⟩, .loadArg 1, []), (⟨0⟩, .branch ⟨2⟩, []), (⟨1⟩, .branch ⟨2⟩, []),
    (⟨2⟩, .phi [⟨1⟩, ⟨0⟩], [⟨1⟩, ⟨0⟩]), (⟨2⟩, .ret, [⟨2⟩])].foldlM
    (fun f (e : BlockId × InstrKind × List Reg) => do return (← f.emit e.1 e.2.1 e.2.2 none).2)
    { Function.new code with graph := Graph.new.alloc.2.alloc.2 }

theorem built (link : Option BlockId) : (func link).graph.Built := by
  have hmade : (func (some ⟨2⟩)).graph.Built := by
    refine foldlM_induct (fun f : Function => f.graph.Built) (fun e _ f f' hf h => ?_)
      Graph.Built.new.alloc.alloc (show made = .ok (func (some ⟨2⟩)) from rfl)
    obtain ⟨⟨output, f''⟩, hemit, h⟩ := bind_eq_ok.1 h
    obtain rfl := Except.ok.inj h
    exact Function.built_emit hf hemit
  have hnew : Instr.new (.phi [⟨1⟩, ⟨0⟩]) [⟨1⟩, ⟨0⟩] (some ⟨2⟩) =
      .ok (phi [(⟨1⟩, ⟨1⟩), (⟨0⟩, ⟨0⟩)] none) := rfl
  refine Function.built_modifyInstr hmade (s := ⟨⟨2⟩, 0⟩) (fun i old i' _ h => ?_)
    (show (func (some ⟨2⟩)).modifyInstr ⟨⟨2⟩, 0⟩
      (fun old => .ok (old, phi [(⟨1⟩, ⟨1⟩), (⟨0⟩, ⟨0⟩)] link)) = .ok (_, func link) from rfl)
  obtain ⟨-, rfl⟩ := Prod.mk.inj (Except.ok.inj h)
  exact (Instr.Built.new hnew).place _ _ link

theorem order (link : Option BlockId) : (func link).graph.order = [⟨0⟩, ⟨2⟩] :=
  Graph.order_of_within 4 rfl

theorem validate (link : Option BlockId) : (func link).validate = .ok () :=
  Function.validate_of_order (order link) rfl rfl

theorem distinctInputs (link : Option BlockId) : (func link).DistinctInputs := by
  rintro ⟨k⟩ b hb - i hi blocks hkind
  match k with
  | 0 =>
    obtain rfl := Option.some.inj hb
    simp only [entry, List.mem_cons, List.not_mem_nil, or_false] at hi
    rcases hi with rfl | rfl | rfl <;> cases hkind
  | 1 =>
    obtain rfl := Option.some.inj hb
    obtain rfl := List.mem_singleton.1 hi
    cases hkind
  | 2 =>
    obtain rfl := Option.some.inj hb
    simp only [join, List.mem_cons, List.not_mem_nil, or_false] at hi
    rcases hi with rfl | rfl
    · obtain rfl := InstrKind.phi.inj hkind
      decide
    · cases hkind
  | k + 3 => simp [func, Graph.block?] at hb

theorem removeUnreachable (link : Option BlockId) : (func link).graph.removeUnreachable =
    ([detached], ⟨[some entry, none, some (join [(⟨0⟩, ⟨0⟩)] (some ⟨2⟩))], ⟨0⟩⟩) := by
  simp only [Graph.removeUnreachable, Graph.unreachable, order]
  rfl

end Stray

theorem trim_preserves_stray :
    (Stray.func (some ⟨2⟩)).graph.Trimmed [Stray.detached] (Stray.func (some ⟨2⟩)).trim.graph ∧
      (Stray.func (some ⟨2⟩)).trim.validate = .ok () := by
  obtain ⟨htrimmed, hvalidate⟩ := Function.trim_preserves (Stray.built (some ⟨2⟩))
  rw [Stray.removeUnreachable] at htrimmed
  exact ⟨htrimmed, hvalidate (Stray.validate _) (Stray.distinctInputs _)⟩

/-- A phi that is linked nowhere does not stay so when it loses an input. -/
theorem trim_links_exchanged : (Stray.func none).graph.Built ∧ (Stray.func none).validate = .ok () ∧
    (Stray.func none).DistinctInputs ∧
    (Stray.func none).instr ⟨⟨2⟩, 0⟩ = .ok (Stray.phi [(⟨1⟩, ⟨1⟩), (⟨0⟩, ⟨0⟩)] none) ∧
    (Stray.func none).trim.instr ⟨⟨2⟩, 0⟩ = .ok (Stray.phi [(⟨0⟩, ⟨0⟩)] (some ⟨2⟩)) := by
  refine ⟨Stray.built none, Stray.validate none, Stray.distinctInputs none, rfl, ?_⟩
  unfold Function.instr Function.trim
  rw [Stray.removeUnreachable]
  rfl

end Bailout
