import Bailout.Proofs.Graph.Built
import Bailout.Proofs.Graph.ReversePostorder
import Bailout.Proofs.PhiInputs

/-!
# What taking unreachable blocks out does

Phis take inputs by block, so a block that goes takes its inputs with it, each with its operand. `Loses`
says what becomes of an instruction, and `Graph.Trimmed` what becomes of a graph. Both are said without
the functions that do it, and hold for graphs as they are made: `removeUnreachable_trimmed`.
-/

namespace Bailout

namespace Instr

variable {gone : List BlockId} {home : BlockId} {i i' : Instr}

/-- What an instruction in the block `home` becomes when the blocks `gone` are taken out. A phi loses the
pairs of block and operand whose block goes, keeps the others in their order, and is then linked to the
block it is in. Nothing else changes. -/
inductive Loses (gone : List BlockId) (home : BlockId) (i : Instr) : Instr → Prop where
  | nothing (hall : ∀ blocks, i.kind = .phi blocks → ∀ p ∈ blocks, p ∉ gone) : Loses gone home i i
  | inputs {blocks kept : List BlockId} {operands : List Reg} (hkind : i.kind = .phi blocks)
      (hsome : ∃ p ∈ blocks, p ∈ gone) (hpaired : blocks.length = i.operands.length)
      (hpaired' : kept.length = operands.length)
      (hkept : kept.zip operands = (blocks.zip i.operands).filter fun p => p.1 ∉ gone) :
      Loses gone home i { i with kind := .phi kept, operands, block := some home }

theorem Formed.loses (h : i.Formed) (gone : List BlockId) (home : BlockId) :
    i.Loses gone home (i.pruned gone home) := by
  unfold Instr.pruned
  split
  · next blocks hkind =>
    split
    · next hany =>
      obtain ⟨hpaired, hfs, hdeopt⟩ := h.phi hkind
      have hstay : (fun p : BlockId × Reg => !gone.contains p.1) = fun p => decide (p.1 ∉ gone) := by
        funext p
        simp
      have hzip : ∀ l : List (BlockId × Reg), (l.map Prod.fst).zip (l.map Prod.snd) = l :=
        fun l => (List.zip_of_prod rfl rfl).symm
      have hloses : Loses gone home i _ := .inputs hkind (by simpa using hany) hpaired
        (by rw [List.length_map, List.length_map]) (hzip _)
      rw [hdeopt, hfs] at hloses
      rw [hstay]
      exact hloses
    · next hany =>
      refine .nothing fun blocks' hkind' p hp => ?_
      obtain rfl : blocks = blocks' := by simpa [hkind] using hkind'
      simp only [List.any_eq_true, not_exists, not_and, List.contains_iff_mem] at hany
      exact hany p hp
  · next hphi => exact .nothing fun blocks hkind => absurd hkind (hphi blocks)

theorem Loses.frameState_eq (h : i.Loses gone home i') : i'.frameState = i.frameState := by
  cases h <;> rfl

theorem Loses.kind_eq (h : i.Loses gone home i') {blocks : List BlockId} (hkind : i.kind = .phi blocks) :
    i'.kind = .phi (blocks.filter (· ∉ gone)) := by
  cases h with
  | nothing hall =>
    rw [hkind, List.filter_eq_self.2]
    intro p hp
    simpa using hall blocks hkind p hp
  | @inputs blocks' kept operands hkind' _ hpaired hpaired' hkept =>
    obtain rfl : blocks = blocks' := by simpa [hkind] using hkind'
    show InstrKind.phi kept = _
    congr 1
    calc kept = (kept.zip operands).map Prod.fst := (List.map_fst_zip (Nat.le_of_eq hpaired')).symm
      _ = ((blocks.zip i.operands).filter fun p => p.1 ∉ gone).map Prod.fst := by rw [hkept]
      _ = ((blocks.zip i.operands).map Prod.fst).filter (· ∉ gone) := by
        rw [List.filter_map]
        rfl
      _ = blocks.filter (· ∉ gone) := by rw [List.map_fst_zip (Nat.le_of_eq hpaired)]

theorem Loses.uses_subset (h : i.Loses gone home i') {r : Reg} (hr : r ∈ i'.uses) : r ∈ i.uses := by
  cases h with
  | nothing => exact hr
  | @inputs blocks kept operands _ _ hpaired hpaired' hkept =>
    have hsub : ∀ r ∈ operands, r ∈ i.operands := by
      have hsnd := congrArg (List.map Prod.snd) hkept
      rw [List.map_snd_zip (Nat.le_of_eq hpaired'.symm)] at hsnd
      intro r hr
      rw [hsnd] at hr
      obtain ⟨p, hp, rfl⟩ := List.mem_map.1 hr
      exact (List.of_mem_zip (List.mem_of_mem_filter hp)).2
    unfold uses at hr ⊢
    simp only [List.mem_append] at hr ⊢
    exact hr.imp_left (Or.imp_left (hsub r))

end Instr

namespace Graph

variable {g : Graph} {id : BlockId} {b : Block}

/-- The graph `g'` is `g` without the blocks `removed`, which are those that the entry does not reach. -/
structure Trimmed (g : Graph) (removed : List Block) (g' : Graph) : Prop where
  mem : ∀ b, b ∈ removed ↔ g.block? b.id = some b ∧ ¬ g.Reaches g.entry b.id
  /-- The removed blocks come in order of their numbers. -/
  sorted : removed.Pairwise fun a b => a.id.index < b.id.index
  entry : g'.entry = g.entry
  contains : ∀ id, g'.contains id ↔ g.contains id ∧ g.Reaches g.entry id
  order : g'.order = g.order
  /-- A block that stays keeps its number and its instructions, but for inputs of phis. -/
  block : ∀ id b, g.block? id = some b → g.Reaches g.entry id →
    ∃ b', g'.block? id = some b' ∧ b'.id = id ∧
      List.Forall₂ (Instr.Loses (removed.map (·.id)) id) b.instrs b'.instrs
  /-- Doing it again removes nothing and changes nothing. -/
  again : g'.removeUnreachable = ([], g')

theorem contains_of_block? (hb : g.block? id = some b) : g.contains id := by
  simp [Graph.contains, hb]

theorem mem_unreachable_iff (hn : g.Numbered) :
    b ∈ g.unreachable ↔ g.block? b.id = some b ∧ ¬ g.Reaches g.entry b.id := by
  rw [mem_unreachable]
  constructor
  · rintro ⟨⟨id, hid⟩, hout⟩
    have hb : g.block? b.id = some b := by rw [hn id b hid, hid]
    exact ⟨hb, (mem_order_iff_reaches (contains_of_block? hb)).not.1 hout⟩
  · rintro ⟨hb, hout⟩
    exact ⟨⟨b.id, hb⟩, (mem_order_iff_reaches (contains_of_block? hb)).not.2 hout⟩

theorem contains_removeUnreachable (hn : g.Numbered) :
    g.removeUnreachable.2.contains id ↔ g.contains id ∧ id ∈ g.order := by
  unfold Graph.contains
  rw [block?_removeUnreachable hn]
  split
  · next hid => simp [hid]
  · next hid => simp [hid]

/-- Where every block is reached, nothing is removed and nothing changes. -/
theorem removeUnreachable_of_reached (h : g.unreachable = []) : g.removeUnreachable = ([], g) := by
  have hsame : ∀ b : Block, b.instrs.map (Instr.pruned [] b.id) = b.instrs := by
    intro b
    refine List.map_id'' (fun i => ?_) b.instrs
    unfold Instr.pruned
    split <;> simp
  unfold removeUnreachable
  rw [h]
  refine Prod.ext rfl ?_
  show { g with blocks := g.blocks.map _ } = g
  rw [List.map_id'']
  intro b
  cases b with
  | none => rfl
  | some b => simp [hsame]

theorem unreachable_removeUnreachable (hn : g.Numbered) : g.removeUnreachable.2.unreachable = [] := by
  rw [List.eq_nil_iff_forall_not_mem]
  intro b' hb'
  obtain ⟨⟨id, hid⟩, hout⟩ := mem_unreachable.1 hb'
  rw [order_removeUnreachable hn] at hout
  rw [block?_removeUnreachable hn] at hid
  split at hid
  · next hmem =>
    obtain ⟨b, hb, rfl⟩ := Option.map_eq_some_iff.1 hid
    exact hout (by rwa [Block.pruned, hn id b hb])
  · cases hid

theorem removeUnreachable_trimmed (h : g.Consistent) :
    g.Trimmed g.removeUnreachable.1 g.removeUnreachable.2 where
  mem b := mem_unreachable_iff h.numbered
  sorted := (toList_sorted h.numbered).filter _
  entry := rfl
  contains id := by
    rw [contains_removeUnreachable h.numbered]
    exact and_congr_right fun hc => mem_order_iff_reaches hc
  order := order_removeUnreachable h.numbered
  block id b hb hreach := by
    have hid : id ∈ g.order := mem_order_of_reaches hreach
    refine ⟨b.pruned g.dead, ?_, h.numbered id b hb, ?_⟩
    · rw [block?_removeUnreachable h.numbered, if_pos hid, hb]
      rfl
    · rw [Block.pruned, List.forall₂_map_right_iff, List.forall₂_same, h.numbered id b hb]
      exact fun i hi => (h.built id b hb i hi).formed.loses g.dead id
  again := removeUnreachable_of_reached (unreachable_removeUnreachable h.numbered)

/-- A block that stays keeps the predecessors that stay. -/
theorem predecessors_removeUnreachable (hn : g.Numbered) (id : BlockId) :
    g.removeUnreachable.2.predecessors id = (g.predecessors id).filter (· ∈ g.order) := by
  unfold predecessors
  rw [toList_removeUnreachable hn, List.filter_map, List.map_map, List.filter_filter, List.filter_map,
    List.filter_filter]
  congr 1
  refine List.filter_congr fun b _ => ?_
  simp [Block.successors_pruned, Bool.and_comm]

end Graph

end Bailout
