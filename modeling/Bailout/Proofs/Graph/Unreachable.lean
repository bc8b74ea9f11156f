import Bailout.Graph
import Bailout.Proofs.Graph.Order
import Mathlib.Data.List.Basic

/-!
# Taking unreachable blocks out

A graph keeps each block under the block's own number. Then removal leaves exactly the blocks of the
order: `block?_removeUnreachable`. A block that stays loses inputs of phis and nothing else, so the
search goes the same way afterwards: `order_removeUnreachable`.
-/

namespace Bailout

/-! ## Instructions and blocks -/

namespace Instr

variable (dead : List BlockId) (home : BlockId)

theorem pruned_of_ne_phi {i : Instr} (h : i.opcode ≠ .phi) : i.pruned dead home = i := by
  unfold pruned
  split
  · next blocks hkind => exact absurd (by simp [opcode, hkind, InstrKind.opcode]) h
  · rfl

@[simp] theorem opcode_pruned (i : Instr) : (i.pruned dead home).opcode = i.opcode := by
  unfold pruned
  split
  · next blocks hkind =>
    split
    · simp [opcode, hkind, InstrKind.opcode]
    · rfl
  · rfl

@[simp] theorem output_pruned (i : Instr) : (i.pruned dead home).output = i.output := by
  unfold pruned
  split
  · split <;> rfl
  · rfl

@[simp] theorem successors_pruned (i : Instr) : (i.pruned dead home).successors = i.successors := by
  unfold pruned
  split
  · next blocks hkind =>
    split
    · simp [successors, hkind, InstrKind.successors]
    · rfl
  · rfl

end Instr

/-- A block without the phi inputs from the given blocks. -/
def Block.pruned (dead : List BlockId) (b : Block) : Block :=
  { b with instrs := b.instrs.map (Instr.pruned dead b.id) }

theorem Block.terminator?_pruned (dead : List BlockId) (b : Block) :
    (b.pruned dead).terminator? = b.terminator?.map (Instr.pruned dead b.id) := by
  unfold Block.terminator? Block.pruned
  rw [List.getLast?_map]
  cases b.instrs.getLast? with
  | none => rfl
  | some i => by_cases h : i.isTerminator <;> simp_all [Option.filter_some, Instr.isTerminator]

theorem Block.successors_pruned (dead : List BlockId) (b : Block) :
    (b.pruned dead).successors = b.successors := by
  unfold Block.successors
  rw [Block.terminator?_pruned]
  cases b.terminator? <;> simp

namespace Graph

variable {g : Graph} {id : BlockId} {b : Block}

/-- Each block is kept under its own number. -/
def Numbered (g : Graph) : Prop := ∀ id b, g.block? id = some b → b.id = id

/-- The numbers of the blocks the entry does not reach. -/
def dead (g : Graph) : List BlockId := g.unreachable.map (·.id)

theorem block?_eq_some : g.block? id = some b ↔ g.blocks[id.index]? = some (some b) := by
  unfold block?
  rcases g.blocks[id.index]? with _ | _ | x <;> simp

theorem mem_toList : b ∈ g.toList ↔ ∃ id, g.block? id = some b := by
  have hmem : b ∈ g.toList ↔ some b ∈ g.blocks := by simp [toList]
  rw [hmem, List.mem_iff_getElem?]
  simp only [block?_eq_some]
  exact ⟨fun ⟨k, hk⟩ => ⟨⟨k⟩, hk⟩, fun ⟨id, hid⟩ => ⟨id.index, hid⟩⟩

theorem mem_unreachable : b ∈ g.unreachable ↔ (∃ id, g.block? id = some b) ∧ b.id ∉ g.order := by
  simp [unreachable, mem_toList]

theorem block?_of_numbered (hn : g.Numbered) (hb : b ∈ g.toList) : g.block? b.id = some b := by
  obtain ⟨id, hid⟩ := mem_toList.1 hb
  rw [hn id b hid, hid]

theorem mem_dead (hn : g.Numbered) : id ∈ g.dead ↔ g.contains id ∧ id ∉ g.order := by
  simp only [dead, List.mem_map, mem_unreachable, contains, Option.isSome_iff_exists]
  constructor
  · rintro ⟨b, ⟨⟨id', hid'⟩, hout⟩, rfl⟩
    exact ⟨⟨b, block?_of_numbered hn (mem_toList.2 ⟨id', hid'⟩)⟩, hout⟩
  · rintro ⟨⟨b, hb⟩, hout⟩
    exact ⟨b, ⟨⟨id, hb⟩, hn id b hb ▸ hout⟩, hn id b hb⟩

theorem block?_removeUnreachable (hn : g.Numbered) (id : BlockId) :
    g.removeUnreachable.2.block? id =
      if id ∈ g.order then (g.block? id).map (Block.pruned g.dead) else none := by
  have hget : g.removeUnreachable.2.block? id =
      (g.block? id).bind fun b => if g.dead.contains b.id then none else some (b.pruned g.dead) := by
    unfold removeUnreachable block?
    simp only [List.getElem?_map]
    rcases g.blocks[id.index]? with _ | _ | b <;> rfl
  rw [hget]
  cases hb : g.block? id with
  | none => simp
  | some b =>
    have hdead : b.id ∈ g.dead ↔ id ∉ g.order := by
      rw [hn id b hb, mem_dead hn]
      simp [contains, hb]
    by_cases hid : id ∈ g.order <;> simp [hid, hdead]

theorem toList_removeUnreachable (hn : g.Numbered) :
    g.removeUnreachable.2.toList =
      (g.toList.filter fun b => g.order.contains b.id).map (Block.pruned g.dead) := by
  have hkept : g.removeUnreachable.2.toList = g.toList.filterMap fun b =>
      if g.dead.contains b.id then none else some (b.pruned g.dead) := by
    unfold removeUnreachable toList
    simp only [List.filterMap_map, List.filterMap_filterMap]
    rfl
  rw [hkept, ← List.filterMap_eq_map, List.filterMap_filter]
  refine List.filterMap_congr fun b hb => ?_
  have hdead : b.id ∈ g.dead ↔ b.id ∉ g.order := by
    rw [mem_dead hn]
    simp [contains, block?_of_numbered hn hb]
  by_cases hid : b.id ∈ g.order <;> simp [hid, hdead]

/-- The order is the same without the blocks it leaves out. -/
theorem order_removeUnreachable (hn : g.Numbered) : g.removeUnreachable.2.order = g.order := by
  refine order_congr rfl (fun id hid => ?_) fun id hid => ?_
  · unfold contains at hid ⊢
    rw [block?_removeUnreachable hn] at hid
    split at hid
    · simpa using hid
    · simp at hid
  · unfold contains successors
    rw [block?_removeUnreachable hn, if_pos hid]
    cases g.block? id with
    | none => exact ⟨fun h => h, rfl⟩
    | some b => exact ⟨fun _ => rfl, Block.successors_pruned g.dead b⟩

end Graph

end Bailout
