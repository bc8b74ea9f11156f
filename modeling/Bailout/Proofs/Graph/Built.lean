import Bailout.Function
import Bailout.Proofs.Graph.Unreachable
import Bailout.Proofs.Instr.Built

/-!
# Graphs as they are made

A graph starts with an empty entry block. Blocks are added and removed, single blocks are edited, and the
unreachable ones are taken out. All the while each block stays under its own number and holds
instructions as the operations make them: `Graph.Built.consistent`.
-/

namespace Bailout

theorem forall_mem_set {α : Type} {P : α → Prop} {l : List α} {a : α} (hl : ∀ x ∈ l, P x) (ha : P a)
    (n : Nat) : ∀ x ∈ l.set n a, P x := by
  intro x hx
  rcases List.mem_or_eq_of_mem_set hx with hx | rfl
  · exact hl x hx
  · exact ha

namespace Block

variable {b b' : Block} {i : Instr} {index : Nat}

/-- What an operation on blocks makes of a block. Changing an instruction in its place, or exchanging it
for a detached one as a value, is `set`: that neither links nor unlinks. -/
inductive Edit (b : Block) : Block → Prop where
  | push {i : Instr} {n : Nat} {b' : Block} (hi : i.Built) (h : b.push i = .ok (n, b')) : Edit b b'
  | insert {i : Instr} {index : Nat} {b' : Block} (hi : i.Built) (h : b.insert index i = .ok b') :
      Edit b b'
  | remove {i : Instr} {index : Nat} {b' : Block} (h : b.remove index = .ok (i, b')) : Edit b b'
  | replace {i old : Instr} {index : Nat} {b' : Block} (hi : i.Built)
      (h : b.replace index i = .ok (old, b')) : Edit b b'
  | set {i : Instr} {index : Nat} {b' : Block} (hi : i.Built) (h : b.set index i = .ok b') : Edit b b'
  | rename (old new : Reg) : Edit b (b.rename old new)

theorem instr_eq_ok : b.instr index = .ok i ↔ b.instrs[index]? = some i := by
  unfold instr
  cases b.instrs[index]? <;> simp

theorem set_eq_ok (h : b.set index i = .ok b') : b' = { b with instrs := b.instrs.set index i } := by
  unfold set at h
  split at h
  · exact (Except.ok.inj h).symm
  · cases h

/-! ### What the operations put into a block and what they take out -/

theorem push_eq_ok {n : Nat} (h : b.push i = .ok (n, b')) :
    b' = { b with instrs := b.instrs ++ [{ i with block := some b.id }] } := by
  obtain ⟨linked, hlink, h⟩ := bind_eq_ok.1 h
  obtain rfl := Instr.link_eq_ok hlink
  exact (Prod.mk.inj (Except.ok.inj h)).2.symm

theorem insert_eq_ok (h : b.insert index i = .ok b') :
    b' = { b with
      instrs := b.instrs.take index ++ { i with block := some b.id } :: b.instrs.drop index } := by
  obtain ⟨linked, hlink, h⟩ := bind_eq_ok.1 h
  obtain rfl := Instr.link_eq_ok hlink
  split at h
  · exact (Except.ok.inj h).symm
  · cases h

theorem remove_eq_ok (h : b.remove index = .ok (i, b')) :
    ∃ old ∈ b.instrs, i = old.unlink ∧ b' = { b with instrs := b.instrs.eraseIdx index } := by
  unfold remove at h
  split at h
  · next old hold =>
    obtain ⟨rfl, rfl⟩ := Prod.mk.inj (Except.ok.inj h)
    exact ⟨old, List.mem_of_getElem? hold, rfl, rfl⟩
  · cases h

theorem replace_eq_ok {out : Instr} (h : b.replace index i = .ok (out, b')) :
    ∃ old ∈ b.instrs, out = old.unlink ∧
      b' = { b with instrs := b.instrs.set index { i with block := some b.id } } := by
  obtain ⟨linked, hlink, h⟩ := bind_eq_ok.1 h
  obtain ⟨old, hold, h⟩ := bind_eq_ok.1 h
  obtain ⟨changed, hset, h⟩ := bind_eq_ok.1 h
  obtain ⟨rfl, rfl⟩ := Prod.mk.inj (Except.ok.inj h)
  rw [set_eq_ok hset, Instr.link_eq_ok hlink]
  exact ⟨old, List.mem_of_getElem? (instr_eq_ok.1 hold), rfl, rfl⟩

theorem Edit.keeps (h : b.Edit b') (hb : ∀ i ∈ b.instrs, i.Built) :
    b'.id = b.id ∧ ∀ i ∈ b'.instrs, i.Built := by
  cases h with
  | push hi h =>
    rw [push_eq_ok h]
    exact ⟨rfl, List.forall_mem_append.2 ⟨hb, List.forall_mem_singleton.2 (hi.place _ _ _)⟩⟩
  | insert hi h =>
    rw [insert_eq_ok h]
    refine ⟨rfl, List.forall_mem_append.2 ⟨fun j hj => hb j (List.mem_of_mem_take hj), ?_⟩⟩
    exact List.forall_mem_cons.2 ⟨hi.place _ _ _, fun j hj => hb j (List.mem_of_mem_drop hj)⟩
  | remove h =>
    obtain ⟨-, -, -, rfl⟩ := remove_eq_ok h
    exact ⟨rfl, fun j hj => hb j (List.mem_of_mem_eraseIdx hj)⟩
  | replace hi h =>
    obtain ⟨-, -, -, rfl⟩ := replace_eq_ok h
    exact ⟨rfl, forall_mem_set hb (hi.place _ _ _) _⟩
  | set hi h =>
    rw [set_eq_ok h]
    exact ⟨rfl, forall_mem_set hb hi _⟩
  | rename old new =>
    refine ⟨rfl, fun j hj => ?_⟩
    obtain ⟨i, hi, rfl⟩ := List.mem_map.1 hj
    exact (hb i hi).rename old new

end Block

namespace Graph

variable {g g' : Graph} {id : BlockId} {b : Block}

/-- The graphs that the operations lead to. -/
inductive Built : Graph → Prop where
  | new : Built .new
  | alloc {g : Graph} (hg : Built g) : Built g.alloc.2
  | remove {g g' : Graph} {id : BlockId} {b : Option Block} (hg : Built g)
      (h : g.remove id = .ok (b, g')) : Built g'
  | setEntry {g g' : Graph} {id : BlockId} (hg : Built g) (h : g.setEntry id = .ok g') : Built g'
  | edit {g : Graph} {id : BlockId} {b b' : Block} (hg : Built g) (hb : g.block? id = some b)
      (he : b.Edit b') : Built (g.put id (some b'))
  | removeUnreachable {g : Graph} (hg : Built g) : Built g.removeUnreachable.2

/-- Each block is kept under its own number and holds instructions as the operations make them. -/
structure Consistent (g : Graph) : Prop where
  numbered : g.Numbered
  built : ∀ id b, g.block? id = some b → ∀ i ∈ b.instrs, i.Built

theorem block?_put {x : Option Block} {id' : BlockId} (h : (g.put id x).block? id' = some b) :
    id' = id ∧ x = some b ∨ g.block? id' = some b := by
  rw [block?_eq_some, put, List.getElem?_set] at h
  split at h
  · next heq =>
    split at h
    · left
      exact ⟨by cases id; cases id'; simpa using heq.symm, Option.some.inj h⟩
    · cases h
  · exact .inr (block?_eq_some.2 h)

theorem Consistent.put (h : g.Consistent) {x : Option Block}
    (hx : ∀ b, x = some b → b.id = id ∧ ∀ i ∈ b.instrs, i.Built) : (g.put id x).Consistent := by
  constructor
  · intro id' b hb
    rcases block?_put hb with ⟨rfl, hxb⟩ | hold
    · exact (hx b hxb).1
    · exact h.numbered id' b hold
  · intro id' b hb
    rcases block?_put hb with ⟨-, hxb⟩ | hold
    · exact (hx b hxb).2
    · exact h.built id' b hold

/-- A block of the new graph is an old one or the empty one behind all others. -/
theorem block?_alloc (h : g.alloc.2.block? id = some b) : g.block? id = some b ∨ b = ⟨id, []⟩ := by
  rw [block?_eq_some, Graph.alloc, List.getElem?_append] at h
  split at h
  · exact .inl (block?_eq_some.2 h)
  · next hlt =>
    obtain ⟨hlen, hb⟩ := List.getElem?_eq_some_iff.1 h
    have hindex : id.index = g.blocks.length := by
      rw [List.length_singleton] at hlen
      omega
    right
    rw [List.getElem_singleton] at hb
    rw [← Option.some.inj hb, ← hindex]

theorem Consistent.alloc (h : g.Consistent) : g.alloc.2.Consistent := by
  constructor
  · intro id b hb
    rcases block?_alloc hb with hold | rfl
    · exact h.numbered id b hold
    · rfl
  · intro id b hb
    rcases block?_alloc hb with hold | rfl
    · exact h.built id b hold
    · exact List.forall_mem_nil _

theorem block?_of_removeUnreachable (hn : g.Numbered) (h : g.removeUnreachable.2.block? id = some b) :
    ∃ old, g.block? id = some old ∧ b = old.pruned g.dead := by
  rw [block?_removeUnreachable hn] at h
  split at h
  · obtain ⟨old, hold, rfl⟩ := Option.map_eq_some_iff.1 h
    exact ⟨old, hold, rfl⟩
  · cases h

theorem Consistent.removeUnreachable (h : g.Consistent) : g.removeUnreachable.2.Consistent := by
  constructor
  · intro id b' hb'
    obtain ⟨b, hb, rfl⟩ := block?_of_removeUnreachable h.numbered hb'
    exact h.numbered id b hb
  · intro id b' hb' i' hi'
    obtain ⟨b, hb, rfl⟩ := block?_of_removeUnreachable h.numbered hb'
    obtain ⟨i, hi, rfl⟩ := List.mem_map.1 hi'
    exact (h.built id b hb i hi).pruned g.dead b.id

theorem block?_new (h : Graph.new.block? id = some b) : b = ⟨id, []⟩ := by
  obtain ⟨k⟩ := id
  cases k with
  | zero => exact (Option.some.inj h).symm
  | succ k => simp [Graph.new, block?] at h

theorem Built.consistent (h : g.Built) : g.Consistent := by
  induction h with
  | new =>
    constructor
    · intro id b hb
      rw [block?_new hb]
    · intro id b hb
      rw [block?_new hb]
      exact List.forall_mem_nil _
  | alloc _ ih => exact ih.alloc
  | remove _ h ih =>
    unfold Graph.remove at h
    split at h
    · cases h
    · obtain ⟨-, rfl⟩ := Prod.mk.inj (Except.ok.inj h)
      exact ih.put fun b hb => by cases hb
  | setEntry _ h ih =>
    unfold Graph.setEntry at h
    split at h
    · obtain rfl := Except.ok.inj h
      exact ⟨ih.numbered, ih.built⟩
    · cases h
  | @edit g id b b' _ hb he ih =>
    refine ih.put fun b'' heq => ?_
    obtain rfl := Option.some.inj heq
    obtain ⟨hid, hbuilt⟩ := he.keeps (ih.built id b hb)
    exact ⟨hid.trans (ih.numbered id b hb), hbuilt⟩
  | removeUnreachable _ ih => exact ih.removeUnreachable

theorem block_eq_ok : g.block id = .ok b ↔ g.block? id = some b := by
  unfold block
  cases g.block? id <;> simp

theorem update_eq_ok {α : Type} {a : α} {change : Block → Except Fault (α × Block)}
    (h : g.update id change = .ok (a, g')) :
    ∃ b b', g.block? id = some b ∧ change b = .ok (a, b') ∧ g' = g.put id (some b') := by
  obtain ⟨b, hb, h⟩ := bind_eq_ok.1 h
  obtain ⟨⟨_, b'⟩, hchange, h⟩ := bind_eq_ok.1 h
  obtain ⟨rfl, rfl⟩ := Prod.mk.inj (Except.ok.inj h)
  exact ⟨b, b', block_eq_ok.1 hb, hchange, rfl⟩

theorem Built.update {α : Type} {a : α} {change : Block → Except Fault (α × Block)} (hg : g.Built)
    (hedit : ∀ b a b', g.block? id = some b → change b = .ok (a, b') → b.Edit b')
    (h : g.update id change = .ok (a, g')) : g'.Built := by
  obtain ⟨b, b', hb, hchange, rfl⟩ := update_eq_ok h
  exact hg.edit hb (hedit b _ b' hb hchange)

end Graph

/-! ## Functions -/

namespace Function

variable {f f' : Function}

/-- Emitting makes an instruction, gives it its state, and pushes it. -/
theorem emit_pushes {block : BlockId} {kind : InstrKind} {operands : List Reg}
    {fs : Option FrameState} {output : Option Reg}
    (h : f.emit block kind operands fs = .ok (output, f')) :
    ∃ i n, i.Built ∧ f.graph.update block (·.push i) = .ok (n, f'.graph) := by
  simp only [emit, pure_eq_ok, ok_bind] at h
  have hpush : ∀ {i : Instr} {env : Env} {out : Option Reg}, i.Built →
      (f.graph.update block (·.push i) >>= fun p => .ok (out, { f with env, graph := p.2 })) =
        .ok (output, f') → ∃ i n, i.Built ∧ f.graph.update block (·.push i) = .ok (n, f'.graph) := by
    intro i env out hi h
    obtain ⟨⟨n, graph⟩, hgraph, h⟩ := bind_eq_ok.1 h
    obtain ⟨-, rfl⟩ := Prod.mk.inj (Except.ok.inj h)
    exact ⟨i, n, hi, hgraph⟩
  cases fs with
  | none =>
    have hmade : ∀ {env : Env} {out : Option Reg}, (Instr.new kind operands out >>= fun i =>
        f.graph.update block (·.push i) >>= fun p => .ok (out, { f with env, graph := p.2 })) =
          .ok (output, f') →
        ∃ i n, i.Built ∧ f.graph.update block (·.push i) = .ok (n, f'.graph) := by
      intro env out h
      obtain ⟨i, hi, h⟩ := bind_eq_ok.1 h
      exact hpush (.new hi) h
    split at h
    · split at h
      · obtain ⟨env, -, h⟩ := bind_eq_ok.1 h
        exact hmade h
      · exact hmade h
    · exact hmade h
  | some fs =>
    have hmade : ∀ {env : Env} {out : Option Reg}, (Instr.new kind operands out >>= fun i =>
        i.setFrameState fs >>= fun i =>
          f.graph.update block (·.push { i with offset := some fs.frame.offset }) >>= fun p =>
            .ok (out, { f with env, graph := p.2 })) = .ok (output, f') →
        ∃ i n, i.Built ∧ f.graph.update block (·.push i) = .ok (n, f'.graph) := by
      intro env out h
      obtain ⟨i, hi, h⟩ := bind_eq_ok.1 h
      obtain ⟨stated, hstated, h⟩ := bind_eq_ok.1 h
      exact hpush (((Instr.Built.new hi).setFrameState hstated).place _ _ _) h
    split at h
    · split at h
      · obtain ⟨env, -, h⟩ := bind_eq_ok.1 h
        exact hmade h
      · exact hmade h
    · exact hmade h

theorem built_emit (hf : f.graph.Built) {block : BlockId} {kind : InstrKind} {operands : List Reg}
    {fs : Option FrameState} {output : Option Reg}
    (h : f.emit block kind operands fs = .ok (output, f')) : f'.graph.Built := by
  obtain ⟨i, n, hi, hgraph⟩ := emit_pushes h
  exact hf.update (fun b n b' _ hpush => .push hi hpush) hgraph

/-- An instruction may be changed in its place by any operations on instructions. -/
theorem built_modifyInstr (hf : f.graph.Built) {α : Type} {a : α} {s : Site}
    {change : Instr → Except Fault (α × Instr)}
    (hchange : ∀ i a i', i.Built → change i = .ok (a, i') → i'.Built)
    (h : f.modifyInstr s change = .ok (a, f')) : f'.graph.Built := by
  obtain ⟨⟨_, graph⟩, hgraph, h⟩ := bind_eq_ok.1 h
  obtain ⟨-, rfl⟩ := Prod.mk.inj (Except.ok.inj h)
  refine hf.update (fun b a b' hb hrun => ?_) hgraph
  obtain ⟨i, hi, hrun⟩ := bind_eq_ok.1 hrun
  obtain ⟨⟨_, i'⟩, hi', hrun⟩ := bind_eq_ok.1 hrun
  obtain ⟨changed, hset, hrun⟩ := bind_eq_ok.1 hrun
  obtain ⟨-, rfl⟩ := Prod.mk.inj (Except.ok.inj hrun)
  have hmem : i ∈ b.instrs := List.mem_of_getElem? (Block.instr_eq_ok.1 hi)
  exact Block.Edit.set (hchange i _ i' (hf.consistent.built _ b hb i hmem) hi') hset

end Function

end Bailout
