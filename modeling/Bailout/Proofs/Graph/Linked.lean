import Bailout.Proofs.Graph.Built
import Bailout.Proofs.Graph.Trimmed

/-!
# Instructions and their blocks

An instruction is in the block that it is linked to, or it is loose. Putting it into a block links it,
taking it out or copying it leaves it loose, and a change in its place leaves the link alone. In a tidy
graph every block has its own number and holds instructions that are linked to it, and the entry is there:
the operations on graphs keep graphs tidy, and so does an operation on one of the blocks.
-/

namespace Bailout

namespace Instr

variable {i i' : Instr}

/-- An instruction in no block. -/
def Loose (i : Instr) : Prop := i.Built ∧ i.block = none

/-- An instruction in a block. -/
def LinkedTo (id : BlockId) (i : Instr) : Prop := i.Built ∧ i.block = some id

theorem loose_new {kind : InstrKind} {operands : List Reg} {output : Option Reg}
    (h : Instr.new kind operands output = .ok i) : i.Loose := by
  refine ⟨.new h, ?_⟩
  obtain ⟨-, rfl⟩ := new_fields h
  rfl

theorem Built.loose_unlink (h : i.Built) : i.unlink.Loose := ⟨h.place _ _ none, rfl⟩

theorem Built.loose_copy (h : i.Built) : i.copy.Loose := ⟨h.place _ none none, rfl⟩

theorem Built.linkedTo (h : i.Built) (id : BlockId) : LinkedTo id { i with block := some id } :=
  ⟨h.place _ _ _, rfl⟩

theorem LinkedTo.pruned {id : BlockId} (h : i.LinkedTo id) (dead : List BlockId) :
    (i.pruned dead id).LinkedTo id := by
  refine ⟨h.1.pruned dead id, ?_⟩
  unfold Instr.pruned
  split
  · split
    · rfl
    · exact h.2
  · exact h.2

/-- A change to an instruction in its place. -/
inductive Change where
  | setOperand (index : Nat) (r : Reg)
  | setSuccessor (index : Nat) (target : BlockId)
  | setOutput (output : Option Reg)
  | setOffset (offset : Offset)
  | rename (old new : Reg)
  | setFrameState (fs : FrameState)
  /-- Changes the frame state or takes it away, if there is one. -/
  | editFrameState (g : FrameState → Option FrameState)
  | addLive (state : LiveReg)
  | setLive (states : List LiveReg)
  | setGuilty (r : Reg)
  | setDescr (text : String)

def change (i : Instr) : Change → Except Fault Instr
  | .setOperand index r => i.setOperand index r
  | .setSuccessor index target => i.setSuccessor index target
  | .setOutput output => .ok { i with output }
  | .setOffset offset => .ok { i with offset := some offset }
  | .rename old new => .ok (i.rename old new)
  | .setFrameState fs => i.setFrameState fs
  | .editFrameState g => .ok { i with frameState := i.frameState.bind g }
  | .addLive state => i.addLive state
  | .setLive states => i.setLive states
  | .setGuilty r => i.setGuilty r
  | .setDescr text => i.setDescr text

theorem block_modifyDeopt {g : DeoptInfo → DeoptInfo} (h : i.modifyDeopt g = .ok i') :
    i'.block = i.block := by
  obtain ⟨d, -, rfl⟩ := modifyDeopt_eq_ok h
  rfl

theorem Built.change {c : Change} (hi : i.Built) (h : i.change c = .ok i') :
    i'.Built ∧ i'.block = i.block := by
  cases c with
  | setOperand index r =>
    refine ⟨hi.setOperand h, ?_⟩
    rw [setOperand_eq_ok h]
  | setSuccessor index target =>
    refine ⟨hi.setSuccessor h, ?_⟩
    obtain ⟨kind, rfl, -, -⟩ := setSuccessor_eq_ok h
    rfl
  | setOutput output =>
    obtain rfl := Except.ok.inj h
    exact ⟨hi.place _ _ _, rfl⟩
  | setOffset offset =>
    obtain rfl := Except.ok.inj h
    exact ⟨hi.place _ _ _, rfl⟩
  | rename old new =>
    obtain rfl := Except.ok.inj h
    exact ⟨hi.rename old new, rfl⟩
  | setFrameState fs =>
    refine ⟨hi.setFrameState h, ?_⟩
    obtain ⟨-, rfl⟩ := setFrameState_eq_ok h
    rfl
  | editFrameState g =>
    obtain rfl := Except.ok.inj h
    exact ⟨hi.editFrameState g, rfl⟩
  | addLive state => exact ⟨hi.modifyDeopt h, block_modifyDeopt h⟩
  | setLive states => exact ⟨hi.modifyDeopt h, block_modifyDeopt h⟩
  | setGuilty r => exact ⟨hi.modifyDeopt h, block_modifyDeopt h⟩
  | setDescr text => exact ⟨hi.modifyDeopt h, block_modifyDeopt h⟩

end Instr

namespace Block

variable {b b' : Block} {i : Instr} {index : Nat}

/-- All instructions are linked to the block. -/
def Holds (b : Block) : Prop := ∀ i ∈ b.instrs, i.LinkedTo b.id

/-- Changes the instruction at `index` in its place. -/
def change (b : Block) (index : Nat) (c : Instr.Change) : Except Fault Block := do
  let i ← b.instr index
  b.set index (← i.change c)

/-- The same block, with contents that are linked to it. -/
def Keeps (b b' : Block) : Prop := b'.id = b.id ∧ b'.Holds

theorem Holds.push (hb : b.Holds) (hi : i.Built) {n : Nat} (h : b.push i = .ok (n, b')) :
    b.Keeps b' := by
  rw [push_eq_ok h]
  refine ⟨rfl, List.forall_mem_append.2 ⟨hb, ?_⟩⟩
  exact List.forall_mem_singleton.2 (hi.linkedTo b.id)

theorem Holds.insert (hb : b.Holds) (hi : i.Built) (h : b.insert index i = .ok b') :
    b.Keeps b' := by
  rw [insert_eq_ok h]
  refine ⟨rfl, List.forall_mem_append.2 ⟨fun j hj => hb j (List.mem_of_mem_take hj), ?_⟩⟩
  exact List.forall_mem_cons.2 ⟨hi.linkedTo b.id, fun j hj => hb j (List.mem_of_mem_drop hj)⟩

theorem Holds.remove (hb : b.Holds) (h : b.remove index = .ok (i, b')) : b.Keeps b' ∧ i.Loose := by
  obtain ⟨old, hold, rfl, rfl⟩ := remove_eq_ok h
  exact ⟨⟨rfl, fun j hj => hb j (List.mem_of_mem_eraseIdx hj)⟩, (hb old hold).1.loose_unlink⟩

theorem Holds.replace (hb : b.Holds) (hi : i.Built) {out : Instr}
    (h : b.replace index i = .ok (out, b')) : b.Keeps b' ∧ out.Loose := by
  obtain ⟨old, hold, rfl, rfl⟩ := replace_eq_ok h
  exact ⟨⟨rfl, forall_mem_set hb (hi.linkedTo b.id) index⟩, (hb old hold).1.loose_unlink⟩

theorem Holds.change (hb : b.Holds) {c : Instr.Change} (h : b.change index c = .ok b') :
    b.Keeps b' := by
  obtain ⟨i, hi, h⟩ := bind_eq_ok.1 h
  obtain ⟨i', hi', h⟩ := bind_eq_ok.1 h
  rw [set_eq_ok h]
  have hlinked := hb i (List.mem_of_getElem? (instr_eq_ok.1 hi))
  obtain ⟨hbuilt, hblock⟩ := hlinked.1.change hi'
  exact ⟨rfl, forall_mem_set hb ⟨hbuilt, hblock.trans hlinked.2⟩ index⟩

theorem Holds.pruned (hb : b.Holds) (dead : List BlockId) : (b.pruned dead).Holds := by
  intro i' hi'
  obtain ⟨i, hi, rfl⟩ := List.mem_map.1 hi'
  exact (hb i hi).pruned dead

end Block

namespace Graph

variable {g g' : Graph} {id : BlockId} {b : Block}

/-- Every block has its own number and holds its instructions, and the entry is one of the blocks. -/
structure Tidy (g : Graph) : Prop where
  numbered : g.Numbered
  holds : ∀ id b, g.block? id = some b → b.Holds
  entry : g.contains g.entry

theorem tidy_new : Graph.new.Tidy where
  numbered := fun id b hb => by rw [block?_new hb]
  holds := fun id b hb => by
    rw [block?_new hb]
    exact List.forall_mem_nil _
  entry := rfl

theorem contains_put {x : Option Block} {id' : BlockId} (h : g.contains id')
    (hx : id' = id → x.isSome) : (g.put id x).contains id' := by
  unfold contains block? put at *
  rw [List.getElem?_set]
  split
  · next heq =>
    have hlt : id.index < g.blocks.length := by
      by_contra hge
      rw [List.getElem?_eq_none (by omega)] at h
      cases h
    rw [if_pos hlt]
    exact hx (by cases id; cases id'; exact congrArg BlockId.mk heq.symm)
  · exact h

theorem Tidy.put (h : g.Tidy) {x : Option Block} (hx : ∀ b, x = some b → b.id = id ∧ b.Holds)
    (hentry : g.entry = id → x.isSome) : (g.put id x).Tidy where
  numbered := fun id' b hb => by
    rcases block?_put hb with ⟨rfl, hxb⟩ | hold
    · exact (hx b hxb).1
    · exact h.numbered id' b hold
  holds := fun id' b hb => by
    rcases block?_put hb with ⟨-, hxb⟩ | hold
    · exact (hx b hxb).2
    · exact h.holds id' b hold
  entry := contains_put h.entry hentry

theorem Tidy.alloc (h : g.Tidy) : g.alloc.2.Tidy where
  numbered := fun id b hb => by
    rcases block?_alloc hb with hold | rfl
    · exact h.numbered id b hold
    · rfl
  holds := fun id b hb => by
    rcases block?_alloc hb with hold | rfl
    · exact h.holds id b hold
    · exact List.forall_mem_nil _
  entry := by
    obtain ⟨b, hb⟩ := Option.isSome_iff_exists.1 h.entry
    refine contains_of_block? (b := b) (block?_eq_some.2 ?_)
    have hb := block?_eq_some.1 hb
    show (g.blocks ++ _)[g.entry.index]? = _
    rw [List.getElem?_append_left (List.getElem?_eq_some_iff.1 hb).1, hb]

theorem Tidy.setEntry (h : g.Tidy) (hset : g.setEntry id = .ok g') : g'.Tidy := by
  unfold Graph.setEntry at hset
  split at hset
  · next hid =>
    obtain rfl := Except.ok.inj hset
    exact ⟨h.numbered, h.holds, hid⟩
  · cases hset

/-- The entry is not removed, and what is removed comes out with its instructions. -/
theorem Tidy.remove (h : g.Tidy) {out : Option Block} (hremove : g.remove id = .ok (out, g')) :
    g'.Tidy ∧ ∀ b, out = some b → b.Holds := by
  unfold Graph.remove at hremove
  split at hremove
  · cases hremove
  · next hne =>
    obtain ⟨rfl, rfl⟩ := Prod.mk.inj (Except.ok.inj hremove)
    refine ⟨h.put (fun b hb => by cases hb) fun heq => absurd heq.symm hne, ?_⟩
    exact fun b hb => h.holds id b hb

theorem Tidy.update (h : g.Tidy) {α : Type} {a : α} {change : Block → Except Fault (α × Block)}
    (hkeeps : ∀ b b', b.Holds → change b = .ok (a, b') → b.Keeps b')
    (hupdate : g.update id change = .ok (a, g')) :
    g'.Tidy ∧ ∃ b b', b.Holds ∧ change b = .ok (a, b') := by
  obtain ⟨b, b', hb, hchange, rfl⟩ := update_eq_ok hupdate
  have hholds := h.holds id b hb
  obtain ⟨hid, hb'⟩ := hkeeps b b' hholds hchange
  refine ⟨h.put (fun b'' heq => ?_) fun _ => rfl, b, b', hholds, hchange⟩
  obtain rfl := Option.some.inj heq
  exact ⟨hid.trans (h.numbered id b hb), hb'⟩

theorem Tidy.removeUnreachable (h : g.Tidy) :
    g.removeUnreachable.2.Tidy ∧ ∀ b ∈ g.removeUnreachable.1, b.Holds := by
  refine ⟨⟨?_, ?_, ?_⟩, ?_⟩
  · intro id b hb
    obtain ⟨old, hold, rfl⟩ := block?_of_removeUnreachable h.numbered hb
    exact h.numbered id old hold
  · intro id b hb
    obtain ⟨old, hold, rfl⟩ := block?_of_removeUnreachable h.numbered hb
    exact (h.holds id old hold).pruned g.dead
  · exact (contains_removeUnreachable h.numbered).2 ⟨h.entry, entry_mem_order g⟩
  · intro b hb
    obtain ⟨⟨id, hid⟩, -⟩ := mem_unreachable.1 hb
    exact h.holds id b hid

/-! ### Places are never taken away -/

theorem length_put (g : Graph) (id : BlockId) (x : Option Block) :
    (g.put id x).blocks.length = g.blocks.length := List.length_set

theorem length_setEntry (h : g.setEntry id = .ok g') : g'.blocks.length = g.blocks.length := by
  unfold Graph.setEntry at h
  split at h
  · obtain rfl := Except.ok.inj h
    rfl
  · cases h

theorem length_remove {out : Option Block} (h : g.remove id = .ok (out, g')) :
    g'.blocks.length = g.blocks.length := by
  unfold Graph.remove at h
  split at h
  · cases h
  · obtain ⟨-, rfl⟩ := Prod.mk.inj (Except.ok.inj h)
    exact length_put g id none

theorem length_update {α : Type} {a : α} {change : Block → Except Fault (α × Block)}
    (h : g.update id change = .ok (a, g')) : g'.blocks.length = g.blocks.length := by
  obtain ⟨b, b', -, -, rfl⟩ := update_eq_ok h
  exact length_put g id (some b')

end Graph

end Bailout
