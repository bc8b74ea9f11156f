import Bailout.Instr.Basic

/-!
# Control-flow graphs

Blocks under stable numbers. A removed block leaves a hole, so that no number is used twice. One block
is the entry, and it is never removed.
-/

namespace Bailout

/-! ## Basic blocks

A straight-line sequence of instructions. Putting an instruction into a block links it; taking it out
unlinks it.
-/

structure Block where
  id : BlockId
  instrs : List Instr := []
deriving DecidableEq, Repr

namespace Block

/-- Appends an instruction; the position it gets. -/
def push (b : Block) (i : Instr) : Except Fault (Nat × Block) := do
  let i ← i.link b.id
  return (b.instrs.length, { b with instrs := b.instrs ++ [i] })

/-- Inserts an instruction before position `index`. -/
def insert (b : Block) (index : Nat) (i : Instr) : Except Fault Block := do
  let i ← i.link b.id
  if index ≤ b.instrs.length then
    return { b with instrs := b.instrs.take index ++ i :: b.instrs.drop index }
  else throw (.insertIndex b.instrs.length index)

def instr (b : Block) (index : Nat) : Except Fault Instr :=
  match b.instrs[index]? with
  | some i => .ok i
  | none => .error (.index b.instrs.length index)

/-- Takes the instruction at `index` out. -/
def remove (b : Block) (index : Nat) : Except Fault (Instr × Block) :=
  match b.instrs[index]? with
  | some i => .ok (i.unlink, { b with instrs := b.instrs.eraseIdx index })
  | none => .error (.removeIndex b.instrs.length index)

/-- Puts a value at `index` as it is, without linking or unlinking anything. -/
def set (b : Block) (index : Nat) (i : Instr) : Except Fault Block :=
  if index < b.instrs.length then .ok { b with instrs := b.instrs.set index i }
  else .error (.index b.instrs.length index)

/-- Replaces the instruction at `index`; the old one comes back unlinked. -/
def replace (b : Block) (index : Nat) (i : Instr) : Except Fault (Instr × Block) := do
  let i ← i.link b.id
  let old ← b.instr index
  let b ← b.set index i
  return (old.unlink, b)

/-- The last instruction, if it ends a block. -/
def terminator? (b : Block) : Option Instr := b.instrs.getLast?.filter Instr.isTerminator

def successors (b : Block) : List BlockId := (b.terminator?.map Instr.successors).getD []

/-- Replaces every read of one register by another. -/
def rename (old new : Reg) (b : Block) : Block :=
  { b with instrs := b.instrs.map (Instr.rename old new) }

/-- A copy whose instructions stay in their places. -/
def copy (b : Block) : Block := { b with instrs := b.instrs.map Instr.copyInPlace }

/-- A label line, then one line for each instruction. -/
def text (b : Block) : String :=
  s!"{b.id}:\n" ++ String.join (b.instrs.map fun i => "  " ++ i.text ++ "\n")

instance : ToString Block := ⟨text⟩

end Block

/-! ## Graphs -/

structure Graph where
  blocks : List (Option Block)
  entry : BlockId
deriving DecidableEq, Repr

namespace Graph

/-- A graph with an empty entry block. -/
def new : Graph := ⟨[some ⟨⟨0⟩, []⟩], ⟨0⟩⟩

def block? (g : Graph) (id : BlockId) : Option Block := (g.blocks[id.index]?).join

def contains (g : Graph) (id : BlockId) : Bool := (g.block? id).isSome

def block (g : Graph) (id : BlockId) : Except Fault Block :=
  match g.block? id with
  | some b => .ok b
  | none => .error (.unknownBlock id)

/-- The blocks in order of their numbers. -/
def toList (g : Graph) : List Block := g.blocks.filterMap id

def setEntry (g : Graph) (id : BlockId) : Except Fault Graph :=
  if g.contains id then .ok { g with entry := id } else .error (.unknownBlock id)

/-- A new empty block. -/
def alloc (g : Graph) : BlockId × Graph :=
  let id : BlockId := ⟨g.blocks.length⟩
  (id, { g with blocks := g.blocks ++ [some ⟨id, []⟩] })

/-- Fills or empties the place of a block. -/
def put (g : Graph) (id : BlockId) (b : Option Block) : Graph :=
  { g with blocks := g.blocks.set id.index b }

/-- Removes a block, if it is there. The entry cannot be removed. -/
def remove (g : Graph) (id : BlockId) : Except Fault (Option Block × Graph) :=
  if id = g.entry then .error (.removeEntry id) else .ok (g.block? id, g.put id none)

/-- Changes one block. -/
def update {α : Type} (g : Graph) (id : BlockId) (f : Block → Except Fault (α × Block)) :
    Except Fault (α × Graph) := do
  let b ← g.block id
  let (a, b) ← f b
  return (a, g.put id (some b))

/-- Successors of a block; none for a hole. -/
def successors (g : Graph) (id : BlockId) : List BlockId :=
  ((g.block? id).map Block.successors).getD []

/-- The blocks that lead to `id`, in order of their numbers. -/
def predecessors (g : Graph) (id : BlockId) : List BlockId :=
  (g.toList.filter fun b => b.successors.contains id).map (·.id)

/-! ## Reverse post-order

Depth-first search from the entry. A block is marked when it is first met, its successors are taken in
order, and it is emitted after them; holes are passed over. The search keeps the successors still to
take for each block on the current path.
-/

/-- One block on the current path, with the successors still to take. -/
structure Visit where
  id : BlockId
  rest : List BlockId

/-- The blocks that are not marked yet. -/
def unmarked (g : Graph) (marked : List BlockId) : Nat :=
  ((List.range g.blocks.length).filter fun i => !marked.contains ⟨i⟩).length

/-- Marking a block of the graph leaves fewer unmarked. -/
theorem unmarked_cons_lt {g : Graph} {marked : List BlockId} {id : BlockId}
    (hc : g.contains id) (hm : ¬ marked.contains id) :
    g.unmarked (id :: marked) < g.unmarked marked := by
  have hlt : id.index < g.blocks.length := by
    unfold contains block? at hc
    cases hx : g.blocks[id.index]? with
    | none => simp [hx] at hc
    | some x => exact (List.getElem?_eq_some_iff.1 hx).1
  have hsplit : (fun i => !(id :: marked).contains ⟨i⟩) =
      fun i => (⟨i⟩ : BlockId) != id && !marked.contains ⟨i⟩ := by
    funext i
    rw [List.contains_cons, Bool.not_or]
    rfl
  unfold unmarked
  rw [hsplit, ← List.filter_filter]
  exact List.length_filter_lt_length_iff_exists.2 ⟨id.index, by simp_all, by simp⟩

/-- Emits blocks in post-order, the latest first. -/
def walk (g : Graph) (path : List Visit) (marked post : List BlockId) : List BlockId :=
  match path with
  | [] => post
  | ⟨id, []⟩ :: path => walk g path marked (id :: post)
  | ⟨id, s :: rest⟩ :: path =>
    if _h : g.contains s ∧ ¬ marked.contains s then
      walk g (⟨s, g.successors s⟩ :: ⟨id, rest⟩ :: path) (s :: marked) post
    else walk g (⟨id, rest⟩ :: path) marked post
termination_by (g.unmarked marked, (path.flatMap fun v => v.id :: v.rest).length)
decreasing_by
  · exact Prod.Lex.right _ (by simp)
  · exact Prod.Lex.left _ _ (unmarked_cons_lt _h.1 _h.2)
  · exact Prod.Lex.right _ (by simp)

/-- The blocks reachable from the entry, in reverse post-order. -/
def order (g : Graph) : List BlockId :=
  g.walk [⟨g.entry, g.successors g.entry⟩] [g.entry] []

end Graph

/-! ## Removing unreachable blocks

Blocks that the entry does not reach are taken out, and with them the inputs they gave to phis.
-/

/-- Drops the inputs that a phi in block `home` has from the given blocks. Other instructions, and phis
without such an input, stay as they are. -/
def Instr.pruned (dead : List BlockId) (home : BlockId) (i : Instr) : Instr :=
  match i.kind with
  | .phi blocks =>
    if blocks.any dead.contains then
      let kept := (blocks.zip i.operands).filter fun p => !dead.contains p.1
      { kind := .phi (kept.map (·.1)), operands := kept.map (·.2), output := i.output,
        offset := i.offset, block := some home }
    else i
  | _ => i

namespace Graph

/-- The blocks the entry does not reach, in order of their numbers. -/
def unreachable (g : Graph) : List Block :=
  let reachable := g.order
  g.toList.filter fun b => !reachable.contains b.id

/-- Takes the unreachable blocks out and prunes the phis of the others. -/
def removeUnreachable (g : Graph) : List Block × Graph :=
  let removed := g.unreachable
  let dead := removed.map (·.id)
  let keep (b : Block) : Option Block :=
    if dead.contains b.id then none
    else some { b with instrs := b.instrs.map (Instr.pruned dead b.id) }
  (removed, { g with blocks := g.blocks.map fun b => b.bind keep })

end Graph

end Bailout
