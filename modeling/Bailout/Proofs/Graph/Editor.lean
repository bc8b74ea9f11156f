import Bailout.Proofs.Graph.Linked

/-!
# Editing functions

An editor has functions, blocks that were taken out of functions or copied, and loose instructions.
Its operations make and copy functions, change their graphs, move instructions between blocks and the
loose ones, and change instructions where they are. Each operation keeps the graphs tidy, the blocks
with instructions linked to them, and the loose instructions linked to none. `functions_represented`
says what that means for everything an editor comes to have.
-/

namespace Bailout

/-! ## Copies -/

theorem Block.copy_eq (b : Block) : b.copy = b := by
  have hcopy : b.instrs.map Instr.copyInPlace = b.instrs := List.map_id'' (fun _ => rfl) b.instrs
  unfold Block.copy
  rw [hcopy]

theorem Function.copy_eq (f : Function) : f.copy = f := by
  have hcopy : Option.map Block.copy = id := by
    funext x
    cases x with
    | none => rfl
    | some b => exact congrArg some b.copy_eq
  unfold Function.copy
  rw [hcopy, List.map_id]

/-! ## Blocks -/

/-- Operations on a block. -/
inductive Block.Op where
  | push (i : Instr)
  | insert (index : Nat) (i : Instr)
  | remove (index : Nat)
  | replace (index : Nat) (i : Instr)
  | change (index : Nat) (c : Instr.Change)

namespace Block

/-- The instruction that goes into the block. -/
def Op.given? : Op → Option Instr
  | .push i | .insert _ i | .replace _ i => some i
  | .remove _ | .change _ _ => none

/-- The block afterwards, and the instruction that came out of it. -/
def perform (b : Block) : Op → Except Fault (Option Instr × Block)
  | .push i => do
    let (_, b) ← b.push i
    return (none, b)
  | .insert index i => do return (none, ← b.insert index i)
  | .remove index => do
    let (i, b) ← b.remove index
    return (some i, b)
  | .replace index i => do
    let (old, b) ← b.replace index i
    return (some old, b)
  | .change index c => do return (none, ← b.change index c)

theorem Holds.perform {b b' : Block} {op : Op} {out : Option Instr} (hb : b.Holds)
    (hgiven : ∀ i ∈ op.given?, i.Built) (h : b.perform op = .ok (out, b')) :
    b.Keeps b' ∧ ∀ i ∈ out, i.Loose := by
  cases op with
  | push i =>
    obtain ⟨⟨n, now⟩, hpush, h⟩ := bind_eq_ok.1 h
    obtain ⟨rfl, rfl⟩ := Prod.mk.inj (Except.ok.inj h)
    exact ⟨hb.push (hgiven i rfl) hpush, fun i hi => by cases hi⟩
  | insert index i =>
    obtain ⟨now, hinsert, h⟩ := bind_eq_ok.1 h
    obtain ⟨rfl, rfl⟩ := Prod.mk.inj (Except.ok.inj h)
    exact ⟨hb.insert (hgiven i rfl) hinsert, fun i hi => by cases hi⟩
  | remove index =>
    obtain ⟨⟨i, now⟩, hremove, h⟩ := bind_eq_ok.1 h
    obtain ⟨rfl, rfl⟩ := Prod.mk.inj (Except.ok.inj h)
    obtain ⟨hkeeps, hloose⟩ := hb.remove hremove
    refine ⟨hkeeps, fun j hj => ?_⟩
    obtain rfl := Option.some.inj hj
    exact hloose
  | replace index i =>
    obtain ⟨⟨old, now⟩, hreplace, h⟩ := bind_eq_ok.1 h
    obtain ⟨rfl, rfl⟩ := Prod.mk.inj (Except.ok.inj h)
    obtain ⟨hkeeps, hloose⟩ := hb.replace (hgiven i rfl) hreplace
    refine ⟨hkeeps, fun j hj => ?_⟩
    obtain rfl := Option.some.inj hj
    exact hloose
  | change index c =>
    obtain ⟨now, hchange, h⟩ := bind_eq_ok.1 h
    obtain ⟨rfl, rfl⟩ := Prod.mk.inj (Except.ok.inj h)
    exact ⟨hb.change hchange, fun i hi => by cases hi⟩

end Block

/-! ## Functions -/

/-- A function, and the block numbers that have been given out for it, in order. -/
structure Draft where
  function : Function
  given : List BlockId

namespace Draft

variable {d d' : Draft}

def graph (d : Draft) : Graph := d.function.graph

def withGraph (d : Draft) (graph : Graph) : Draft := { d with function := { d.function with graph } }

/-- The entry has been given out. -/
def new (code : CodeUnit) : Draft := { function := .new code, given := [Graph.new.entry] }

def copy (d : Draft) : Draft := { d with function := d.function.copy }

/-- Operations on the graph of a function and its registers. -/
inductive Op where
  | alloc
  | setEntry (id : BlockId)
  | removeBlock (id : BlockId)
  | removeUnreachable
  | emit (id : BlockId) (kind : InstrKind) (operands : List Reg) (fs : Option FrameState)
  /-- Anything happens to the registers. -/
  | setEnv (env : Env)

/-- The function afterwards, and the blocks that were taken out of it. -/
def perform (d : Draft) : Op → Except Fault (List Block × Draft)
  | .alloc =>
    let (id, graph) := d.graph.alloc
    .ok ([], { d.withGraph graph with given := d.given ++ [id] })
  | .setEntry id => do return ([], d.withGraph (← d.graph.setEntry id))
  | .removeBlock id => do
    let (b, graph) ← d.graph.remove id
    return (b.toList, d.withGraph graph)
  | .removeUnreachable =>
    let (removed, graph) := d.graph.removeUnreachable
    .ok (removed, d.withGraph graph)
  | .emit id kind operands fs => do
    let (_, function) ← d.function.emit id kind operands fs
    return ([], { d with function })
  | .setEnv env => .ok ([], { d with function := { d.function with env } })

/-- The graph is tidy, and the numbers given out are those of its places. -/
structure Sound (d : Draft) : Prop where
  tidy : d.graph.Tidy
  given : d.given = (List.range d.graph.blocks.length).map BlockId.mk

theorem sound_new (code : CodeUnit) : (new code).Sound := ⟨Graph.tidy_new, rfl⟩

theorem Sound.copy (hd : d.Sound) : d.copy.Sound := by
  unfold Draft.copy
  rw [Function.copy_eq]
  exact hd

theorem Sound.withGraph (hd : d.Sound) {g : Graph} (hg : g.Tidy)
    (hlength : g.blocks.length = d.graph.blocks.length) : (d.withGraph g).Sound := by
  refine ⟨hg, ?_⟩
  show d.given = (List.range g.blocks.length).map BlockId.mk
  rw [hlength, hd.given]

theorem Sound.perform (hd : d.Sound) {op : Op} {out : List Block} (h : d.perform op = .ok (out, d')) :
    d'.Sound ∧ ∀ b ∈ out, b.Holds := by
  cases op with
  | alloc =>
    obtain ⟨rfl, rfl⟩ := Prod.mk.inj (Except.ok.inj h)
    refine ⟨⟨hd.tidy.alloc, ?_⟩, List.forall_mem_nil _⟩
    show d.given ++ [⟨d.graph.blocks.length⟩] = (List.range (d.graph.blocks ++ [_]).length).map BlockId.mk
    rw [List.length_append, List.length_singleton, List.range_succ, List.map_append, hd.given]
    rfl
  | setEntry id =>
    obtain ⟨graph, hset, h⟩ := bind_eq_ok.1 h
    obtain ⟨rfl, rfl⟩ := Prod.mk.inj (Except.ok.inj h)
    refine ⟨hd.withGraph (hd.tidy.setEntry hset) ?_, List.forall_mem_nil _⟩
    exact Graph.length_setEntry hset
  | removeBlock id =>
    obtain ⟨⟨b, graph⟩, hremove, h⟩ := bind_eq_ok.1 h
    obtain ⟨rfl, rfl⟩ := Prod.mk.inj (Except.ok.inj h)
    obtain ⟨htidy, hout⟩ := hd.tidy.remove hremove
    refine ⟨hd.withGraph htidy (Graph.length_remove hremove), fun b hb => hout b ?_⟩
    exact Option.mem_toList.1 hb
  | removeUnreachable =>
    obtain ⟨rfl, rfl⟩ := Prod.mk.inj (Except.ok.inj h)
    obtain ⟨htidy, hout⟩ := hd.tidy.removeUnreachable
    exact ⟨hd.withGraph htidy (List.length_map _), hout⟩
  | emit id kind operands fs =>
    obtain ⟨⟨r, function⟩, hemit, h⟩ := bind_eq_ok.1 h
    obtain ⟨rfl, rfl⟩ := Prod.mk.inj (Except.ok.inj h)
    obtain ⟨i, n, hi, hpush⟩ := Function.emit_pushes hemit
    obtain ⟨htidy, -⟩ := hd.tidy.update (fun b b' hb hpush => hb.push hi hpush) hpush
    have hsound := hd.withGraph htidy (Graph.length_update hpush)
    exact ⟨⟨hsound.tidy, hsound.given⟩, List.forall_mem_nil _⟩
  | setEnv env =>
    obtain ⟨rfl, rfl⟩ := Prod.mk.inj (Except.ok.inj h)
    exact ⟨⟨hd.tidy, hd.given⟩, List.forall_mem_nil _⟩

theorem Sound.nodup_given (hd : d.Sound) : d.given.Nodup := by
  rw [hd.given]
  exact List.nodup_range.map fun m n h => BlockId.mk.inj h

theorem Sound.alloc_not_mem_given (hd : d.Sound) : d.graph.alloc.1 ∉ d.given := by
  rw [hd.given]
  intro h
  obtain ⟨n, hn, heq⟩ := List.mem_map.1 h
  rw [List.mem_range, BlockId.mk.inj heq] at hn
  omega

end Draft

/-! ## Editors -/

structure Editor where
  drafts : List Draft := []
  /-- Blocks in no function. -/
  shelf : List Block := []
  /-- Instructions in no block. -/
  loose : List Instr := []

namespace Editor

variable {e e' : Editor} {α : Type}

def pick (l : List α) (n : Nat) : Except Fault α :=
  match l[n]? with
  | some a => .ok a
  | none => .error (.index l.length n)

theorem mem_of_pick {l : List α} {n : Nat} {a : α} (h : pick l n = .ok a) : a ∈ l := by
  unfold pick at h
  split at h
  · next a' ha =>
    obtain rfl := Except.ok.inj h
    exact List.mem_of_getElem? ha
  · cases h

/-- Where a block is. -/
inductive Place where
  | draft (n : Nat) (id : BlockId)
  | shelf (n : Nat)

def block (e : Editor) : Place → Except Fault Block
  | .draft n id => do (← pick e.drafts n).graph.block id
  | .shelf n => pick e.shelf n

/-- Changes one block. -/
def onBlock (e : Editor) (change : Block → Except Fault (α × Block)) :
    Place → Except Fault (α × Editor)
  | .draft n id => do
    let d ← pick e.drafts n
    let (a, graph) ← d.graph.update id change
    return (a, { e with drafts := e.drafts.set n (d.withGraph graph) })
  | .shelf n => do
    let (a, b) ← change (← pick e.shelf n)
    return (a, { e with shelf := e.shelf.set n b })

/-- An operation on one block; what comes out of it is loose. -/
def onInstrs (e : Editor) (p : Place) (op : Block.Op) : Except Fault Editor := do
  let (out, e) ← e.onBlock (·.perform op) p
  return { e with loose := e.loose ++ out.toList }

/-- Moves a loose instruction into a block. -/
def move (e : Editor) (n : Nat) (p : Place) (op : Instr → Block.Op) : Except Fault Editor := do
  let i ← pick e.loose n
  { e with loose := e.loose.eraseIdx n }.onInstrs p (op i)

inductive Op where
  | newFunction (code : CodeUnit)
  | copyFunction (n : Nat)
  | onFunction (n : Nat) (op : Draft.Op)
  | copyBlock (p : Place)
  | newInstr (kind : InstrKind) (operands : List Reg) (output : Option Reg)
  | copyInstr (p : Place) (index : Nat)
  | push (n : Nat) (p : Place)
  | insert (n : Nat) (p : Place) (index : Nat)
  | replace (n : Nat) (p : Place) (index : Nat)
  | remove (p : Place) (index : Nat)
  | change (p : Place) (index : Nat) (c : Instr.Change)
  | copyLoose (n : Nat)
  | changeLoose (n : Nat) (c : Instr.Change)

def perform (e : Editor) : Op → Except Fault Editor
  | .newFunction code => .ok { e with drafts := e.drafts ++ [.new code] }
  | .copyFunction n => do return { e with drafts := e.drafts ++ [(← pick e.drafts n).copy] }
  | .onFunction n op => do
    let (out, d) ← (← pick e.drafts n).perform op
    return { e with drafts := e.drafts.set n d, shelf := e.shelf ++ out }
  | .copyBlock p => do return { e with shelf := e.shelf ++ [(← e.block p).copy] }
  | .newInstr kind operands output => do
    return { e with loose := e.loose ++ [← Instr.new kind operands output] }
  | .copyInstr p index => do
    return { e with loose := e.loose ++ [(← (← e.block p).instr index).copy] }
  | .push n p => e.move n p .push
  | .insert n p index => e.move n p (.insert index)
  | .replace n p index => e.move n p (.replace index)
  | .remove p index => e.onInstrs p (.remove index)
  | .change p index c => e.onInstrs p (.change index c)
  | .copyLoose n => do return { e with loose := e.loose ++ [(← pick e.loose n).copy] }
  | .changeLoose n c => do return { e with loose := e.loose.set n (← (← pick e.loose n).change c) }

def run (e : Editor) (ops : List Op) : Except Fault Editor := ops.foldlM perform e

structure Sound (e : Editor) : Prop where
  drafts : ∀ d ∈ e.drafts, d.Sound
  shelf : ∀ b ∈ e.shelf, b.Holds
  loose : ∀ i ∈ e.loose, i.Loose

theorem sound_empty : ({} : Editor).Sound where
  drafts := List.forall_mem_nil _
  shelf := List.forall_mem_nil _
  loose := List.forall_mem_nil _

theorem Sound.addDraft (he : e.Sound) {d : Draft} (hd : d.Sound) :
    ({ e with drafts := e.drafts ++ [d] } : Editor).Sound :=
  ⟨List.forall_mem_append.2 ⟨he.drafts, List.forall_mem_singleton.2 hd⟩, he.shelf, he.loose⟩

theorem Sound.setDraft (he : e.Sound) {d : Draft} (hd : d.Sound) (n : Nat) :
    ({ e with drafts := e.drafts.set n d } : Editor).Sound :=
  ⟨forall_mem_set he.drafts hd n, he.shelf, he.loose⟩

theorem Sound.addBlocks (he : e.Sound) {l : List Block} (hl : ∀ b ∈ l, b.Holds) :
    ({ e with shelf := e.shelf ++ l } : Editor).Sound :=
  ⟨he.drafts, List.forall_mem_append.2 ⟨he.shelf, hl⟩, he.loose⟩

theorem Sound.addLoose (he : e.Sound) {l : List Instr} (hl : ∀ i ∈ l, i.Loose) :
    ({ e with loose := e.loose ++ l } : Editor).Sound :=
  ⟨he.drafts, he.shelf, List.forall_mem_append.2 ⟨he.loose, hl⟩⟩

theorem Sound.block (he : e.Sound) {p : Place} {b : Block} (h : e.block p = .ok b) : b.Holds := by
  cases p with
  | draft n id =>
    obtain ⟨d, hd, h⟩ := bind_eq_ok.1 h
    exact (he.drafts d (mem_of_pick hd)).tidy.holds id b (Graph.block_eq_ok.1 h)
  | shelf n => exact he.shelf b (mem_of_pick h)

theorem Sound.onBlock (he : e.Sound) {p : Place} {a : α} {change : Block → Except Fault (α × Block)}
    (hkeeps : ∀ b b', b.Holds → change b = .ok (a, b') → b.Keeps b')
    (h : e.onBlock change p = .ok (a, e')) :
    e'.Sound ∧ ∃ b b', b.Holds ∧ change b = .ok (a, b') := by
  cases p with
  | draft n id =>
    obtain ⟨d, hd, h⟩ := bind_eq_ok.1 h
    obtain ⟨⟨a', graph⟩, hupdate, h⟩ := bind_eq_ok.1 h
    obtain ⟨rfl, rfl⟩ := Prod.mk.inj (Except.ok.inj h)
    have hsound := he.drafts d (mem_of_pick hd)
    obtain ⟨htidy, hchange⟩ := hsound.tidy.update hkeeps hupdate
    have hd' := hsound.withGraph htidy (Graph.length_update hupdate)
    exact ⟨he.setDraft hd' n, hchange⟩
  | shelf n =>
    obtain ⟨b, hb, h⟩ := bind_eq_ok.1 h
    obtain ⟨⟨a', b'⟩, hchange, h⟩ := bind_eq_ok.1 h
    obtain ⟨rfl, rfl⟩ := Prod.mk.inj (Except.ok.inj h)
    have hholds := he.shelf b (mem_of_pick hb)
    have hb' := (hkeeps b b' hholds hchange).2
    exact ⟨⟨he.drafts, forall_mem_set he.shelf hb' n, he.loose⟩, b, b', hholds, hchange⟩

theorem Sound.onInstrs (he : e.Sound) {p : Place} {op : Block.Op} (hgiven : ∀ i ∈ op.given?, i.Built)
    (h : e.onInstrs p op = .ok e') : e'.Sound := by
  obtain ⟨⟨out, now⟩, hblock, h⟩ := bind_eq_ok.1 h
  obtain rfl := Except.ok.inj h
  obtain ⟨hnow, b, b', hb, hperform⟩ :=
    he.onBlock (fun b b' hb hperform => (hb.perform hgiven hperform).1) hblock
  refine hnow.addLoose fun i hi => ?_
  exact (hb.perform hgiven hperform).2 i (Option.mem_toList.1 hi)

theorem Sound.move (he : e.Sound) {n : Nat} {p : Place} {op : Instr → Block.Op}
    (hop : ∀ i, (op i).given? = some i) (h : e.move n p op = .ok e') : e'.Sound := by
  obtain ⟨i, hi, h⟩ := bind_eq_ok.1 h
  have hleft : ({ e with loose := e.loose.eraseIdx n } : Editor).Sound :=
    ⟨he.drafts, he.shelf, fun j hj => he.loose j (List.mem_of_mem_eraseIdx hj)⟩
  refine hleft.onInstrs (fun j hj => ?_) h
  rw [hop] at hj
  obtain rfl := Option.some.inj hj
  exact (he.loose i (mem_of_pick hi)).1

theorem Sound.perform (he : e.Sound) {op : Op} (h : e.perform op = .ok e') : e'.Sound := by
  cases op with
  | newFunction code =>
    obtain rfl := Except.ok.inj h
    exact he.addDraft (Draft.sound_new code)
  | copyFunction n =>
    obtain ⟨d, hd, h⟩ := bind_eq_ok.1 h
    obtain rfl := Except.ok.inj h
    exact he.addDraft (he.drafts d (mem_of_pick hd)).copy
  | onFunction n op =>
    obtain ⟨d, hd, h⟩ := bind_eq_ok.1 h
    obtain ⟨⟨out, d'⟩, hperform, h⟩ := bind_eq_ok.1 h
    obtain rfl := Except.ok.inj h
    obtain ⟨hd', hout⟩ := (he.drafts d (mem_of_pick hd)).perform hperform
    exact (he.setDraft hd' n).addBlocks hout
  | copyBlock p =>
    obtain ⟨b, hb, h⟩ := bind_eq_ok.1 h
    obtain rfl := Except.ok.inj h
    rw [b.copy_eq]
    exact he.addBlocks (List.forall_mem_singleton.2 (he.block hb))
  | newInstr kind operands output =>
    obtain ⟨i, hi, h⟩ := bind_eq_ok.1 h
    obtain rfl := Except.ok.inj h
    exact he.addLoose (List.forall_mem_singleton.2 (Instr.loose_new hi))
  | copyInstr p index =>
    obtain ⟨b, hb, h⟩ := bind_eq_ok.1 h
    obtain ⟨i, hi, h⟩ := bind_eq_ok.1 h
    obtain rfl := Except.ok.inj h
    have hlinked := he.block hb i (List.mem_of_getElem? (Block.instr_eq_ok.1 hi))
    exact he.addLoose (List.forall_mem_singleton.2 hlinked.1.loose_copy)
  | push n p => exact he.move (fun _ => rfl) h
  | insert n p index => exact he.move (fun _ => rfl) h
  | replace n p index => exact he.move (fun _ => rfl) h
  | remove p index => exact he.onInstrs (fun i hi => by cases hi) h
  | change p index c => exact he.onInstrs (fun i hi => by cases hi) h
  | copyLoose n =>
    obtain ⟨i, hi, h⟩ := bind_eq_ok.1 h
    obtain rfl := Except.ok.inj h
    have hcopy := (he.loose i (mem_of_pick hi)).1.loose_copy
    exact he.addLoose (List.forall_mem_singleton.2 hcopy)
  | changeLoose n c =>
    obtain ⟨i, hi, h⟩ := bind_eq_ok.1 h
    obtain ⟨i', hi', h⟩ := bind_eq_ok.1 h
    obtain rfl := Except.ok.inj h
    have hloose := he.loose i (mem_of_pick hi)
    obtain ⟨hbuilt, hblock⟩ := hloose.1.change hi'
    exact ⟨he.drafts, he.shelf, forall_mem_set he.loose ⟨hbuilt, hblock.trans hloose.2⟩ n⟩

theorem run_append {ops ops' : List Op} {last : Editor} (h : e.run ops = .ok e')
    (h' : e'.run ops' = .ok last) : e.run (ops ++ ops') = .ok last := by
  unfold run
  rw [List.foldlM_append]
  exact bind_eq_ok.2 ⟨e', h, h'⟩

theorem Sound.run (he : e.Sound) {ops : List Op} (h : e.run ops = .ok e') : e'.Sound :=
  foldlM_induct Sound (fun _ _ _ _ he hop => he.perform hop) he h

end Editor

/-! ## Representation -/

/-- What is so of an instruction wherever it is. -/
structure Instr.Made (i : Instr) : Prop extends Instr.Formed i where
  constant : ∀ ty, i.kind = .loadConst ty → ty.isSingleValue

theorem Instr.Built.made {i : Instr} (h : i.Built) : i.Made := ⟨h.formed, fun _ => h.constant⟩

/-- What is so of a function and the block numbers given out for it. -/
structure Draft.Represented (d : Draft) : Prop where
  /-- A place of the table is a hole or has the block of that number. -/
  numbered : ∀ (n : Nat) (b : Block), d.graph.blocks[n]? = some (some b) → b.id = ⟨n⟩
  /-- No number has been given out twice, and none that has been will be again. -/
  given : d.given.Nodup
  next : d.graph.alloc.1 ∉ d.given
  entry : d.graph.contains d.graph.entry
  linked : ∀ id b, d.graph.block? id = some b → ∀ i ∈ b.instrs, i.block = some id
  made : ∀ i ∈ d.function.instrs, i.Made

theorem Draft.Sound.represented {d : Draft} (hd : d.Sound) : d.Represented where
  numbered := fun n b hb => hd.tidy.numbered ⟨n⟩ b (Graph.block?_eq_some.2 hb)
  given := hd.nodup_given
  next := hd.alloc_not_mem_given
  entry := hd.tidy.entry
  linked := fun id b hb i hi => by
    rw [(hd.tidy.holds id b hb i hi).2, hd.tidy.numbered id b hb]
  made := fun i hi => by
    obtain ⟨b, hb, hi⟩ := List.mem_flatMap.1 hi
    obtain ⟨id, hid⟩ := Graph.mem_toList.1 hb
    exact (hd.tidy.holds id b hid i hi).1.made

/-- **Representation of functions, blocks and instructions.** However functions are made, copied and
edited, their graphs are numbered and have their entry, instructions are linked to the block they are
in, and each carries what its kind allows. -/
theorem Editor.functions_represented {ops : List Editor.Op} {e : Editor}
    (h : ({} : Editor).run ops = .ok e) :
    (∀ d ∈ e.drafts, d.Represented) ∧
    (∀ b ∈ e.shelf, ∀ i ∈ b.instrs, i.block = some b.id ∧ i.Made) ∧
    ∀ i ∈ e.loose, i.block = none ∧ i.Made := by
  have hsound : e.Sound := Editor.sound_empty.run h
  refine ⟨fun d hd => (hsound.drafts d hd).represented, fun b hb i hi => ?_, fun i hi => ?_⟩
  · obtain ⟨hbuilt, hblock⟩ := hsound.shelf b hb i hi
    exact ⟨hblock, hbuilt.made⟩
  · obtain ⟨hbuilt, hblock⟩ := hsound.loose i hi
    exact ⟨hblock, hbuilt.made⟩

namespace Reworked

def code : CodeUnit := { id := ⟨1⟩, name := "f", length := 16 }

/-- A function whose second block leads to the third, but nothing leads to it. -/
def made : List Editor.Op :=
  [.newFunction code, .onFunction 0 .alloc, .onFunction 0 .alloc,
    .onFunction 0 (.emit ⟨0⟩ (.loadConst (.ofBool true)) [] none),
    .onFunction 0 (.emit ⟨0⟩ (.branch ⟨2⟩) [] none),
    .onFunction 0 (.emit ⟨1⟩ (.branch ⟨2⟩) [] none),
    .newInstr (.phi [⟨1⟩, ⟨0⟩]) [⟨0⟩, ⟨0⟩] none, .push 0 (.draft 0 ⟨2⟩),
    .newInstr .guard [⟨0⟩] none, .insert 0 (.draft 0 ⟨0⟩) 1]

/-- The copy gets another block, and its guard is taken out. -/
def reworked : List Editor.Op :=
  [.copyFunction 0, .onFunction 1 .alloc, .copyInstr (.draft 1 ⟨2⟩) 0, .remove (.draft 1 ⟨0⟩) 1]

def branch (home : BlockId) : Instr :=
  { kind := .branch ⟨2⟩, operands := [], output := none, block := some home }

def entry : Block := ⟨⟨0⟩, [
  { kind := .loadConst (.ofBool true), operands := [], output := some ⟨0⟩, block := some ⟨0⟩ },
  { kind := .guard, operands := [⟨0⟩], output := none, block := some ⟨0⟩,
    deopt := some { guilty := some ⟨0⟩ } },
  branch ⟨0⟩]⟩

def detached : Block := ⟨⟨1⟩, [branch ⟨1⟩]⟩

def join (inputs : List BlockId) : Block := ⟨⟨2⟩, [
  { kind := .phi inputs, operands := inputs.map fun _ => ⟨0⟩, output := none, block := some ⟨2⟩ }]⟩

def draft (graph : Graph) : Draft where
  function := { Function.new code with env := ⟨[.ofBool true]⟩, graph }
  given := [⟨0⟩, ⟨1⟩, ⟨2⟩]

def graph : Graph := ⟨[some entry, some detached, some (join [⟨1⟩, ⟨0⟩])], ⟨0⟩⟩

def trimmed : Graph := ⟨[some entry, none, some (join [⟨0⟩])], ⟨0⟩⟩

theorem removeUnreachable : graph.removeUnreachable = ([detached], trimmed) := by
  have horder : graph.order = [⟨0⟩, ⟨2⟩] := Graph.order_of_within 4 rfl
  simp only [Graph.removeUnreachable, Graph.unreachable, horder]
  rfl

theorem trim : ({ drafts := [draft graph] } : Editor).perform (.onFunction 0 .removeUnreachable) =
    .ok { drafts := [draft trimmed], shelf := [detached] } := by
  have hperform : (draft graph).perform .removeUnreachable = .ok ([detached], draft trimmed) := by
    show Except.ok (graph.removeUnreachable.1, (draft graph).withGraph graph.removeUnreachable.2) = _
    rw [removeUnreachable]
    rfl
  exact bind_eq_ok.2 ⟨draft graph, rfl, bind_eq_ok.2 ⟨_, hperform, rfl⟩⟩

end Reworked

/-- The number of the removed block is not given out again, and what is taken out of the copy is loose. -/
theorem Editor.functions_represented_reworked : ∃ e d,
    ({} : Editor).run (Reworked.made ++ .onFunction 0 .removeUnreachable :: Reworked.reworked) = .ok e ∧
    e.drafts[1]? = some d ∧ d.given = [⟨0⟩, ⟨1⟩, ⟨2⟩, ⟨3⟩] ∧
    d.graph.blocks.map Option.isSome = [true, false, true, true] ∧ d.Represented ∧
    e.loose.map (·.opcode) = [.phi, .guard] ∧ ∀ i ∈ e.loose, i.block = none ∧ i.Made := by
  have hmade : ({} : Editor).run Reworked.made = .ok { drafts := [Reworked.draft Reworked.graph] } := rfl
  have hreworked : ({ drafts := [Reworked.draft Reworked.trimmed], shelf := [Reworked.detached] } :
      Editor).run Reworked.reworked = .ok _ := rfl
  have hrun := run_append hmade (foldlM_cons_eq_ok.2 ⟨_, Reworked.trim, hreworked⟩)
  obtain ⟨hdrafts, -, hloose⟩ := Editor.functions_represented hrun
  exact ⟨_, _, hrun, rfl, rfl, rfl, hdrafts _ (List.mem_of_getElem? (i := 1) rfl), rfl, hloose⟩

end Bailout
