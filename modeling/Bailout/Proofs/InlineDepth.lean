import Bailout.Proofs.Compile
import Bailout.Proofs.Graph.Paths
import Bailout.Proofs.Instr.Built

/-!
# Inline depth along paths

Along a path the open inlined calls are counted: one more for each call that begins, one fewer for each
that ends. The check for inline depth visits each block once, yet it accepts exactly the functions
whose every path, round loops or not, keeps the count from going below zero, meets each frame state
with as many callers as calls are open, and agrees with every other path to the same block.
-/

namespace Bailout

/-- What an instruction does to the number of open inlined calls. -/
def Instr.depthChange (i : Instr) : Int :=
  match i.opcode with
  | .beginInlinedFunction => 1
  | .endInlinedFunction => -1
  | _ => 0

/-- The inlined calls that a run of instructions leaves open. -/
def openCalls : List Instr → Int
  | [] => 0
  | i :: rest => i.depthChange + openCalls rest

@[simp] theorem openCalls_nil : openCalls [] = 0 := rfl

@[simp] theorem openCalls_cons (i : Instr) (is : List Instr) :
    openCalls (i :: is) = i.depthChange + openCalls is := rfl

@[simp] theorem openCalls_append (is js : List Instr) :
    openCalls (is ++ js) = openCalls is + openCalls js := by
  induction is with
  | nil => simp
  | cons i is ih =>
    rw [List.cons_append, openCalls_cons, openCalls_cons, ih]
    omega

/-- With `depth` calls open at first, the count never goes below zero, and each frame state has as many
callers as calls are open where it is met. -/
def Steady (depth : Int) (is : List Instr) : Prop :=
  (∀ before, before <+: is → 0 ≤ depth + openCalls before) ∧
    ∀ before i, before ++ [i] <+: is → ∀ fs, i.frameState = some fs →
      (fs.inlineDepth : Int) = depth + openCalls before

theorem steady_nil {depth : Int} : Steady depth [] ↔ 0 ≤ depth := by
  simp [Steady]

theorem steady_cons {depth : Int} {i : Instr} {is : List Instr} :
    Steady depth (i :: is) ↔ 0 ≤ depth ∧
      (∀ fs, i.frameState = some fs → (fs.inlineDepth : Int) = depth) ∧
      Steady (depth + i.depthChange) is := by
  constructor
  · rintro ⟨hnonneg, hframes⟩
    refine ⟨by simpa using hnonneg [] (List.nil_prefix), ?_, ?_, ?_⟩
    · simpa using hframes [] i (by simp)
    · intro before hb
      have := hnonneg (i :: before) (List.cons_prefix_cons.2 ⟨rfl, hb⟩)
      rwa [openCalls_cons, ← Int.add_assoc] at this
    · intro before j hb
      have := hframes (i :: before) j (List.cons_prefix_cons.2 ⟨rfl, hb⟩)
      rwa [openCalls_cons, ← Int.add_assoc] at this
  · rintro ⟨hd, hi, hnonneg, hframes⟩
    refine ⟨fun before hb => ?_, fun before j hb => ?_⟩
    · cases before with
      | nil => simpa using hd
      | cons i' before =>
        obtain ⟨rfl, hrest⟩ := List.cons_prefix_cons.1 hb
        rw [openCalls_cons, ← Int.add_assoc]
        exact hnonneg before hrest
    · cases before with
      | nil =>
        obtain ⟨rfl, -⟩ := List.cons_prefix_cons.1 hb
        simpa using hi
      | cons i' before =>
        obtain ⟨rfl, hrest⟩ := List.cons_prefix_cons.1 hb
        rw [openCalls_cons, ← Int.add_assoc]
        exact hframes before j hrest

theorem Steady.start {depth : Int} {is : List Instr} (h : Steady depth is) : 0 ≤ depth := by
  simpa using h.1 [] List.nil_prefix

theorem Steady.finish {depth : Int} {is : List Instr} (h : Steady depth is) :
    0 ≤ depth + openCalls is :=
  h.1 is List.prefix_rfl

theorem steady_append {depth : Int} {is js : List Instr} :
    Steady depth (is ++ js) ↔ Steady depth is ∧ Steady (depth + openCalls is) js := by
  induction is generalizing depth with
  | nil =>
    rw [List.nil_append, openCalls_nil, Int.add_zero, steady_nil]
    exact ⟨fun h => ⟨h.start, h⟩, And.right⟩
  | cons i is ih =>
    rw [List.cons_append, steady_cons, steady_cons, ih, openCalls_cons, Int.add_assoc]
    tauto

/-! ## Where frame states are -/

namespace Function

variable {f : Function} {id : BlockId} {ds ds' : Depths}

/-- Only instructions that may have a frame state have one. -/
def StatesAllowed (f : Function) : Prop :=
  ∀ i ∈ f.instrs, i.frameState.isSome → i.opcode.hasFrameState

theorem statesAllowed_of_built (h : ∀ i ∈ f.instrs, i.Built) : f.StatesAllowed :=
  fun i hi => (h i hi).formed.frameState

/-! ## Instructions along a path -/

/-- The instructions of a block. -/
def body (f : Function) (id : BlockId) : List Instr :=
  ((f.graph.block? id).map Block.instrs).getD []

/-- The instructions of several blocks, one block after the other. -/
def trace (f : Function) (done : List BlockId) : List Instr := done.flatMap f.body

@[simp] theorem trace_nil : f.trace [] = [] := rfl

@[simp] theorem trace_concat (done : List BlockId) :
    f.trace (done ++ [id]) = f.trace done ++ f.body id := by
  simp [trace]

/-- Every path counts steadily from zero, and all paths to a block arrive with the same count. -/
structure Balanced (f : Function) : Prop where
  steady : ∀ {done id}, f.graph.Path done id → Steady 0 (f.trace done ++ f.body id)
  agree : ∀ {done done' id}, f.graph.Path done id → f.graph.Path done' id →
    openCalls (f.trace done) = openCalls (f.trace done')

theorem mem_instrs_of_mem_body {i : Instr} (h : i ∈ f.body id) : i ∈ f.instrs := by
  unfold body at h
  cases hb : f.graph.block? id with
  | none => simp [hb] at h
  | some b =>
    have hmem : b ∈ f.graph.toList := by
      rw [Graph.block?, Option.join_eq_some_iff] at hb
      exact List.mem_filterMap.2 ⟨some b, List.mem_of_getElem? hb, rfl⟩
    exact List.mem_flatMap.2 ⟨b, hmem, by simpa [hb] using h⟩

theorem StatesAllowed.body (h : f.StatesAllowed) (id : BlockId) :
    ∀ i ∈ f.body id, i.opcode = .endInlinedFunction → i.frameState = none := by
  intro i hi hend
  have hall := h i (mem_instrs_of_mem_body hi)
  rw [hend] at hall
  exact Option.not_isSome_iff_eq_none.1 fun hs => absurd (hall hs) (by decide)

/-! ## One block -/

theorem expectDepth_bind_eq_ok {depth next after : Nat} {fs : Option FrameState} :
    (expectDepth id depth fs >>= fun _ => pure next) = .ok after ↔
      (∀ s, fs = some s → s.inlineDepth = depth) ∧ after = next := by
  cases fs with
  | none => simp [expectDepth, eq_comm]
  | some s =>
    by_cases h : s.inlineDepth = depth
    · simp [expectDepth, h, eq_comm]
    · simp [expectDepth, h]

theorem depthAfter_eq_ok {i : Instr} (hi : i.opcode = .endInlinedFunction → i.frameState = none)
    {depth after : Nat} :
    depthAfter id depth i = .ok after ↔
      (∀ fs, i.frameState = some fs → fs.inlineDepth = depth) ∧
        (after : Int) = depth + i.depthChange := by
  unfold depthAfter
  split
  · next hbegin =>
    have hchange : i.depthChange = 1 := by simp [Instr.depthChange, hbegin]
    rw [expectDepth_bind_eq_ok, hchange]
    exact and_congr_right fun _ => by omega
  · next hend =>
    have hchange : i.depthChange = -1 := by simp [Instr.depthChange, hend]
    rw [hi hend, hchange]
    split
    · simp
      omega
    · simp
      omega
  · next hbegin hend =>
    have hchange : i.depthChange = 0 := by simp [Instr.depthChange]
    rw [expectDepth_bind_eq_ok, hchange]
    exact and_congr_right fun _ => by omega

/-- The check runs through the instructions of a block exactly if they are steady. -/
theorem foldlM_depthAfter_eq_ok {is : List Instr}
    (his : ∀ i ∈ is, i.opcode = .endInlinedFunction → i.frameState = none) {depth after : Nat} :
    is.foldlM (depthAfter id) depth = .ok after ↔
      Steady depth is ∧ (after : Int) = depth + openCalls is := by
  induction is generalizing depth with
  | nil =>
    simp [steady_nil]
    omega
  | cons i is ih =>
    rw [List.forall_mem_cons] at his
    rw [foldlM_cons_eq_ok, steady_cons, openCalls_cons, ← Int.add_assoc]
    constructor
    · rintro ⟨mid, hmid, hrest⟩
      obtain ⟨hfs, hchange⟩ := (depthAfter_eq_ok his.1).1 hmid
      obtain ⟨hsteady, hafter⟩ := (ih his.2).1 hrest
      rw [← hchange]
      exact ⟨⟨by omega, fun fs h => by rw [hfs fs h], hsteady⟩, hafter⟩
    · rintro ⟨⟨-, hfs, hsteady⟩, hafter⟩
      have hmid : (0 : Int) ≤ depth + i.depthChange := hsteady.start
      obtain ⟨mid, hmid⟩ := Int.eq_ofNat_of_zero_le hmid
      rw [hmid] at hsteady hafter
      refine ⟨mid, (depthAfter_eq_ok his.1).2 ⟨fun fs h => ?_, hmid.symm⟩,
        (ih his.2).2 ⟨hsteady, hafter⟩⟩
      have := hfs fs h
      omega

/-! ## The table of depths -/

theorem find?_cons (p : BlockId × Nat) :
    Depths.find? (p :: ds) id = if p.1 = id then some p.2 else ds.find? id := by
  unfold Depths.find?
  by_cases h : p.1 = id
  · simp [h]
  · simp [beq_false_of_ne h, h]

theorem passDepth_eq_ok {depth : Nat} {succ : BlockId} (h : passDepth depth ds succ = .ok ds') :
    (∀ d, ds.find? succ = some d → d = depth) ∧
      ∀ id, ds'.find? id = if id = succ then some depth else ds.find? id := by
  unfold passDepth at h
  split at h
  · next expected hfind =>
    split at h
    · next heq =>
      obtain rfl := Except.ok.inj h
      subst heq
      refine ⟨fun d hd => by simpa [hfind, eq_comm] using hd, fun id => ?_⟩
      split
      · next heq => rw [heq, hfind]
      · rfl
    · simp at h
  · next hfind =>
    obtain rfl := Except.ok.inj h
    refine ⟨by simp [hfind], fun id => ?_⟩
    rw [find?_cons]
    simp only [eq_comm]

/-- The depth is passed on to all successors, and nothing else changes. -/
theorem foldlM_passDepth_eq_ok {depth : Nat} {succs : List BlockId}
    (h : succs.foldlM (passDepth depth) ds = .ok ds') (id : BlockId) :
    (id ∈ succs → ∀ d, ds.find? id = some d → d = depth) ∧
      ds'.find? id = if id ∈ succs then some depth else ds.find? id := by
  induction succs generalizing ds with
  | nil =>
    obtain rfl : ds = ds' := by simpa using h
    simp
  | cons s succs ih =>
    obtain ⟨mid, hpass, h⟩ := foldlM_cons_eq_ok.1 h
    obtain ⟨hagree, hfind⟩ := passDepth_eq_ok hpass
    obtain ⟨hrest, hfind'⟩ := ih h
    rw [hfind] at hrest hfind'
    by_cases heq : id = s
    · subst heq
      refine ⟨fun _ => hagree, ?_⟩
      rw [hfind']
      simp
    · rw [if_neg heq] at hrest hfind'
      refine ⟨fun hs => hrest ((List.mem_cons.1 hs).resolve_left heq), ?_⟩
      rw [hfind']
      simp [heq]

theorem foldlM_passDepth_ok {depth : Nat} {succs : List BlockId}
    (h : ∀ s ∈ succs, ∀ d, ds.find? s = some d → d = depth) :
    ∃ ds', succs.foldlM (passDepth depth) ds = .ok ds' := by
  induction succs generalizing ds with
  | nil => exact ⟨ds, rfl⟩
  | cons s succs ih =>
    rw [List.forall_mem_cons] at h
    have hpass : ∃ mid, passDepth depth ds s = .ok mid := by
      unfold passDepth
      split
      · next d hd => exact ⟨ds, if_pos (h.1 d hd)⟩
      · exact ⟨_, rfl⟩
    obtain ⟨mid, hpass⟩ := hpass
    have hmid : ∀ t ∈ succs, ∀ d, mid.find? t = some d → d = depth := by
      intro t ht d hd
      rw [(passDepth_eq_ok hpass).2] at hd
      split at hd
      · exact (Option.some.inj hd).symm
      · exact h.2 t ht d hd
    obtain ⟨ds', hrest⟩ := ih hmid
    exact ⟨ds', foldlM_cons_eq_ok.2 ⟨mid, hpass, hrest⟩⟩

theorem checkBlockDepth_eq (f : Function) (ds : Depths) (id : BlockId) :
    f.checkBlockDepth ds id =
      ((f.body id).foldlM (depthAfter id) ((ds.find? id).getD 0) >>= fun depth =>
        (f.graph.successors id).foldlM (passDepth depth) ds) := by
  unfold checkBlockDepth body Graph.successors
  cases f.graph.block? id with
  | none => rfl
  | some b => rfl

/-- A table keeps what another has fixed. -/
def Depths.Extends (ds' ds : Depths) : Prop := ∀ id d, ds.find? id = some d → ds'.find? id = some d

/-- The table has a block and its successors right: the block is steady from the depth it begins at, and
its successors begin at the depth it ends with. -/
def Settled (f : Function) (ds : Depths) (id : BlockId) : Prop :=
  ∃ d : Nat, ds.find? id = some d ∧ Steady d (f.body id) ∧
    ∀ s ∈ f.graph.successors id, ∃ e : Nat, ds.find? s = some e ∧ (e : Int) = d + openCalls (f.body id)

theorem Settled.mono (h : f.Settled ds id) (hext : ds'.Extends ds) : f.Settled ds' id := by
  obtain ⟨d, hd, hsteady, hsuccs⟩ := h
  refine ⟨d, hext _ _ hd, hsteady, fun s hs => ?_⟩
  obtain ⟨e, he, heq⟩ := hsuccs s hs
  exact ⟨e, hext _ _ he, heq⟩

/-- Every entry of the table is the count of some path. -/
def Counts (f : Function) (ds : Depths) : Prop :=
  ∀ id d, ds.find? id = some d → ∃ done, f.graph.Path done id ∧ (d : Int) = openCalls (f.trace done)

/-- What checking a block with a known depth does: the block is steady, the depth it ends with agrees with
what its successors have, and they have it afterwards. -/
theorem checkBlockDepth_eq_ok (hf : f.StatesAllowed) {d : Nat} (hd : ds.find? id = some d)
    (h : f.checkBlockDepth ds id = .ok ds') :
    Steady d (f.body id) ∧ ∃ e : Nat, (e : Int) = d + openCalls (f.body id) ∧
      ∀ s, (s ∈ f.graph.successors id → ∀ d, ds.find? s = some d → d = e) ∧
        ds'.find? s = if s ∈ f.graph.successors id then some e else ds.find? s := by
  rw [checkBlockDepth_eq, hd, Option.getD_some] at h
  obtain ⟨e, hbody, hpass⟩ := bind_eq_ok.1 h
  obtain ⟨hsteady, he⟩ := (foldlM_depthAfter_eq_ok (hf.body id)).1 hbody
  exact ⟨hsteady, e, he, foldlM_passDepth_eq_ok hpass⟩

theorem checkBlockDepth_settles (hf : f.StatesAllowed) {d : Nat} (hd : ds.find? id = some d)
    (h : f.checkBlockDepth ds id = .ok ds') : ds'.Extends ds ∧ f.Settled ds' id := by
  obtain ⟨hsteady, e, he, hfind⟩ := checkBlockDepth_eq_ok hf hd h
  have hext : ds'.Extends ds := by
    intro s d' hd'
    obtain ⟨hagree, hs⟩ := hfind s
    rw [hs]
    split
    · next hsucc => rw [hagree hsucc d' hd']
    · exact hd'
  refine ⟨hext, d, hext _ _ hd, hsteady, fun s hs => ⟨e, ?_, he⟩⟩
  rw [(hfind s).2, if_pos hs]

theorem checkBlockDepth_counts (hf : f.StatesAllowed) (hc : f.Counts ds) {d : Nat}
    (hd : ds.find? id = some d) (h : f.checkBlockDepth ds id = .ok ds') : f.Counts ds' := by
  obtain ⟨-, e, he, hfind⟩ := checkBlockDepth_eq_ok hf hd h
  intro s d' hd'
  rw [(hfind s).2] at hd'
  split at hd'
  · next hsucc =>
    obtain rfl := Option.some.inj hd'
    obtain ⟨done, hpath, hcount⟩ := hc id d hd
    exact ⟨_, hpath.step hsucc, by rw [trace_concat, openCalls_append]; omega⟩
  · exact hc s d' hd'

/-- Paths that balance let the check of a block pass. -/
theorem checkBlockDepth_ok (hf : f.StatesAllowed) (hb : f.Balanced) (hc : f.Counts ds) {d : Nat}
    (hd : ds.find? id = some d) : ∃ ds', f.checkBlockDepth ds id = .ok ds' := by
  obtain ⟨done, hpath, hcount⟩ := hc id d hd
  have hsteady : Steady d (f.body id) := by
    have := (steady_append.1 (hb.steady hpath)).2
    rwa [Int.zero_add, ← hcount] at this
  obtain ⟨e, he⟩ := Int.eq_ofNat_of_zero_le hsteady.finish
  have hbody : (f.body id).foldlM (depthAfter id) d = .ok e :=
    (foldlM_depthAfter_eq_ok (hf.body id)).2 ⟨hsteady, he.symm⟩
  have hsuccs : ∀ s ∈ f.graph.successors id, ∀ d', ds.find? s = some d' → d' = e := by
    intro s hs d' hd'
    obtain ⟨done', hpath', hcount'⟩ := hc s d' hd'
    have hagree := hb.agree hpath' (hpath.step hs)
    rw [trace_concat, openCalls_append] at hagree
    omega
  obtain ⟨ds', hpass⟩ := foldlM_passDepth_ok hsuccs
  refine ⟨ds', ?_⟩
  rw [checkBlockDepth_eq, hd, Option.getD_some]
  exact bind_eq_ok.2 ⟨e, hbody, hpass⟩

/-! ## The whole graph -/

/-- How far the check has come: it has settled the blocks to the left in the order. -/
structure Progress (f : Function) (left : List BlockId) (ds : Depths) : Prop where
  entry : ds.find? f.graph.entry = some 0
  settled : ∀ id ∈ left, f.Settled ds id

/-- The next block has a depth: it is the entry, or one to the left has passed its depth on. -/
theorem Progress.known {left right : List BlockId} (h : f.Progress left ds)
    (horder : f.graph.order = left ++ id :: right) : ∃ d, ds.find? id = some d := by
  rcases f.graph.order_led left id right horder with rfl | ⟨u, hu, hsucc⟩
  · exact ⟨0, h.entry⟩
  · obtain ⟨d, -, -, hsuccs⟩ := h.settled u hu
    obtain ⟨e, he, -⟩ := hsuccs id hsucc
    exact ⟨e, he⟩

theorem Progress.step (hf : f.StatesAllowed) {left : List BlockId} (h : f.Progress left ds) {d : Nat}
    (hd : ds.find? id = some d) (hcheck : f.checkBlockDepth ds id = .ok ds') :
    f.Progress (left ++ [id]) ds' := by
  obtain ⟨hext, hsettled⟩ := checkBlockDepth_settles hf hd hcheck
  refine ⟨hext _ _ h.entry, fun u hu => ?_⟩
  rcases List.mem_append.1 hu with hu | hu
  · exact (h.settled u hu).mono hext
  · exact List.mem_singleton.1 hu ▸ hsettled

theorem Progress.run (hf : f.StatesAllowed) {left right : List BlockId} (h : f.Progress left ds)
    (horder : f.graph.order = left ++ right) (hcheck : right.foldlM f.checkBlockDepth ds = .ok ds') :
    f.Progress f.graph.order ds' := by
  induction right generalizing left ds with
  | nil =>
    obtain rfl : ds = ds' := by simpa using hcheck
    rwa [horder, List.append_nil]
  | cons id right ih =>
    obtain ⟨mid, hblock, hrest⟩ := foldlM_cons_eq_ok.1 hcheck
    obtain ⟨d, hd⟩ := h.known horder
    exact ih (h.step hf hd hblock) (by simpa using horder) hrest

theorem Progress.run_ok (hf : f.StatesAllowed) (hb : f.Balanced) {left right : List BlockId}
    (h : f.Progress left ds) (hc : f.Counts ds) (horder : f.graph.order = left ++ right) :
    ∃ ds', right.foldlM f.checkBlockDepth ds = .ok ds' := by
  induction right generalizing left ds with
  | nil => exact ⟨ds, rfl⟩
  | cons id right ih =>
    obtain ⟨d, hd⟩ := h.known horder
    obtain ⟨mid, hblock⟩ := checkBlockDepth_ok hf hb hc hd
    obtain ⟨ds', hrest⟩ := ih (h.step hf hd hblock) (checkBlockDepth_counts hf hc hd hblock)
      (by simpa using horder)
    exact ⟨ds', foldlM_cons_eq_ok.2 ⟨mid, hblock, hrest⟩⟩

theorem Progress.count (h : f.Progress f.graph.order ds) {done : List BlockId}
    (hpath : f.graph.Path done id) :
    ∃ d : Nat, ds.find? id = some d ∧ (d : Int) = openCalls (f.trace done) ∧ Steady 0 (f.trace done) := by
  induction hpath with
  | entry => exact ⟨0, h.entry, rfl, steady_nil.2 (Int.le_refl 0)⟩
  | @step done id next hpath hnext ih =>
    obtain ⟨d, hd, hcount, hsteady⟩ := ih
    have hmem := Graph.mem_order_of_path hpath (Graph.contains_of_mem_successors hnext)
    obtain ⟨d', hd', hbody, hsuccs⟩ := h.settled id hmem
    obtain rfl : d = d' := by simpa [hd] using hd'
    obtain ⟨e, he, heq⟩ := hsuccs next hnext
    refine ⟨e, he, by rw [trace_concat, openCalls_append]; omega, ?_⟩
    rw [trace_concat, steady_append, Int.zero_add, ← hcount]
    exact ⟨hsteady, hbody⟩

theorem Progress.balanced (h : f.Progress f.graph.order ds) : f.Balanced where
  steady := by
    intro done id hpath
    obtain ⟨d, hd, hcount, hsteady⟩ := h.count hpath
    rw [steady_append, Int.zero_add, ← hcount]
    refine ⟨hsteady, ?_⟩
    by_cases hc : f.graph.contains id
    · obtain ⟨d', hd', hbody, -⟩ := h.settled id (Graph.mem_order_of_path hpath hc)
      obtain rfl : d = d' := by simpa [hd] using hd'
      exact hbody
    · have hhole : f.body id = [] := by
        have hnone : f.graph.block? id = none := by simpa [Graph.contains] using hc
        simp [body, hnone]
      rw [hhole, steady_nil]
      omega
  agree := by
    intro done done' id hpath hpath'
    obtain ⟨d, hd, hcount, -⟩ := h.count hpath
    obtain ⟨d', hd', hcount', -⟩ := h.count hpath'
    obtain rfl : d = d' := by simpa [hd] using hd'
    exact hcount.symm.trans hcount'

theorem progress_start (f : Function) : f.Progress [] [(f.graph.entry, 0)] :=
  ⟨by simp [find?_cons], by simp⟩

theorem counts_start (f : Function) : f.Counts [(f.graph.entry, 0)] := by
  intro id d hd
  rw [find?_cons] at hd
  split at hd
  · next heq =>
    obtain rfl := Option.some.inj hd
    obtain rfl : f.graph.entry = id := heq
    exact ⟨[], .entry, rfl⟩
  · simp [Depths.find?] at hd

theorem checkInlineDepth_eq_ok :
    f.checkInlineDepth = .ok () ↔
      ∃ ds, f.graph.order.foldlM f.checkBlockDepth [(f.graph.entry, 0)] = .ok ds := by
  unfold checkInlineDepth
  rw [bind_eq_ok]
  simp

theorem balanced_iff (hf : f.StatesAllowed) : f.checkInlineDepth = .ok () ↔ f.Balanced := by
  rw [checkInlineDepth_eq_ok]
  constructor
  · rintro ⟨ds, hcheck⟩
    exact (f.progress_start.run hf (List.nil_append _).symm hcheck).balanced
  · intro hb
    exact f.progress_start.run_ok hf hb f.counts_start (List.nil_append _).symm

/-! ## Records -/

theorem inlineDepth_fill {l : Layout} {r : Record} : (l.fill r).inlineDepth = r.inlineDepth := rfl

theorem inlineDepth_of_buildRecord {i : Instr} {nonce : Nat} {rec : Record}
    (h : f.buildRecord i nonce = .ok (.ok rec)) :
    ∃ fs, i.frameState = some fs ∧ rec.inlineDepth = fs.inlineDepth := by
  obtain ⟨fs, _, hfs, -, hframes, -⟩ := buildRecord_eq_ok h
  refine ⟨fs, hfs, ?_⟩
  unfold Record.inlineDepth FrameState.inlineDepth
  rw [← hframes.length_eq]
  simp [FrameState.frames, FrameState.chain]

theorem prefix_of_instr {s : Site} {i : Instr} (h : f.instr s = .ok i) :
    (f.body s.block).take s.index ++ [i] <+: f.body s.block := by
  obtain ⟨b, hb, hi⟩ := instr_eq_ok.1 h
  have hbody : (f.body s.block)[s.index]? = some i := by simpa [body, hb] using hi
  have htake : (f.body s.block).take s.index ++ [i] = (f.body s.block).take (s.index + 1) := by
    rw [List.take_add_one, hbody]
    rfl
  rw [htake]
  exact List.take_prefix _ _

/-- **Inline depth is checked along every path**, whatever the other checks say, if frame states are where
operations put them (`statesAllowed_of_built`). So in a checked function each record has as many callers as
calls are open at its site, on each path there, and there is one. -/
theorem inlineDepth_along_paths (hf : f.StatesAllowed) :
    (f.checkInlineDepth = .ok () ↔ f.Balanced) ∧
      (f.validate = .ok () → ∀ settings nonce u last, f.compile settings nonce = .ok (.ok u, last) →
        ∀ (k : Nat) rec, u.records[k]? = some rec → ∃ s : Site, u.sites[k]? = some s ∧
          (∃ done, f.graph.Path done s.block) ∧
          ∀ done, f.graph.Path done s.block →
            (rec.inlineDepth : Int) = openCalls (f.trace done ++ (f.body s.block).take s.index)) := by
  refine ⟨balanced_iff hf, fun hv settings nonce u last hu k rec hrec => ?_⟩
  obtain ⟨_, -, hdepth⟩ := bind_eq_ok.1 hv
  have hb := (balanced_iff hf).1 hdepth
  obtain ⟨s, hmem, hs, i, built, hi, hbuilt, rfl⟩ := site_of_compile hu hrec
  refine ⟨s, hs, Graph.path_of_mem_order (mem_deoptSites.1 hmem).1, fun done hpath => ?_⟩
  obtain ⟨fs, hfs, hcallers⟩ := inlineDepth_of_buildRecord hbuilt
  rw [inlineDepth_fill, hcallers]
  have hmet : f.trace done ++ (f.body s.block).take s.index ++ [i] <+:
      f.trace done ++ f.body s.block := by
    rw [List.append_assoc, List.prefix_append_right_inj]
    exact prefix_of_instr hi
  have hat := (hb.steady hpath).2 _ i hmet fs hfs
  rwa [Int.zero_add] at hat

end Function

/-! ## A call inlined in a loop

The second block begins a call, guards its operand inside it, ends it, and goes round again. -/

namespace Looping

def caller : CodeUnit := { id := ⟨1⟩, name := "f", locals := ["x"], stackSize := 2, length := 16 }

def callee : CodeUnit := { id := ⟨2⟩, name := "g", locals := ["y"], stackSize := 1, length := 8 }

def outside : Activation := { code := caller, offset := ⟨2⟩, locals := [some ⟨0⟩] }

def inside : Activation := { code := callee, offset := ⟨0⟩, locals := [some ⟨0⟩] }

def func : Function where
  name := "f"
  code := caller
  env := ⟨[.top]⟩
  graph := ⟨[
    some ⟨⟨0⟩, [
      { kind := .loadArg 0, operands := [], output := some ⟨0⟩, block := some ⟨0⟩ },
      { kind := .branch ⟨1⟩, operands := [], output := none, block := some ⟨0⟩ }]⟩,
    some ⟨⟨1⟩, [
      { kind := .beginInlinedFunction ⟨2⟩, operands := [], output := none, block := some ⟨1⟩,
        frameState := some ⟨outside, []⟩ },
      { kind := .guard, operands := [⟨0⟩], output := none, block := some ⟨1⟩,
        frameState := some ⟨inside, [outside]⟩, deopt := some { live := [⟨⟨0⟩, .owned, .object⟩] } },
      { kind := .endInlinedFunction, operands := [], output := none, block := some ⟨1⟩ },
      { kind := .condBranch ⟨1⟩ ⟨2⟩, operands := [⟨0⟩], output := none, block := some ⟨1⟩ }]⟩,
    some ⟨⟨2⟩, [{ kind := .ret, operands := [⟨0⟩], output := none, block := some ⟨2⟩ }]⟩], ⟨0⟩⟩

theorem order : func.graph.order = [⟨0⟩, ⟨1⟩, ⟨2⟩] := Graph.order_of_within 7 rfl

theorem statesAllowed : func.StatesAllowed := by
  unfold Function.StatesAllowed
  decide

theorem validate : func.validate = .ok () := Function.validate_of_order order rfl rfl

theorem compiled : ∃ u, func.compile {} 0 = .ok (.ok u, 1) ∧ u.sites = [⟨⟨1⟩, 1⟩] :=
  ⟨_, Function.compile_of_sites validate (Function.deoptSites_of_order order) rfl rfl, rfl⟩

end Looping

theorem inlineDepth_along_paths_loop :
    Looping.func.Balanced ∧ ∃ u rec, Looping.func.compile {} 0 = .ok (.ok u, 1) ∧
      u.records[0]? = some rec ∧ ∀ done, Looping.func.graph.Path done ⟨1⟩ →
        (rec.inlineDepth : Int) =
          openCalls (Looping.func.trace done ++ (Looping.func.body ⟨1⟩).take 1) := by
  have paths := Function.inlineDepth_along_paths Looping.statesAllowed
  obtain ⟨_, -, hdepth⟩ := bind_eq_ok.1 Looping.validate
  obtain ⟨u, hu, hsites⟩ := Looping.compiled
  obtain ⟨-, i, built, -, -, hrec, -⟩ := Function.record_of_compile hu (k := 0) (by rw [hsites]; rfl)
  obtain ⟨s, hs, -, hcount⟩ := paths.2 Looping.validate {} 0 u 1 hu 0 _ hrec
  obtain rfl : (⟨⟨1⟩, 1⟩ : Site) = s := by simpa [hsites] using hs
  exact ⟨paths.1.1 hdepth, u, _, hu, hrec, hcount⟩

end Bailout
