import Bailout.Proofs.Compile
import Bailout.Proofs.Graph.Unreachable

/-!
# Unreachable code and compilation

Compiling follows the order of the graph, with one exception: whether a register on an operand stack is
a method lookup is read off the instruction that defines it, and that one is looked for in every block.
So unreachable code shows in a unit exactly through the registers that it defines as method lookups, or
that it keeps from being ones: `Function.compile_trim`.
-/

namespace Bailout

/-- The registers on the operand stacks of the frames to rebuild. -/
def Instr.stackRegs (i : Instr) : List Reg :=
  ((i.frameState.map FrameState.frames).getD []).flatMap (·.stack)

theorem Instr.mem_stackRegs {i : Instr} {fs : FrameState} (hfs : i.frameState = some fs) {r : Reg} :
    r ∈ i.stackRegs ↔ ∃ a ∈ fs.frames, r ∈ a.stack := by
  simp [Instr.stackRegs, hfs]

namespace Function

variable {f : Function} {s : Site} {i : Instr} {r : Reg}

/-- The function without its unreachable blocks. -/
def trim (f : Function) : Function := { f with graph := f.graph.removeUnreachable.2 }

/-- The instructions of the blocks that the entry reaches. -/
def reached (f : Function) : List Instr :=
  (f.graph.toList.filter fun b => f.graph.order.contains b.id).flatMap (·.instrs)

/-- The instructions of the other blocks. -/
def unreached (f : Function) : List Instr := f.graph.unreachable.flatMap (·.instrs)

/-- The method lookup that defines a register in reachable code. -/
def reachedLookup? (f : Function) (r : Reg) : Option Instr :=
  (f.reached.reverse.find? fun i => i.output == some r).filter fun i => i.opcode = .loadMethod

/-- Unreachable code does not show where an instruction leaves compiled code. For each register on an
operand stack, all code and reachable code agree on whether it is a method lookup and, if the register
is live, on the receiver. -/
def SeesReached (f : Function) (i : Instr) : Prop :=
  ∀ r ∈ i.stackRegs, (f.lookup? r).isSome = (f.reachedLookup? r).isSome ∧
    ((i.live? r).isSome → ∀ d d', f.lookup? r = some d → f.reachedLookup? r = some d' →
      d.operands[0]? = d'.operands[0]?)

/-! ## What trimming keeps -/

theorem deoptSites_trim (hn : f.graph.Numbered) : f.trim.deoptSites = f.deoptSites := by
  unfold deoptSites
  rw [trim, Graph.order_removeUnreachable hn]
  refine List.flatMap_congr fun id hid => ?_
  simp only [blockSites, Graph.block?_removeUnreachable hn, if_pos hid]
  cases f.graph.block? id with
  | none => rfl
  | some b => simp [Block.pruned, List.zipIdx_map, List.filterMap_map]

theorem instr_trim (hn : f.graph.Numbered) (hs : s ∈ f.deoptSites) : f.trim.instr s = f.instr s := by
  obtain ⟨hid, b, i, hb, hi, hdeopt⟩ := mem_deoptSites.1 hs
  rw [instr_eq_ok.2 ⟨b, hb, hi⟩]
  refine instr_eq_ok.2 ⟨b.pruned f.graph.dead, ?_, ?_⟩
  · simp only [trim, Graph.block?_removeUnreachable hn, if_pos hid, hb, Option.map_some]
  · have hphi : i.opcode ≠ .phi := fun h => by simp [h, Opcode.hasDeoptData] at hdeopt
    simp [Block.pruned, hi, Instr.pruned_of_ne_phi _ _ hphi]

theorem instrs_trim (hn : f.graph.Numbered) :
    f.trim.instrs = (f.graph.toList.filter fun b => f.graph.order.contains b.id).flatMap
      fun b => b.instrs.map (Instr.pruned f.graph.dead b.id) := by
  unfold instrs trim
  rw [Graph.toList_removeUnreachable hn, List.flatMap_map]
  rfl

theorem wellFormed_trim (hn : f.graph.Numbered) (hf : f.WellFormed) : f.trim.WellFormed := by
  intro i hi
  rw [instrs_trim hn] at hi
  obtain ⟨b, hb, hi⟩ := List.mem_flatMap.1 hi
  obtain ⟨old, hold, rfl⟩ := List.mem_map.1 hi
  have hcount := hf old (List.mem_flatMap.2 ⟨b, (List.mem_filter.1 hb).1, hold⟩)
  unfold Instr.pruned
  split
  · split
    · simp [InstrKind.operandCount]
    · exact hcount
  · exact hcount

/-- Without the unreachable blocks, lookups are those of reachable code. -/
theorem lookup?_trim (hn : f.graph.Numbered) (r : Reg) : f.trim.lookup? r = f.reachedLookup? r := by
  unfold lookup? definition? reachedLookup? reached
  rw [instrs_trim hn]
  let pairs : List (BlockId × Instr) :=
    (f.graph.toList.filter fun b => f.graph.order.contains b.id).flatMap
      fun b => b.instrs.map fun i => (b.id, i)
  have hpruned : (f.graph.toList.filter fun b => f.graph.order.contains b.id).flatMap
      (fun b => b.instrs.map (Instr.pruned f.graph.dead b.id)) =
        pairs.map fun p => p.2.pruned f.graph.dead p.1 := by
    simp [pairs, List.map_flatMap, Function.comp_def]
  have hplain : (f.graph.toList.filter fun b => f.graph.order.contains b.id).flatMap (·.instrs) =
      pairs.map (·.2) := by
    simp [pairs, List.map_flatMap, Function.comp_def]
  rw [hpruned, hplain, ← List.map_reverse, ← List.map_reverse, List.find?_map, List.find?_map]
  simp only [Function.comp_def, Instr.output_pruned]
  cases pairs.reverse.find? fun p => p.2.output == some r with
  | none => rfl
  | some p =>
    by_cases hop : p.2.opcode = .loadMethod
    · simp [Option.filter_some, hop, Instr.pruned_of_ne_phi]
    · simp [Option.filter_some, hop, Instr.opcode_pruned]

/-! ## Records -/

theorem stackEntry_trim (hn : f.graph.Numbered) (hf : f.WellFormed) (hsees : f.SeesReached i)
    (hr : r ∈ i.stackRegs) (a : Activation) :
    f.trim.stackEntry (LiveReg.distinct i.live) a r = f.stackEntry (LiveReg.distinct i.live) a r := by
  obtain ⟨hsome, hreceiver⟩ := hsees r hr
  rw [stackEntry_eq, stackEntry_eq, lookup?_trim hn]
  cases hd : f.lookup? r with
  | none =>
    have hnone : f.reachedLookup? r = none := by simpa [hd] using hsome
    rw [hnone]
  | some d =>
    obtain ⟨d', hd'⟩ : ∃ d', f.reachedLookup? r = some d' := by
      rw [← Option.isSome_iff_exists, ← hsome, hd]
      rfl
    obtain ⟨self, hself, hget⟩ := operand_of_lookup? hf hd
    obtain ⟨self', hself', hget'⟩ := operand_of_lookup? (wellFormed_trim hn hf)
      ((lookup?_trim hn r).trans hd')
    simp only [hd', hself, hself', ok_bind, LiveReg.indexOf_distinct_eq_dead]
    cases hl : i.live? r with
    | none => rfl
    | some l =>
      have heq : self = self' := by
        have := hreceiver (by simp [hl]) d d' hd hd'
        simpa [hget, hget'] using this
      rw [heq]

theorem buildRecord_trim (hn : f.graph.Numbered) (hf : f.WellFormed) (hsees : f.SeesReached i)
    (nonce : Nat) : f.trim.buildRecord i nonce = f.buildRecord i nonce := by
  cases hfs : i.frameState with
  | none =>
    unfold buildRecord
    rw [hfs]
    rfl
  | some fs =>
    have hframes : fs.frames.mapM (f.trim.frameRecord (LiveReg.distinct i.live)) =
        fs.frames.mapM (f.frameRecord (LiveReg.distinct i.live)) := by
      refine mapM_congr fun a ha => ?_
      unfold frameRecord
      rw [mapM_congr fun r hr =>
        stackEntry_trim hn hf hsees ((Instr.mem_stackRegs hfs).2 ⟨a, ha, hr⟩) a]
    rw [buildRecord_eq nonce hfs, buildRecord_eq nonce hfs, hframes]
    rfl

theorem buildRecords_trim (hn : f.graph.Numbered) (hf : f.WellFormed)
    (hsees : ∀ i ∈ f.deoptInstrs, f.SeesReached i) {sites : List Site}
    (hsites : ∀ s ∈ sites, s ∈ f.deoptSites) (nonce : Nat) :
    f.trim.buildRecords sites nonce = f.buildRecords sites nonce := by
  induction sites generalizing nonce with
  | nil => rfl
  | cons s rest ih =>
    rw [List.forall_mem_cons] at hsites
    obtain ⟨i, hi⟩ := instr_of_mem_deoptSites hsites.1
    have hrec := buildRecord_trim hn hf (hsees i (mem_deoptInstrs.2 ⟨s, hsites.1, hi⟩)) nonce
    simp only [buildRecords, instr_trim hn hsites.1, hi, ok_bind, hrec, ih hsites.2]

theorem seesReached_of_frames (hn : f.graph.Numbered) {nonce : Nat} {built built' : Record}
    (hbuilt : f.buildRecord i nonce = .ok (.ok built))
    (hbuilt' : f.trim.buildRecord i nonce = .ok (.ok built')) (hframes : built.frames = built'.frames) :
    f.SeesReached i := by
  obtain ⟨fs, captured, hfs, -, hrecs, hlive, -⟩ := buildRecord_eq_ok hbuilt
  obtain ⟨fs', -, hfs', -, hrecs', -⟩ := buildRecord_eq_ok hbuilt'
  obtain rfl : fs = fs' := by simpa [hfs] using hfs'
  rw [← hframes] at hrecs'
  have hregs := map_liveReg_marked hlive
  intro r hr
  obtain ⟨a, ha, hra⟩ := (Instr.mem_stackRegs hfs).1 hr
  obtain ⟨fr, -, hfr, hfr'⟩ := forall₂_mem_both hrecs hrecs' ha
  obtain ⟨e, -, he, he'⟩ := forall₂_mem_both (frameRecord_eq_ok.1 hfr).2.2.1
    (frameRecord_eq_ok.1 hfr').2.2.1 hra
  have hentry := entryFor_of_stackEntry hregs he
  have hentry' := entryFor_of_stackEntry hregs he'
  rw [← lookup?_trim hn]
  cases e with
  | value index =>
    refine ⟨by rw [hentry.1, hentry'.1], fun _ d d' hd => ?_⟩
    rw [hentry.1] at hd
    cases hd
  | methodPair callable receiver =>
    obtain ⟨d, hd, hcase⟩ := hentry
    obtain ⟨d', hd', hcase'⟩ := hentry'
    refine ⟨by rw [hd, hd']; rfl, fun hsome e e' he he' => ?_⟩
    obtain rfl : d = e := by simpa [hd] using he
    obtain rfl : d' = e' := by simpa [hd'] using he'
    have hne := Option.isSome_iff_ne_none.1 hsome
    obtain ⟨-, self, l, -, hself, hl, -, hres⟩ := hcase.resolve_left fun h => hne h.1
    obtain ⟨-, self', l', -, hself', hl', -, hres'⟩ := hcase'.resolve_left fun h => hne h.1
    obtain rfl : l = l' := by simpa [hres] using hres'
    rw [hself, hself', ← (Instr.live?_eq_some hl).2, ← (Instr.live?_eq_some hl').2]

/-! ## Units -/

/-- Code that defines no register of the operand stacks does not show. -/
theorem seesReached_of_unreached (h : ∀ d ∈ f.unreached, ∀ r ∈ i.stackRegs, d.output ≠ some r) :
    f.SeesReached i := by
  intro r hr
  have hblocks : ∀ blocks : List Block, (∀ b ∈ blocks, b ∈ f.graph.toList) →
      ((blocks.filter fun b => f.graph.order.contains b.id).flatMap (·.instrs)).filter
        (fun d => d.output == some r) =
      (blocks.flatMap (·.instrs)).filter fun d => d.output == some r := by
    intro blocks hsub
    induction blocks with
    | nil => rfl
    | cons b rest ih =>
      rw [List.forall_mem_cons] at hsub
      by_cases hb : f.graph.order.contains b.id
      · rw [List.filter_cons, if_pos hb, List.flatMap_cons, List.flatMap_cons, List.filter_append,
          List.filter_append, ih hsub.2]
      · have hnone : b.instrs.filter (fun d => d.output == some r) = [] := by
          refine List.filter_eq_nil_iff.2 fun d hd => ?_
          have hmem : d ∈ f.unreached :=
            List.mem_flatMap.2 ⟨b, List.mem_filter.2 ⟨hsub.1, by simpa using hb⟩, hd⟩
          simpa using h d hmem r hr
        rw [List.filter_cons, if_neg hb, List.flatMap_cons, List.filter_append, hnone, ih hsub.2,
          List.nil_append]
  have hfind : f.reached.reverse.find? (fun d => d.output == some r) =
      f.instrs.reverse.find? fun d => d.output == some r := by
    rw [← List.head?_filter, ← List.head?_filter, List.filter_reverse, List.filter_reverse,
      reached, instrs, hblocks _ fun b hb => hb]
  have hlookup : f.reachedLookup? r = f.lookup? r := by
    unfold reachedLookup? lookup? definition?
    rw [hfind]
  rw [hlookup]
  refine ⟨rfl, fun _ d d' hd hd' => ?_⟩
  obtain rfl : d = d' := by simpa [hd] using hd'
  rfl

/-- **Unreachable code does not show** in a unit where it defines no register of an operand stack in its
own way. If the function compiles without its unreachable blocks, it compiles to the same unit with
them only then. -/
theorem compile_trim (hn : f.graph.Numbered) (hf : f.WellFormed) (hv : f.validate = .ok ())
    (hv' : f.trim.validate = .ok ()) (settings : Settings) (nonce : Nat) :
    ((∀ i ∈ f.deoptInstrs, f.SeesReached i) →
      f.compile settings nonce = f.trim.compile settings nonce) ∧
    ∀ u last, f.trim.compile settings nonce = .ok (.ok u, last) →
      f.compile settings nonce = f.trim.compile settings nonce →
      ∀ i ∈ f.deoptInstrs, f.SeesReached i := by
  constructor
  · intro hsees
    have hfinish : ∀ records, f.trim.finish settings records = f.finish settings records := by
      intro records
      unfold finish
      rw [deoptSites_trim hn]
      rfl
    unfold compile
    simp only [precheck_of_validate hv, precheck_of_validate hv', deoptSites_trim hn,
      buildRecords_trim hn hf hsees fun s hs => hs, hfinish]
  · intro u last htrim hsame i hi
    obtain ⟨s, hs, hi⟩ := mem_deoptInstrs.1 hi
    have hsites : u.sites = f.deoptSites := by
      obtain ⟨-, -, hsites, -⟩ := compile_eq_ok htrim
      rw [hsites, deoptSites_trim hn]
    obtain ⟨k, hk⟩ := List.mem_iff_getElem?.1 (hsites ▸ hs)
    obtain ⟨-, j, built, hj, hbuilt, hrecord, -⟩ := record_of_compile (hsame.trans htrim) hk
    obtain ⟨-, j', built', hj', hbuilt', hrecord', -⟩ := record_of_compile htrim hk
    rw [instr_trim hn hs] at hj'
    obtain rfl : i = j := by simpa [hi] using hj
    obtain rfl : i = j' := by simpa [hi] using hj'
    refine seesReached_of_frames hn hbuilt hbuilt' ?_
    have hfill : u.layout.fill built = u.layout.fill built' := by
      simpa [hrecord] using hrecord'
    show (u.layout.fill built).frames = (u.layout.fill built').frames
    rw [hfill]

end Function

/-! ## A block that nothing leads to

It feeds a phi of a reachable block, and defines a register as a method lookup. If that is the argument
of the function, which the guard has on its operand stack, the entry for it changes. -/

namespace Shadowing

def guard : Instr where
  kind := .guard
  operands := [⟨0⟩]
  output := none
  block := some ⟨2⟩
  frameState := some ⟨{ code := Blaming.code, offset := ⟨0⟩, locals := [some ⟨0⟩], stack := [⟨0⟩] }, []⟩
  deopt := some { live := [⟨⟨0⟩, .owned, .object⟩], guilty := some ⟨0⟩ }

def entry : Block := ⟨⟨0⟩, [
  { kind := .loadArg 0, operands := [], output := some ⟨0⟩, block := some ⟨0⟩ },
  { kind := .branch ⟨2⟩, operands := [], output := none, block := some ⟨0⟩ }]⟩

def detached (r : Reg) : Block := ⟨⟨1⟩, [
  { kind := .loadMethod "m", operands := [⟨0⟩], output := some r, block := some ⟨1⟩ },
  { kind := .branch ⟨2⟩, operands := [], output := none, block := some ⟨1⟩ }]⟩

def exit (inputs : List (BlockId × Reg)) : Block := ⟨⟨2⟩, [
  { kind := .phi (inputs.map (·.1)), operands := inputs.map (·.2), output := some ⟨2⟩,
    block := some ⟨2⟩ },
  guard,
  { kind := .ret, operands := [⟨2⟩], output := none, block := some ⟨2⟩ }]⟩

def func (r : Reg) : Function where
  name := "f"
  code := Blaming.code
  env := ⟨[.top, .top, .top]⟩
  graph := ⟨[some entry, some (detached r), some (exit [(⟨0⟩, ⟨0⟩), (⟨1⟩, ⟨0⟩)])], ⟨0⟩⟩

theorem order (r : Reg) : (func r).graph.order = [⟨0⟩, ⟨2⟩] := Graph.order_of_within 4 rfl

theorem numbered (r : Reg) : (func r).graph.Numbered := by
  rintro ⟨k⟩ b hb
  match k with
  | 0 | 1 | 2 => obtain rfl := Option.some.inj hb; rfl
  | k + 3 => simp [func, Graph.block?] at hb

theorem wellFormed (r : Reg) : (func r).WellFormed := by
  intro i hi
  obtain rfl | rfl | rfl | rfl | rfl | rfl | rfl :
      i = _ ∨ i = _ ∨ i = _ ∨ i = _ ∨ i = _ ∨ i = _ ∨ i = _ := by
    simpa [Function.instrs, Graph.toList, func, entry, detached, exit] using hi
  all_goals rfl

theorem trim_eq (r : Reg) : (func r).trim =
    { func r with graph := ⟨[some entry, none, some (exit [(⟨0⟩, ⟨0⟩)])], ⟨0⟩⟩ } := by
  simp only [Function.trim, Graph.removeUnreachable, Graph.unreachable, order]
  rfl

theorem validate (r : Reg) : (func r).validate = .ok () :=
  Function.validate_of_order (order r) rfl rfl

theorem order_trim (r : Reg) : (func r).trim.graph.order = [⟨0⟩, ⟨2⟩] :=
  (Graph.order_removeUnreachable (numbered r)).trans (order r)

theorem validate_trim (r : Reg) : (func r).trim.validate = .ok () :=
  Function.validate_of_order (order_trim r) (by rw [trim_eq]; rfl) (by rw [trim_eq]; rfl)

theorem deoptInstrs (r : Reg) : (func r).deoptInstrs = [guard] := by
  unfold Function.deoptInstrs
  rw [Function.deoptSites_of_order (order r)]
  rfl

theorem compile_without (r : Reg) : ∃ u, (func r).trim.compile {} 7 = .ok (.ok u, 8) := by
  have hsites : (func r).trim.deoptSites = [⟨⟨2⟩, 1⟩] := by
    rw [Function.deoptSites_of_order (order_trim r), trim_eq]
    rfl
  have hv := validate_trim r
  rw [trim_eq] at hsites hv ⊢
  exact ⟨_, Function.compile_of_sites hv hsites rfl rfl⟩

end Shadowing

theorem compile_trim_shadowing :
    (Shadowing.func ⟨1⟩).compile {} 7 = (Shadowing.func ⟨1⟩).trim.compile {} 7 ∧
      (Shadowing.func ⟨0⟩).compile {} 7 ≠ (Shadowing.func ⟨0⟩).trim.compile {} 7 := by
  have apart := Function.compile_trim (Shadowing.numbered ⟨1⟩) (Shadowing.wellFormed ⟨1⟩)
    (Shadowing.validate ⟨1⟩) (Shadowing.validate_trim ⟨1⟩) {} 7
  have shadowed := Function.compile_trim (Shadowing.numbered ⟨0⟩) (Shadowing.wellFormed ⟨0⟩)
    (Shadowing.validate ⟨0⟩) (Shadowing.validate_trim ⟨0⟩) {} 7
  rw [Shadowing.deoptInstrs] at apart shadowed
  constructor
  · refine apart.1 fun i hi => Function.seesReached_of_unreached ?_
    obtain rfl := List.mem_singleton.1 hi
    unfold Function.unreached Graph.unreachable
    rw [Shadowing.order]
    decide
  · intro hsame
    obtain ⟨u, hu⟩ := Shadowing.compile_without ⟨0⟩
    have hsees := shadowed.2 u 8 hu hsame _ List.mem_cons_self ⟨0⟩ (by decide)
    have hlookup := hsees.1
    unfold Function.reachedLookup? Function.reached at hlookup
    rw [Shadowing.order] at hlookup
    revert hlookup
    decide

end Bailout
