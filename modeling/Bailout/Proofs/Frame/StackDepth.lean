import Bailout.Proofs.Compile
import Bailout.Proofs.Frame.Shares
import Mathlib.Algebra.Order.Ring.Nat

/-!
# The depth of rebuilt stacks

A frame state has one register for a method lookup on its operand stack, and the interpreter has two slots
for it. The shape check counts registers. So a rebuilt stack is as deep as the checked one plus a slot
for each lookup on it, and it fits the size its code declares only where that sum does.
-/

namespace Bailout

theorem FrameRecord.stackDepth_eq_sum (fr : FrameRecord) :
    fr.stackDepth = (fr.stack.map StackEntry.slots).sum := by
  unfold FrameRecord.stackDepth
  rw [List.sum_eq_foldr, List.foldr_map]

namespace Function

variable {f : Function} {settings : Settings} {nonce last : Nat} {u : CompiledUnit}

/-- How many registers of an operand stack are method lookups. -/
def lookups (f : Function) (stack : List Reg) : Nat := stack.countP fun r => (f.lookup? r).isSome

theorem slots_of_stackEntry {live : List LiveReg} {a : Activation} {r : Reg} {e : StackEntry}
    (h : f.stackEntry live a r = .ok e) : e.slots = if (f.lookup? r).isSome then 2 else 1 := by
  rw [stackEntry_eq] at h
  split at h
  · next hnone =>
    obtain rfl := Except.ok.inj h
    simp [hnone, StackEntry.slots]
  · next d hd =>
    obtain ⟨receiver, -, h⟩ := bind_eq_ok.1 h
    rw [hd]
    split at h
    · obtain rfl := Except.ok.inj h
      rfl
    · split at h
      · simp at h
      · obtain rfl := Except.ok.inj h
        rfl

theorem sum_slots {live : List LiveReg} {a : Activation} {stack : List Reg} {entries : List StackEntry}
    (h : List.Forall₂ (fun r e => f.stackEntry live a r = .ok e) stack entries) :
    (entries.map StackEntry.slots).sum = stack.length + f.lookups stack := by
  unfold lookups
  induction h with
  | nil => rfl
  | @cons r e stack entries hentry _ ih =>
    rw [List.map_cons, List.sum_cons, slots_of_stackEntry hentry, ih, List.length_cons, List.countP_cons]
    split
    · omega
    · omega

theorem stackDepth_of_frameRecord {live : List LiveReg} {a : Activation} {fr : FrameRecord}
    (h : f.frameRecord live a = .ok fr) : fr.stackDepth = a.stack.length + f.lookups a.stack := by
  obtain ⟨-, -, hstack, -⟩ := frameRecord_eq_ok.1 h
  rw [fr.stackDepth_eq_sum, sum_slots hstack]

end Function

/-! ## Rebuilding -/

namespace Record

variable {r : Record} {snap : Snapshot} {d d' : Decoder}

theorem length_fillEntry {e : StackEntry} {slots : List (Option Handle)}
    (h : r.fillEntry snap d e = .ok (slots, d')) : slots.length = e.slots := by
  cases e with
  | value index =>
    obtain ⟨⟨value, d₁⟩, -, h⟩ := bind_eq_ok.1 h
    obtain ⟨rfl, -⟩ : [value] = slots ∧ d₁ = d' := by simpa using h
    rfl
  | methodPair callable receiver =>
    simp only [fillEntry] at h
    split at h
    · obtain ⟨rfl, -⟩ : [none, none] = slots ∧ d = d' := by simpa using h
      rfl
    · obtain ⟨⟨func, d₁⟩, -, h⟩ := bind_eq_ok.1 h
      dsimp only at h
      split at h
      · cases h
      · obtain ⟨plain, -, h⟩ := bind_eq_ok.1 h
        split at h
        · obtain ⟨⟨function, d₂⟩, -, h⟩ := bind_eq_ok.1 h
          obtain ⟨⟨self, d₃⟩, -, h⟩ := bind_eq_ok.1 h
          obtain ⟨rfl, -⟩ : [function, self] = slots ∧ d₃ = d' := by simpa using h
          rfl
        · obtain ⟨⟨bound, d₂⟩, -, h⟩ := bind_eq_ok.1 h
          obtain ⟨rfl, -⟩ : [none, bound] = slots ∧ d₂ = d' := by simpa using h
          rfl

theorem length_fillStack {entries : List StackEntry} {stack stack' : List (Option Handle)}
    (h : r.fillStack snap d stack entries = .ok (stack', d')) :
    stack'.length = stack.length + (entries.map StackEntry.slots).sum := by
  induction entries generalizing d stack with
  | nil =>
    obtain ⟨rfl, -⟩ : stack = stack' ∧ d = d' := by simpa [fillStack] using h
    simp
  | cons e entries ih =>
    obtain ⟨⟨slots, d₁⟩, hentry, h⟩ := bind_eq_ok.1 h
    rw [ih h, List.length_append, length_fillEntry hentry, List.map_cons, List.sum_cons]
    omega

theorem length_stack_materializeFrame {heap heap' : Heap} {fr : FrameRecord} {innermost : Bool}
    {target frame : Frame} (h : r.materializeFrame snap heap fr innermost target = .ok (frame, heap')) :
    frame.stack.length = fr.stackDepth := by
  obtain ⟨-, -, slots, stack, next, d₁, d₂, now, -, hstack, -, -, -, rfl⟩ := materializeFrame_eq_ok.1 h
  rw [fr.stackDepth_eq_sum]
  show stack.length = _
  rw [length_fillStack hstack, List.map_reverse, List.sum_reverse]
  exact Nat.zero_add _

end Record

namespace Function

variable {f : Function} {settings : Settings} {nonce last : Nat} {u : CompiledUnit}

/-- How a frame of a record stands to the activation it was built from: the registers on the stack fit the
code, the stack takes a slot more for each lookup, and rebuilding fills exactly that many. -/
structure StackOf (f : Function) (rec : Record) (a : Activation) (fr : FrameRecord) : Prop where
  code : fr.code = a.code
  declared : a.stack.length ≤ fr.code.stackSize
  depth : fr.stackDepth = a.stack.length + f.lookups a.stack
  rebuilt : ∀ {snap heap innermost target frame heap'},
    rec.materializeFrame snap heap fr innermost target = .ok (frame, heap') →
      frame.stack.length = fr.stackDepth

/-- A rebuilt stack fits exactly if there is room for the second slots of the lookups. -/
theorem StackOf.fits_iff {rec : Record} {a : Activation} {fr : FrameRecord} (h : f.StackOf rec a fr) :
    fr.stackDepth ≤ fr.code.stackSize ↔ a.stack.length + f.lookups a.stack ≤ a.code.stackSize := by
  rw [h.depth, h.code]

/-- **Rebuilt stacks** of checked code: each is the stack of its activation, whose registers fit the code,
with a second slot for each lookup. They all fit exactly if there is room for the second slots too. -/
theorem stackDepth_of_compile (hv : f.validate = .ok ())
    (hu : f.compile settings nonce = .ok (.ok u, last)) {k : Nat} {rec : Record}
    (hrec : u.records[k]? = some rec) :
    ∃ s i fs, u.sites[k]? = some s ∧ f.instr s = .ok i ∧ i.frameState = some fs ∧
      List.Forall₂ (f.StackOf rec) fs.frames rec.frames ∧
      ((∀ fr ∈ rec.frames, fr.stackDepth ≤ fr.code.stackSize) ↔
        ∀ a ∈ fs.frames, a.stack.length + f.lookups a.stack ≤ a.code.stackSize) := by
  obtain ⟨s, hmem, hs, i, built, hi, hbuilt, rfl⟩ := site_of_compile hu hrec
  obtain ⟨fs, hfs, hshape⟩ := shape_of_validate hv hmem hi
  obtain ⟨fs', captured, hfs', -, hframes, -⟩ := buildRecord_eq_ok hbuilt
  obtain rfl : fs = fs' := by simpa [hfs] using hfs'
  have hstacks : List.Forall₂ (f.StackOf (u.layout.fill built)) fs.frames built.frames := by
    refine ((List.forall₂_and_left _ _).2 ⟨hshape, hframes⟩).imp ?_
    rintro a fr ⟨hshape, hfr⟩
    have hcode : fr.code = a.code := (frameRecord_eq_ok.1 hfr).1
    exact {
      code := hcode
      declared := hcode ▸ Activation.stack_length hshape
      depth := stackDepth_of_frameRecord hfr
      rebuilt := Record.length_stack_materializeFrame }
  refine ⟨s, i, fs, hs, hi, hfs, hstacks, ?_, ?_⟩
  · intro hfit a ha
    obtain ⟨fr, hfr, hof⟩ := forall₂_mem_left hstacks ha
    exact hof.fits_iff.1 (hfit fr hfr)
  · intro hroom fr hfr
    obtain ⟨a, ha, hof⟩ := forall₂_mem_right hstacks hfr
    exact hof.fits_iff.2 (hroom a ha)

end Function

/-! ## A lookup on a full stack

The code declares one slot, and the guard leaves a method lookup on the stack. -/

namespace Overflowing

def code : CodeUnit := { id := ⟨1⟩, name := "f", locals := ["x"], stackSize := 1, length := 16 }

def full : Activation := { code, offset := ⟨4⟩, locals := [some ⟨0⟩], stack := [⟨1⟩] }

def func : Function where
  name := "f"
  code
  env := ⟨[.top, .top]⟩
  graph := ⟨[some ⟨⟨0⟩, [
    { kind := .loadArg 0, operands := [], output := some ⟨0⟩, block := some ⟨0⟩ },
    { kind := .loadMethod "m", operands := [⟨0⟩], output := some ⟨1⟩, block := some ⟨0⟩,
      frameState := some ⟨{ code, offset := ⟨2⟩, locals := [some ⟨0⟩] }, []⟩,
      deopt := some { live := [⟨⟨0⟩, .owned, .object⟩] } },
    { kind := .guard, operands := [⟨0⟩], output := none, block := some ⟨0⟩,
      frameState := some ⟨full, []⟩,
      deopt := some { live := [⟨⟨0⟩, .owned, .object⟩, ⟨⟨1⟩, .owned, .object⟩] } },
    { kind := .ret, operands := [⟨0⟩], output := none, block := some ⟨0⟩ }]⟩], ⟨0⟩⟩

theorem order : func.graph.order = [⟨0⟩] := Graph.order_of_leaf rfl

theorem validate : func.validate = .ok () := Function.validate_of_order order rfl rfl

/-- The frame of the guard. -/
def frame : FrameRecord :=
  { code, slots := [0], stack := [.methodPair 1 0], handlers := [], cause := ⟨4⟩ }

/-- Besides the singletons, a plain function and an instance. -/
def heap : Heap := ((Heap.initial.alloc (.function "m" none)).2.alloc (.inst ⟨7⟩ [])).2

theorem compiled : ∃ u rec, func.compile {} 0 = .ok (.ok u, 2) ∧ u.records[1]? = some rec ∧
    u.sites[1]? = some ⟨⟨0⟩, 2⟩ ∧ rec.frames = [frame] ∧
    ∃ rebuilt heap', rec.materializeFrame { regs := [40, 32] } heap frame true { code } =
      .ok (rebuilt, heap') :=
  ⟨_, _, Function.compile_of_sites validate (Function.deoptSites_of_order order) rfl rfl, rfl, rfl, rfl,
    _, _, rfl⟩

end Overflowing

theorem stackDepth_of_compile_overflowing :
    ∃ u rec, Overflowing.func.compile {} 0 = .ok (.ok u, 2) ∧ u.records[1]? = some rec ∧
      Overflowing.func.StackOf rec Overflowing.full Overflowing.frame ∧
      ∃ rebuilt heap', rec.materializeFrame { regs := [40, 32] } Overflowing.heap Overflowing.frame true
          { code := Overflowing.code } = .ok (rebuilt, heap') ∧
        Overflowing.code.stackSize < rebuilt.stack.length := by
  obtain ⟨u, rec, hu, hrec, hsite, hframes, rebuilt, heap', hrebuilt⟩ := Overflowing.compiled
  obtain ⟨s, i, fs, hs, hi, hfs, hstacks, -⟩ :=
    Function.stackDepth_of_compile Overflowing.validate hu hrec
  obtain rfl : ⟨⟨0⟩, 2⟩ = s := by simpa [hsite] using hs
  obtain rfl := Except.ok.inj hi
  obtain rfl := Option.some.inj hfs
  rw [hframes] at hstacks
  have hof := (List.forall₂_cons.1 hstacks).1
  refine ⟨u, rec, hu, hrec, hof, rebuilt, heap', hrebuilt, ?_⟩
  rw [hof.rebuilt hrebuilt]
  decide

end Bailout
