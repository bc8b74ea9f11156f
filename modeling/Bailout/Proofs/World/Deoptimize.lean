import Bailout.Proofs.Compile
import Bailout.Proofs.Frame.Rebuild
import Bailout.Proofs.World.Shares

/-!
# Leaving compiled code

`Handover` is what must hold of the registers and the heap where compiled code is left. Then leaving
succeeds, and the interpreter gets one frame for each activation of the frame state, each as its
activation says: `Function.deoptimize_rebuilds`.
-/

namespace Bailout

/-- The reference that compiled code owns through a live register. -/
def LiveReg.owned? (σ : Reg → Word) (l : LiveReg) : Option Handle :=
  if l.refKind = .owned ∧ l.valueKind = .object then l.fixed? σ else none

/-- The references that compiled code owns where an instruction leaves it, one for each owned register
that is not null. -/
def Instr.owned (i : Instr) (σ : Reg → Word) : List Handle :=
  (LiveReg.distinct i.live).filterMap (LiveReg.owned? σ)

/-- The word of every live register is in its location. -/
def Snapshot.Holds (snap : Snapshot) (layout : Layout) (i : Instr) (σ : Reg → Word) : Prop :=
  ∀ r loc, (i.live? r).isSome → layout.location? r = some loc → snap.read loc = .ok (σ r)

/-- What registers and heap must satisfy where compiled code is left. -/
structure Handover (f : Function) (i : Instr) (fs : FrameState) (σ : Reg → Word) (heap : Heap) :
    Prop where
  sound : heap.Sound
  bools : heap.HasBools
  /-- A reference is null or names a live object. -/
  objects : ∀ r l, i.live? r = some l → l.valueKind = .object →
    ∃ o, Handle.ofWord (σ r) = .ok o ∧ ∀ h, o = some h → heap.isLive h
  /-- A live method lookup on an operand stack has a result. -/
  lookups : ∀ a ∈ fs.frames, ∀ r ∈ a.stack, f.HasResult i σ r
  room : f.RoomFor i σ heap fs.frames
  resume : ∀ pre a post, fs.frames = pre ++ a :: post →
    ∃ next, (Reason.ofOpcode i.opcode).resumeOffset post.isEmpty a.offset = .ok next

/-- There is one frame for each activation of a frame state, outermost first, each as its activation
says. `old` is the heap before the frames were rebuilt and compiled code gave up what it owned, `new` the
heap after. -/
structure FrameState.RebuiltAs (f : Function) (i : Instr) (σ : Reg → Word) (old new : Heap)
    (fs : FrameState) (frames : List Frame) : Prop where
  length : frames.length = fs.frames.length
  rebuilt : ∀ pre a post, fs.frames = pre ++ a :: post → ∃ frame, frames[pre.length]? = some frame ∧
    a.RebuiltAs f i σ old new post.isEmpty frame
  /-- What the frames hold is live. -/
  live : ∀ frame ∈ frames, ∀ h ∈ frame.refs, new.isLive h
  /-- Objects that are still there have not changed. -/
  unchanged : ∀ h object, old.get? h = some object → new.isLive h → new.get? h = some object
  /-- The frames have taken their shares, and those of compiled code are given back. -/
  shares : ∀ h, new.external h =
    old.external h + (frames.flatMap Frame.refs).count h - (i.owned σ).count h

/-- The interpreter has taken over: the rebuilt frames are on its chain, above what was there. -/
structure HandedOver (f : Function) (i : Instr) (fs : FrameState) (σ : Reg → Word) (w w' : World)
    (ids : List FrameId) (frames : List Frame) : Prop where
  kept : w.chain.entries <+: w'.chain.entries
  pushed : List.Forall₂ (fun id frame => ∃ back, w'.chain.entries[id.index]? = some ⟨frame, true, back⟩)
    ids frames
  frames : fs.RebuiltAs f i σ w.heap w'.heap frames

/-- A record says what an instruction and its frame state say, whatever the locations. -/
structure Record.Describes (f : Function) (i : Instr) (fs : FrameState) (r : Record) : Prop where
  /-- After the live registers at most the blamed one, which is not owned. -/
  live : ∃ captured, r.live.map LiveValue.liveReg = LiveReg.distinct i.live ++ captured ∧
    ∀ l ∈ captured, l.refKind ≠ .owned
  distinct : (r.live.map LiveValue.liveReg).Nodup
  frames : List.Forall₂ (FrameRecord.Mirrors f i r) fs.frames r.frames
  reason : r.reason = .ofOpcode i.opcode

section

variable {f : Function} {i : Instr} {fs : FrameState} {σ : Reg → Word} {heap : Heap} {r : Record}
  {snap : Snapshot}

theorem Function.describes_fill {nonce : Nat} {built : Record}
    (h : f.buildRecord i nonce = .ok (.ok built)) (hfs : i.frameState = some fs) (layout : Layout) :
    (layout.fill built).Describes f i fs := by
  obtain ⟨fs', captured, hfs', hc, hframes, hlive, hreason, -⟩ := buildRecord_eq_ok h
  obtain rfl : fs = fs' := by simpa [hfs] using hfs'
  have hl : (layout.fill built).live.map LiveValue.liveReg = LiveReg.distinct i.live ++ captured := by
    have hfill : (layout.fill built).live.map LiveValue.liveReg = built.live.map LiveValue.liveReg := by
      simp [Layout.fill, LiveValue.liveReg, Function.comp_def]
    rw [hfill, map_liveReg_marked hlive]
  refine ⟨⟨captured, hl, (capture_eq_ok hc).2⟩, ?_, ?_, hreason⟩
  · rw [hl]
    exact (nodup_distinct_capture hc).of_map _
  · exact hframes.imp fun a fr hfr => mirrors_of_frameRecord hl hfr

theorem Handover.scene (ho : Handover f i fs σ heap) (hd : r.Describes f i fs)
    (hread : r.Reads snap σ (LiveReg.distinct i.live)) :
    Scene r snap σ (LiveReg.distinct i.live) heap where
  distinct := hd.distinct
  bools := ho.bools
  read := hread
  objects l hl hk := ho.objects l.reg l ((LiveReg.firstsOf_distinct i.live).first l hl) hk

/-! ## What compiled code owns -/

theorem Handover.releaseValue_eq (ho : Handover f i fs σ heap) (hd : r.Describes f i fs)
    (hread : r.Reads snap σ (LiveReg.distinct i.live))
    {v : LiveValue} (hv : v ∈ r.live) (now : Heap) :
    r.releaseValue snap now v = now.releaseAll (v.liveReg.owned? σ).toList := by
  unfold Record.releaseValue
  by_cases howned : v.refKind = .owned ∧ v.valueKind = .object
  · obtain ⟨captured, hlive, hnot⟩ := hd.live
    have hmem : v.liveReg ∈ LiveReg.distinct i.live := by
      have hall : v.liveReg ∈ LiveReg.distinct i.live ++ captured := hlive ▸ List.mem_map_of_mem hv
      exact (List.mem_append.1 hall).resolve_right fun h => hnot _ h howned.1
    obtain ⟨o, hword, -⟩ := (ho.scene hd hread).objects v.liveReg hmem howned.2
    have hword : Handle.ofWord (σ v.reg) = .ok o := hword
    have hfixed : v.liveReg.fixed? σ = o := by
      simp [LiveReg.fixed?, LiveValue.liveReg, howned.2, ValueKind.fixed?, hword]
    have href : v.liveReg.owned? σ = o := (if_pos howned).trans hfixed
    rw [if_pos howned, href, hread v hv hmem, ok_bind, hword, ok_bind, Heap.xdecref_eq]
  · have hnone : v.liveReg.owned? σ = none := if_neg howned
    rw [if_neg howned, hnone]
    simp [Heap.releaseAll]

/-- Releasing what compiled code owned at a record is releasing what its instruction owns. -/
theorem Handover.releaseNative_eq (ho : Handover f i fs σ heap) (hd : r.Describes f i fs)
    (hread : r.Reads snap σ (LiveReg.distinct i.live))
    (now : Heap) : r.releaseNative snap now = now.releaseAll (i.owned σ) := by
  unfold Record.releaseNative
  rw [Heap.foldlM_release (fun v => (v.liveReg.owned? σ).toList)
    fun v hv now => ho.releaseValue_eq hd hread hv now]
  congr 1
  obtain ⟨captured, hlive, hnot⟩ := hd.live
  have hnone : captured.filterMap (LiveReg.owned? σ) = [] :=
    List.filterMap_eq_nil_iff.2 fun l hl => if_neg fun h => hnot l hl h.1
  have hmap : r.live.flatMap (fun v => (v.liveReg.owned? σ).toList) =
      (r.live.map LiveValue.liveReg).filterMap (LiveReg.owned? σ) := by
    rw [List.filterMap_eq_flatMap_toList, List.flatMap_map]
  rw [hmap, hlive, List.filterMap_append, hnone, List.append_nil, Instr.owned]

/-! ## Leaving -/

theorem Chain.pushAll_entries (c : Chain) (caller : Option FrameId) (frames : List Frame) :
    c.entries <+: (c.pushAll caller frames).2.entries ∧
      List.Forall₂ (fun id frame => ∃ back,
          (c.pushAll caller frames).2.entries[id.index]? = some ⟨frame, true, back⟩)
        (c.pushAll caller frames).1 frames := by
  induction frames generalizing c caller with
  | nil => exact ⟨List.prefix_refl _, .nil⟩
  | cons frame rest ih =>
    have hnew : (c.pushWithBack frame true caller).2.entries[c.entries.length]? =
        some ⟨frame, true, caller⟩ := by
      simp [Chain.pushWithBack]
    obtain ⟨hkept, hrest⟩ := ih (c.pushWithBack frame true caller).2 (some ⟨c.entries.length⟩)
    refine ⟨(List.prefix_append _ _).trans hkept, .cons ⟨caller, ?_⟩ hrest⟩
    obtain ⟨above, habove⟩ := hkept
    change ((c.pushWithBack frame true caller).2.pushAll _ rest).2.entries[c.entries.length]? = _
    rw [← habove, List.getElem?_append_left (List.getElem?_eq_some_iff.1 hnew).1, hnew]

variable {w : World} {id : DeoptId}

theorem modifyHead_gen_none (frs : List FrameRecord) :
    (frs.map fun fr => ({ code := fr.code } : Frame)).modifyHead (fun f => { f with gen := none }) =
      frs.map fun fr => { code := fr.code } := by
  cases frs <;> rfl

/-- Rebuilding the frames and then releasing what compiled code owned succeeds. -/
theorem Handover.rebuild (ho : Handover f i fs σ heap)
    (howned : ∀ h, ((i.owned σ).count h : Int) ≤ heap.external h) (hd : r.Describes f i fs)
    (hread : r.Reads snap σ (LiveReg.distinct i.live))
    (hshape : ∀ a ∈ fs.frames, a.slots.length = a.code.slots) :
    ∃ frames now last, r.materialize snap heap (r.frames.map fun fr => { code := fr.code }) =
        .ok (frames, now, r.frames.length) ∧
      r.releaseNative snap now = .ok last ∧ fs.RebuiltAs f i σ heap last frames := by
  have sc := ho.scene hd hread
  obtain ⟨frames, now, hall, -, g, hlen, hrebuilt⟩ :=
    sc.materializeAll ho.sound hd.reason hd.frames hshape ho.lookups ho.room ho.resume
  have hmaterialize : r.materialize snap heap (r.frames.map fun fr => { code := fr.code }) =
      .ok (frames, now, r.frames.length) := by
    rw [Record.materialize, ← List.map_prod_left_eq_zip, hall]
    simp
  have hnow : ∀ h, now.external h = heap.external h + (frames.flatMap Frame.refs).count h := by
    intro h
    have hnone : (r.frames.map fun fr => ({ code := fr.code } : Frame)).flatMap Frame.refs = [] := by
      rw [List.flatMap_eq_nil_iff]
      intro target ht
      obtain ⟨fr, -, rfl⟩ := List.mem_map.1 ht
      simp [Frame.refs]
    rw [(Record.external_materialize ho.sound hmaterialize).2, hnone]
    simp
  obtain ⟨last, hlast⟩ : ∃ last, now.releaseAll (i.owned σ) = .ok last := by
    refine Heap.releaseAll_ok fun h => ?_
    have := howned h
    rw [hnow]
    omega
  have hshares : ∀ h, last.external h =
      heap.external h + (frames.flatMap Frame.refs).count h - (i.owned σ).count h := fun h => by
    rw [Heap.external_releaseAll hlast, hnow]
  have hlive : ∀ frame ∈ frames, ∀ h ∈ frame.refs, last.isLive h := by
    intro frame hframe h hh
    have hpos : 0 < (frames.flatMap Frame.refs).count h :=
      List.count_pos_iff.2 (List.mem_flatMap.2 ⟨frame, hframe, hh⟩)
    have hx : 0 < last.external h := by
      have := howned h
      rw [hshares]
      omega
    obtain ⟨c, hc, -⟩ := Heap.live_of_external hx
    exact Heap.isLive_iff.2 ⟨c, hc⟩
  refine ⟨frames, now, last, hmaterialize, (ho.releaseNative_eq hd hread now).trans hlast, hlen, ?_,
    hlive, fun h object hget => Heap.get?_of_releaseAll hlast (g.get? hget), hshares⟩
  intro pre a post hsplit
  obtain ⟨frame, hget, hframe⟩ := hrebuilt pre a post hsplit
  refine ⟨frame, hget, hframe.mono sc (.refl heap) fun h hh object ho => ?_⟩
  exact Heap.get?_of_releaseAll hlast ho (hlive frame (List.mem_iff_getElem?.2 ⟨_, hget⟩) h hh)

theorem Handover.deoptimize (ho : Handover f i fs σ w.heap)
    (howned : ∀ h, ((i.owned σ).count h : Int) ≤ w.heap.external h) (hd : r.Describes f i fs)
    (hread : r.Reads snap σ (LiveReg.distinct i.live))
    (hshape : ∀ a ∈ fs.frames, a.slots.length = a.code.slots)
    (hrec : w.engine.record? id = some r) :
    ∃ ids w' frames, w.deoptimize id snap = .ok (.ok ids, w') ∧
      HandedOver f i fs σ w w' ids frames := by
  obtain ⟨frames, now, last, hmaterialize, hrelease, hrebuilt⟩ := ho.rebuild howned hd hread hshape
  have hne : r.frames ≠ [] := by
    intro h
    have hlength := hd.frames.length_eq
    simp [h, FrameState.frames, FrameState.chain] at hlength
  obtain ⟨engine, hengine⟩ := Engine.recordDeopt_ok hne w.engine r.frames.length
  obtain ⟨hkept, hpushed⟩ := w.chain.pushAll_entries w.chain.nearestLinked? frames
  refine ⟨_, ⟨engine, last, (w.chain.pushAll w.chain.nearestLinked? frames).2⟩, frames, ?_, hkept,
    hpushed, hrebuilt⟩
  simp only [World.deoptimize, World.deoptimizeInto, Engine.record, hrec, modifyHead_gen_none,
    hmaterialize, ok_bind, hrelease, hengine]
  rfl

theorem readValue_fill {layout : Layout} {built : Record}
    (hlocated : ∀ v ∈ built.live, (layout.location? v.reg).isSome)
    (hsnap : snap.Holds layout i σ) : (layout.fill built).Reads snap σ (LiveReg.distinct i.live) := by
  intro v hv hlive
  obtain ⟨v₀, hv₀, rfl⟩ := List.mem_map.1 hv
  obtain ⟨loc, hloc⟩ := Option.isSome_iff_exists.1 (hlocated v₀ hv₀)
  have hsome : i.live? v₀.reg = some _ := (LiveReg.firstsOf_distinct i.live).first _ hlive
  simp only [Record.readValue, hloc]
  exact hsnap v₀.reg loc (by simp [hsome]) hloc

/-- **Leaving compiled code rebuilds the interpreter's frames**, at a site of a unit compiled from
checked code, with every live register in its location, if references are null or live, lookups have
results, counts and offsets have room, and the heap has a share for each owned reference. -/
theorem Function.deoptimize_rebuilds {settings : Settings} {nonce last : Nat} {u : CompiledUnit}
    (hv : f.validate = .ok ()) (hc : f.compile settings nonce = .ok (.ok u, last)) {k : Nat} {s : Site}
    (hs : u.sites[k]? = some s) (hi : f.instr s = .ok i) (hfs : i.frameState = some fs)
    (hrec : w.engine.record? id = u.records[k]?)
    (hsnap : snap.Holds u.layout i σ) (ho : Handover f i fs σ w.heap)
    (howned : ∀ h, ((i.owned σ).count h : Int) ≤ w.heap.external h) :
    ∃ ids w' frames, w.deoptimize id snap = .ok (.ok ids, w') ∧
      HandedOver f i fs σ w w' ids frames := by
  obtain ⟨hsite, i', built, hi', hbuilt, hk, hlocated⟩ := record_of_compile hc hs
  obtain rfl : i' = i := by simpa [hi] using hi'.symm
  obtain ⟨fs', hfs', hshape⟩ := frameState_of_validate hv hsite hi
  obtain rfl : fs' = fs := by simpa [hfs] using hfs'.symm
  exact ho.deoptimize howned (describes_fill hbuilt hfs u.layout) (readValue_fill hlocated hsnap) hshape
    (hrec.trans hk)

end

/-! ## Leaving inside an inlined call

The caller has a plain function and its receiver on its stack; the callee holds a boxed number twice. -/

namespace Inlined

theorem order : func.graph.order = [⟨0⟩] := Graph.order_of_leaf rfl

theorem validate : func.validate = .ok () := Function.validate_of_order order rfl rfl

theorem deoptSites : func.deoptSites = [⟨⟨0⟩, 1⟩, ⟨⟨0⟩, 5⟩] := Function.deoptSites_of_order order

def layout : Layout :=
  { locations := [(⟨0⟩, .reg 0), (⟨1⟩, .reg 1), (⟨3⟩, .reg 2), (⟨2⟩, .reg 3)] }

def records : List Record :=
  [lookup, check].zipIdx.filterMap fun p => (func.buildRecord p.1 p.2).toOption.bind (·.toOption)

def unit : CompiledUnit where
  name := "outer"
  code := outer
  records := records.map layout.fill
  sites := [⟨⟨0⟩, 1⟩, ⟨⟨0⟩, 5⟩]
  layout

theorem compile : func.compile {} 0 = .ok (.ok unit, 2) :=
  Function.compile_of_sites validate deoptSites rfl rfl

/-- Besides the singletons, a plain function and an instance with one share each. -/
def heap : Heap := ((Heap.initial.alloc (.function "m" none)).2.alloc (.inst ⟨7⟩ [])).2

def word (r : Reg) : Word := if r = ⟨0⟩ then 40 else if r = ⟨1⟩ then 32 else 7

def snap : Snapshot := { regs := [40, 32, 7] }

def world : World where
  engine := { registry := { value := { table := unit.records.map some } } }
  heap

theorem sound : heap.Sound := (Heap.sound_initial.allocCell _).allocCell _

theorem split_frames {pre post : List Activation} {a : Activation}
    (h : state.frames = pre ++ a :: post) :
    (pre = [] ∧ a = caller ∧ post = [state.frame]) ∨ (pre = [caller] ∧ a = state.frame ∧ post = []) := by
  have h : [caller, state.frame] = pre ++ a :: post := h
  rcases pre with _ | ⟨x, _ | ⟨y, pre⟩⟩
  · simp_all
  · simp_all
  · simp at h

theorem handover : Handover func check state word heap where
  sound := sound
  bools b := by cases b <;> exact ⟨1, rfl⟩
  objects r l hl hk := by
    obtain ⟨hmem, rfl⟩ := Instr.live?_eq_some hl
    obtain rfl | rfl | rfl | rfl : l = _ ∨ l = _ ∨ l = _ ∨ l = _ := by
      simpa [check, Instr.live] using hmem
    · exact ⟨some ⟨4⟩, rfl, by rintro _ ⟨⟩; rfl⟩
    · exact ⟨some ⟨3⟩, rfl, by rintro _ ⟨⟩; rfl⟩
    · exact ⟨some ⟨4⟩, rfl, by rintro _ ⟨⟩; rfl⟩
    · cases hk
  lookups _ _ r _ _ _ _ _ := by
    unfold word
    split
    · decide
    · split <;> decide
  room pre a post hsplit := by
    obtain ⟨rfl, rfl, rfl⟩ | ⟨rfl, rfl, rfl⟩ := split_frames hsplit
    · exact ⟨by decide, by decide⟩
    · exact ⟨by decide, by decide⟩
  resume pre a post hsplit := by
    obtain ⟨rfl, rfl, rfl⟩ | ⟨rfl, rfl, rfl⟩ := split_frames hsplit
    · exact ⟨⟨6⟩, rfl⟩
    · exact ⟨⟨6⟩, rfl⟩

theorem owned (h : Handle) : ((check.owned word).count h : Int) ≤ heap.external h := by
  obtain ⟨i⟩ := h
  match i with
  | 0 | 1 | 2 | 3 | 4 => decide
  | i + 5 =>
    have howned : check.owned word = [⟨4⟩] := by decide
    simp [howned, Heap.external, Heap.childRefs, Heap.total, heap, Heap.initial, Heap.alloc,
      Heap.allocImmortal, Heap.allocCell, Object.children]

end Inlined

theorem deoptimize_rebuilds_inlined :
    ∃ ids w' frames, Inlined.world.deoptimize ⟨1⟩ Inlined.snap = .ok (.ok ids, w') ∧
      HandedOver Inlined.func Inlined.check Inlined.state Inlined.word Inlined.world w' ids frames := by
  refine Function.deoptimize_rebuilds (k := 1) Inlined.validate Inlined.compile rfl rfl rfl rfl ?_
    Inlined.handover Inlined.owned
  intro r loc hlive hloc
  obtain ⟨l, hl⟩ := Option.isSome_iff_exists.1 hlive
  obtain ⟨hmem, rfl⟩ := Instr.live?_eq_some hl
  obtain rfl | rfl | rfl | rfl : l = _ ∨ l = _ ∨ l = _ ∨ l = _ := by
    simpa [Inlined.check, Instr.live] using hmem
  all_goals
    obtain rfl := Option.some.inj hloc
    rfl

/-! ## A tuple that names a freed object

A share for each owned reference is not enough: when the last share of a tuple is given back, its items
are released too. -/

namespace Dangling

def state : FrameState := ⟨{ code := Blaming.code, offset := ⟨0⟩, locals := [none] }, []⟩

def guard : Instr where
  kind := .guard
  operands := [⟨0⟩]
  output := none
  block := some ⟨0⟩
  frameState := some state
  deopt := some { live := [⟨⟨0⟩, .owned, .object⟩] }

def func : Function := Blaming.through guard

theorem validate : func.validate = .ok () :=
  Function.validate_of_order (Blaming.order_through guard) rfl rfl

def layout : Layout := { locations := [(⟨0⟩, .reg 0)] }

def unit : CompiledUnit where
  name := "f"
  code := Blaming.code
  records := ((func.buildRecord guard 0).toOption.bind (·.toOption)).toList.map layout.fill
  sites := [⟨⟨0⟩, 1⟩]
  layout

theorem compile : func.compile {} 0 = .ok (.ok unit, 1) :=
  Function.compile_of_sites validate (Function.deoptSites_of_order (Blaming.order_through guard)) rfl rfl

def heap : Heap := ((Heap.initial.alloc (.int 7)).2.alloc (.tuple [⟨8⟩])).2

def world : World where
  engine := { registry := { value := { table := unit.records.map some } } }
  heap

/-- The register holds the tuple. -/
def word (_ : Reg) : Word := 40

theorem eq_of_live {r : Reg} {l : LiveReg} (h : guard.live? r = some l) :
    r = ⟨0⟩ ∧ l = ⟨⟨0⟩, .owned, .object⟩ := by
  obtain ⟨hmem, rfl⟩ := Instr.live?_eq_some h
  obtain rfl : l = _ := by simpa [guard, Instr.live] using hmem
  exact ⟨rfl, rfl⟩

theorem split_frames {pre post : List Activation} {a : Activation}
    (h : state.frames = pre ++ a :: post) : pre = [] ∧ a = state.frame ∧ post = [] := by
  have h : [state.frame] = pre ++ a :: post := h
  rcases pre with _ | ⟨x, pre⟩
  · simp_all
  · simp at h

theorem handover : Handover func guard state word heap where
  sound := (Heap.sound_initial.allocCell _).allocCell _
  bools b := by cases b <;> exact ⟨1, rfl⟩
  objects r l hl _ := by
    obtain ⟨rfl, rfl⟩ := eq_of_live hl
    exact ⟨some ⟨4⟩, rfl, by rintro _ ⟨⟩; rfl⟩
  lookups _ _ _ _ _ _ _ _ := (by decide : (40 : Word) ≠ 0)
  room pre a post hsplit := by
    obtain ⟨rfl, rfl, rfl⟩ := split_frames hsplit
    exact ⟨by decide, by decide⟩
  resume pre a post hsplit := by
    obtain ⟨rfl, rfl, rfl⟩ := split_frames hsplit
    exact ⟨⟨0⟩, rfl⟩

end Dangling

theorem owned_shares_do_not_suffice :
    Dangling.func.validate = .ok () ∧ Dangling.func.compile {} 0 = .ok (.ok Dangling.unit, 1) ∧
      Dangling.unit.sites[0]? = some ⟨⟨0⟩, 1⟩ ∧ Dangling.func.instr ⟨⟨0⟩, 1⟩ = .ok Dangling.guard ∧
      Dangling.guard.frameState = some Dangling.state ∧
      Dangling.world.engine.record? ⟨0⟩ = Dangling.unit.records[0]? ∧
      Snapshot.Holds { regs := [40] } Dangling.unit.layout Dangling.guard Dangling.word ∧
      Handover Dangling.func Dangling.guard Dangling.state Dangling.word Dangling.world.heap ∧
      (∀ h, (Dangling.guard.owned Dangling.word).count h ≤ Dangling.world.heap.shares h) ∧
      Dangling.world.deoptimize ⟨0⟩ { regs := [40] } = .error (.dangling ⟨8⟩) := by
  refine ⟨Dangling.validate, Dangling.compile, rfl, rfl, rfl, rfl, fun r loc hlive hloc => ?_,
    Dangling.handover, fun h => ?_, by decide +kernel⟩
  · obtain ⟨l, hl⟩ := Option.isSome_iff_exists.1 hlive
    obtain ⟨rfl, -⟩ := Dangling.eq_of_live hl
    obtain rfl := Option.some.inj hloc
    rfl
  · have howned : Dangling.guard.owned Dangling.word = [⟨4⟩] := by decide
    have hshares : Dangling.world.heap.shares ⟨4⟩ = 1 := rfl
    rw [howned]
    by_cases hh : h = ⟨4⟩
    · simp [hh, hshares]
    · simp [Ne.symm hh]

end Bailout
