import Bailout.Proofs.Frame.Decode
import Bailout.Proofs.Record.RoundTrip

/-!
# Frames are rebuilt

What a frame will hold is known before anything is decoded: `Instr.slotContents` and
`Function.stackContents` give, place by place, the live register whose object goes there.
`Scene.materializeFrame` says that a frame whose record mirrors an activation is rebuilt with these
contents, if the share counts have room for them, and `Scene.materializeAll` says it of all frames.
-/

namespace Bailout

/-! ## Contents -/

/-- The register holds a function that is not bound to a receiver. -/
def LiveReg.isPlain (σ : Reg → Word) (heap : Heap) (l : LiveReg) : Bool :=
  (l.fixed? σ).any fun h => (heap.get? h).any Object.isPlainFunction

/-- The object for a register, where `old` is the heap before and `new` the heap after: a new box for a
primitive, or else an object known beforehand. -/
def LiveReg.DecodesTo (σ : Reg → Word) (old new : Heap) (l : LiveReg) (o : Option Handle) : Prop :=
  match l.valueKind.payload? (σ l.reg) with
  | some object => ∃ h, o = some h ∧ old.cell? h = none ∧ new.get? h = some object
  | none => o = l.fixed? σ

/-- The shares that places take of objects known beforehand. -/
def LiveReg.kept (σ : Reg → Word) (places : List LiveReg) : List Handle :=
  places.filterMap (LiveReg.fixed? σ)

/-- The shares that the decoder takes while it fills the places, one for each boolean. -/
def LiveReg.temporary (σ : Reg → Word) (places : List LiveReg) : List Handle :=
  (places.filter fun l => l.valueKind == .bool).dedup.filterMap (LiveReg.fixed? σ)

/-- No share count overflows while places are filled, after earlier frames have taken their shares. The
first share of a box is the decoder's. -/
structure Room (σ : Reg → Word) (heap : Heap) (earlier : List Handle) (places : List LiveReg) :
    Prop where
  known : ∀ h ∈ LiveReg.kept σ places ++ LiveReg.temporary σ places, ∀ c ∈ heap.cell? h,
    c.count + earlier.count h + (LiveReg.kept σ places ++ LiveReg.temporary σ places).count h ≤
      HeapCell.maxCount
  boxes : ∀ l ∈ places, (l.valueKind.payload? (σ l.reg)).isSome → places.count l < HeapCell.maxCount

namespace Function

variable (f : Function) (i : Instr) (σ : Reg → Word) (heap : Heap)

/-- If the register is a live method lookup, it has a result. -/
def HasResult (r : Reg) : Prop :=
  (f.lookup? r).isSome → ∀ l, i.live? r = some l → l.valueKind = .object → σ r ≠ 0

/-- What one register of an operand stack stands for on the interpreter's stack. A method lookup takes
two slots. -/
def entryContents (r : Reg) : List (Option LiveReg) :=
  match f.lookup? r with
  | none => [i.live? r]
  | some d =>
    match i.live? r with
    | none => [none, none]
    | some l => if l.isPlain σ heap then [some l, d.operands[0]?.bind i.live?] else [none, some l]

def stackContents (a : Activation) : List (Option LiveReg) :=
  a.stack.flatMap (f.entryContents i σ heap)

end Function

/-- What the slots of a frame hold: dead or unbound slots are empty. -/
def Instr.slotContents (i : Instr) (a : Activation) : List (Option LiveReg) :=
  a.slots.map fun slot => slot.bind i.live?

/-- The places of a frame that hold a live register, slots first. -/
def Function.places (f : Function) (i : Instr) (σ : Reg → Word) (heap : Heap) (a : Activation) :
    List LiveReg :=
  (i.slotContents a ++ f.stackContents i σ heap a).reduceOption

/-- No share count overflows while frames are rebuilt one after another. -/
def Function.RoomFor (f : Function) (i : Instr) (σ : Reg → Word) (heap : Heap)
    (frames : List Activation) : Prop :=
  ∀ pre a post, frames = pre ++ a :: post →
    Room σ heap (pre.flatMap fun b => LiveReg.kept σ (f.places i σ heap b)) (f.places i σ heap a)

/-- A frame is what its activation says, with the values that words have in the heap before. -/
structure Activation.RebuiltAs (f : Function) (i : Instr) (σ : Reg → Word) (old new : Heap)
    (innermost : Bool) (a : Activation) (frame : Frame) : Prop where
  code : frame.code = a.code
  handlers : frame.handlers = a.handlers
  next : (Reason.ofOpcode i.opcode).resumeOffset innermost a.offset = .ok frame.next
  line : frame.line = a.code.line? frame.next
  status : frame.status = .executing
  materialized : frame.materialized = true
  gen : frame.gen = none
  /-- Every register stands for one object throughout the frame. -/
  contents : ∃ val : LiveReg → Option Handle, frame.slots = (i.slotContents a).map (·.bind val) ∧
    frame.stack = (f.stackContents i σ old a).map (·.bind val) ∧
    ∀ l ∈ f.places i σ old a, l.DecodesTo σ old new (val l)

section

variable {r : Record} {snap : Snapshot} {σ : Reg → Word} {live places : List LiveReg}
  {old heap heap' : Heap} {d d₁ d₂ : Decoder} {l : LiveReg} {placed taken : List Handle}
  {f : Function} {i : Instr}

/-! ## Filling several places -/

theorem Instr.live?_mem_distinct {reg : Reg} (h : i.live? reg = some l) :
    l ∈ LiveReg.distinct i.live := by
  rw [Instr.live?, ← LiveReg.find?_distinct] at h
  exact List.mem_of_find?_eq_some h

theorem Function.places_subset (f : Function) (i : Instr) (σ : Reg → Word) (heap : Heap)
    (a : Activation) : f.places i σ heap a ⊆ LiveReg.distinct i.live := by
  intro l hl
  rw [Function.places, List.reduceOption_mem_iff, List.mem_append] at hl
  rcases hl with hl | hl
  · obtain ⟨slot, -, h⟩ := List.mem_map.1 hl
    obtain ⟨reg, -, h⟩ := Option.bind_eq_some_iff.1 h
    exact Instr.live?_mem_distinct h
  · obtain ⟨reg, -, h⟩ := List.mem_flatMap.1 hl
    unfold Function.entryContents at h
    split at h
    · exact Instr.live?_mem_distinct (List.mem_singleton.1 h).symm
    · split at h
      · simp at h
      · next hlive =>
        split at h
        · rcases List.mem_cons.1 h with h | h
          · exact Instr.live?_mem_distinct (hlive.trans h.symm)
          · obtain ⟨self, -, h⟩ := Option.bind_eq_some_iff.1 (List.mem_singleton.1 h).symm
            exact Instr.live?_mem_distinct h
        · simp only [List.mem_cons, reduceCtorEq, List.not_mem_nil, or_false, false_or] at h
          exact Instr.live?_mem_distinct (hlive.trans h.symm)

theorem Filling.perm {places' : List LiveReg} {placed' : List Handle}
    (fill : Filling r σ old d places placed) (hp : places.Perm places') (hq : placed.Perm placed') :
    Filling r σ old d places' placed' := by
  have hfuture : (d.future r σ places).Perm (d.future r σ places') :=
    (hp.filterMap _).append (((hp.filter _).dedup).filterMap _)
  refine ⟨fill.ready, fill.grows.perm (hq.append_left _), fill.sourced, fun h hh c hc => ?_,
    fun l hl => hp.count_eq l ▸ fill.boxes l (hp.mem_iff.2 hl)⟩
  rw [← hfuture.count_eq]
  exact fill.room h (hfuture.mem_iff.2 hh) c hc

namespace Filled

variable {contents contents' : List (Option LiveReg)}

theorem refl (fill : Filling r σ old d places placed) : Filled r σ old d d [] places placed :=
  ⟨by simp, fill, .refl r d⟩

/-- What was filled first is not changed by what is filled later. -/
theorem map_holds (h : Filled r σ old d d₁ contents places placed) (hext : d₁.Extends r d₂) :
    contents.map (d₂.holds r) = contents.map (d₁.holds r) :=
  List.map_congr_left fun _ ho => hext.holds fun l hl =>
    h.known l (List.reduceOption_mem_iff.2 (hl ▸ ho))

theorem of_extends (hext : d.Extends r d₁) (h : Filled r σ old d₁ d₂ contents places placed) :
    Filled r σ old d d₂ contents places placed :=
  ⟨h.known, h.filling, hext.trans h.grown⟩

theorem append (h : Filled r σ old d d₁ contents (contents'.reduceOption ++ places) placed)
    (h' : Filled r σ old d₁ d₂ contents' places ((contents.map (d₁.holds r)).reduceOption ++ placed)) :
    Filled r σ old d d₂ (contents ++ contents') places placed := by
  refine ⟨fun l hl => ?_, h'.filling.perm (.refl _) ?_, h.grown.trans h'.grown⟩
  · rw [List.reduceOption_append, List.mem_append] at hl
    rcases hl with hl | hl
    · obtain ⟨value, hv⟩ := Option.isSome_iff_exists.1 (h.known l hl)
      simp [h'.grown l value hv]
    · exact h'.known l hl
  · rw [List.map_append, List.reduceOption_append, h.map_holds h'.grown, ← List.append_assoc]
    exact List.perm_append_comm.append_right _

end Filled

theorem Filling.fillSlots (sc : Scene r snap σ live old) {contents : List (Option LiveReg)}
    {indices : List LiveIndex}
    (hres : List.Forall₂ (fun o index => r.resolve index = .ok o) contents indices)
    (fill : Filling r σ old d (contents.reduceOption ++ places) placed)
    (hsub : contents.reduceOption ++ places ⊆ live) :
    ∃ d', r.fillSlots snap d (indices.map (·, none)) = .ok (contents.map (d'.holds r), d') ∧
      Filled r σ old d d' contents places placed := by
  induction hres generalizing d placed with
  | nil => exact ⟨d, rfl, .refl fill⟩
  | @cons o index contents indices ho _ ih =>
    rw [Heap.reduceOption_cons, List.append_assoc] at fill hsub
    obtain ⟨d₁, hslot, hfilled⟩ := fill.decodeSlot sc hsub ho
    obtain ⟨d₂, hrest, hfilled'⟩ := ih hfilled.filling (List.append_subset.1 hsub).2
    refine ⟨d₂, ?_, hfilled.append hfilled'⟩
    have hsame := hfilled.map_holds hfilled'.grown
    simp only [List.map_singleton, List.cons.injEq, and_true] at hsame
    simp [Record.fillSlots, hslot, Heap.xdecref, hrest, hsame]

/-! ## The operand stack -/

theorem Handle.ofWord_eq_none {word : Word} : Handle.ofWord word = .ok none ↔ word = 0 := by
  unfold Handle.ofWord
  split
  · simp_all
  · simp only [‹¬ word = 0›, iff_false]
    split
    · simp
    · split <;> simp

theorem Sourced.isPlainFunction (sc : Scene r snap σ live old) (hl : l ∈ live) {value : Decoded}
    (hv : Sourced σ old heap l value) (g : old.Grows heap taken)
    (hnull : l.valueKind = .object → σ l.reg ≠ 0) :
    ∃ h, value.handle? = some h ∧ heap.isPlainFunction h = .ok (l.isPlain σ old) := by
  cases hv with
  | @box h object hp hnone hget =>
    refine ⟨h, rfl, ?_⟩
    have hf : l.fixed? σ = none := ValueKind.fixed?_of_payload hp
    rw [Heap.isPlainFunction_eq hget, ValueKind.isPlainFunction_payload hp]
    simp [LiveReg.isPlain, hf]
  | fixed hp hv hb =>
    obtain ⟨h, hf⟩ : ∃ h, l.fixed? σ = some h := by
      unfold LiveReg.fixed?
      cases hk : l.valueKind with
      | object =>
        obtain ⟨o, ho, -⟩ := sc.objects l hl hk
        cases o with
        | none => exact absurd (Handle.ofWord_eq_none.1 ho) (hnull hk)
        | some h => exact ⟨h, by simp [ValueKind.fixed?, ho]⟩
      | bool => exact ⟨_, rfl⟩
      | signed => simp [hk, ValueKind.payload?] at hp
      | unsigned => simp [hk, ValueKind.payload?] at hp
      | double => simp [hk, ValueKind.payload?] at hp
    obtain ⟨c, hc⟩ := Heap.isLive_iff.1 (sc.fixed_live hl hf)
    have hget : old.get? h = some c.object := by simp [Heap.get?, hc]
    refine ⟨h, hv.trans hf, ?_⟩
    rw [Heap.isPlainFunction_eq (g.get? hget)]
    simp [LiveReg.isPlain, hf, hget]

/-- A live method lookup fills two slots: function and receiver, or an empty slot and the callable. -/
theorem Filling.fillPair (sc : Scene r snap σ live old) {callable receiver : LiveIndex} {l' : LiveReg}
    (hcall : r.resolve callable = .ok (some l)) (hrecv : r.resolve receiver = .ok (some l'))
    (hnull : l.valueKind = .object → σ l.reg ≠ 0) {contents : List (Option LiveReg)}
    (hcontents : contents = if l.isPlain σ old then [some l, some l'] else [none, some l])
    (fill : Filling r σ old d (contents.reduceOption ++ places) placed)
    (hsub : contents.reduceOption ++ places ⊆ live) :
    ∃ d', r.fillEntry snap d (.methodPair callable receiver) =
        .ok (contents.map (d'.holds r), d') ∧
      Filled r σ old d d' contents places placed := by
  have hdead : callable ≠ LiveIndex.dead := fun h => by
    rw [h] at hcall
    cases hcall
  have hmem : l ∈ contents.reduceOption ++ places := by
    rw [hcontents]
    split <;> simp [List.reduceOption]
  obtain ⟨value, d₁, hdecode, hk, fill₁, hext⟩ := fill.decode sc hsub hmem hcall
  obtain ⟨h, hh, hplain⟩ :=
    (fill₁.sourced l value hk).isPlainFunction sc (hsub hmem) fill₁.grows hnull
  cases hl : l.isPlain σ old with
  | true =>
    rw [hl, if_pos rfl] at hcontents
    rw [hl] at hplain
    subst hcontents
    obtain ⟨d₂, hslot, hfilled⟩ := fill₁.decodeSlot (o := some l) sc hsub hcall
    obtain ⟨d₃, hslot', hfilled'⟩ :=
      hfilled.filling.decodeSlot (o := some l') sc (List.cons_subset.1 hsub).2 hrecv
    have hsame := hfilled.map_holds hfilled'.grown
    simp only [List.map_singleton, List.cons.injEq, and_true] at hsame
    refine ⟨d₃, ?_, (hfilled.append hfilled').of_extends hext⟩
    simp [Record.fillEntry, hdead, hdecode, hh, hplain, hslot, hslot', hsame]
  | false =>
    rw [hl, if_neg Bool.false_ne_true] at hcontents
    rw [hl] at hplain
    subst hcontents
    obtain ⟨d₂, hslot, hfilled⟩ := fill₁.decodeSlot (o := some l) sc hsub hcall
    refine ⟨d₂, ?_, Filled.of_extends hext ⟨hfilled.known, hfilled.filling, hfilled.grown⟩⟩
    simp [Record.fillEntry, hdead, hdecode, hh, hplain, hslot, Decoder.holds]

theorem Filling.fillEntry (sc : Scene r snap σ live old) {reg : Reg} {e : StackEntry}
    (he : f.EntryFor i r reg e)
    (hresult : f.HasResult i σ reg)
    (fill : Filling r σ old d ((f.entryContents i σ old reg).reduceOption ++ places) placed)
    (hsub : (f.entryContents i σ old reg).reduceOption ++ places ⊆ live) :
    ∃ d', r.fillEntry snap d e = .ok ((f.entryContents i σ old reg).map (d'.holds r), d') ∧
      Filled r σ old d d' (f.entryContents i σ old reg) places placed := by
  cases e with
  | value index =>
    obtain ⟨hlookup, hres⟩ := he
    have hcontents : f.entryContents i σ old reg = [i.live? reg] := by
      simp [Function.entryContents, hlookup]
    rw [hcontents] at fill hsub ⊢
    rw [Heap.reduceOption_cons, List.reduceOption_nil, List.append_nil] at fill hsub
    obtain ⟨d', hslot, hfilled⟩ := fill.decodeSlot sc hsub hres
    exact ⟨d', by simp [Record.fillEntry, hslot], hfilled⟩
  | methodPair callable receiver =>
    obtain ⟨lookup, hlookup, ⟨hlive, rfl, rfl⟩ | ⟨l, self, l', hlive, hself, hlive', hcall, hrecv⟩⟩ := he
    · have hcontents : f.entryContents i σ old reg = [none, none] := by
        simp [Function.entryContents, hlookup, hlive]
      rw [hcontents] at fill ⊢
      exact ⟨d, by simp [Record.fillEntry, Decoder.holds], by simp [List.reduceOption], fill, .refl r d⟩
    · have hreg : l.reg = reg := (Instr.live?_eq_some hlive).2
      have hcontents : f.entryContents i σ old reg =
          if l.isPlain σ old then [some l, some l'] else [none, some l] := by
        simp [Function.entryContents, hlookup, hlive, hself, hlive']
      refine fill.fillPair sc hcall hrecv (fun hk => ?_) hcontents hsub
      rw [hreg]
      exact hresult (by simp [hlookup]) l hlive hk

/-- The stack is filled from the top down; `regs` are given top first. -/
theorem Filling.fillStack (sc : Scene r snap σ live old) {regs : List Reg} {entries : List StackEntry}
    (he : List.Forall₂ (f.EntryFor i r) regs entries)
    (hresult : ∀ reg ∈ regs, f.HasResult i σ reg)
    (fill : Filling r σ old d
      ((regs.flatMap (f.entryContents i σ old)).reduceOption ++ places) placed)
    (hsub : (regs.flatMap (f.entryContents i σ old)).reduceOption ++ places ⊆ live)
    (stack : List (Option Handle)) :
    ∃ d', r.fillStack snap d stack entries =
        .ok ((regs.reverse.flatMap (f.entryContents i σ old)).map (d'.holds r) ++ stack, d') ∧
      Filled r σ old d d' (regs.flatMap (f.entryContents i σ old)) places placed := by
  induction he generalizing d placed stack with
  | nil => exact ⟨d, rfl, .refl fill⟩
  | @cons reg e regs entries he _ ih =>
    rw [List.forall_mem_cons] at hresult
    rw [List.flatMap_cons, List.reduceOption_append, List.append_assoc] at fill hsub
    obtain ⟨d₁, hentry, hfilled⟩ := fill.fillEntry sc he hresult.1 hsub
    obtain ⟨d₂, hrest, hfilled'⟩ := ih hresult.2 hfilled.filling (List.append_subset.1 hsub).2
      ((f.entryContents i σ old reg).map (d₁.holds r) ++ stack)
    refine ⟨d₂, ?_, hfilled.append hfilled'⟩
    simp [Record.fillStack, hentry, hrest, hfilled.map_holds hfilled'.grown]

/-! ## One frame -/

theorem Filling.start (hs : old.Sound) (room : Room σ old [] places) (r : Record) :
    Filling r σ old ⟨old, List.replicate r.live.length none⟩ places [] := by
  have hknown := Decoder.known_replicate r old
  have hboxes := Decoder.boxes_replicate old r.live.length
  have hfuture : Decoder.future r σ ⟨old, List.replicate r.live.length none⟩ places =
      LiveReg.kept σ places ++ LiveReg.temporary σ places := by
    have hdenoted : Decoder.denoted r σ ⟨old, List.replicate r.live.length none⟩ = LiveReg.fixed? σ := by
      funext l
      simp [Decoder.denoted, hknown]
    rw [Decoder.future, hdenoted]
    simp [Decoder.bools, hknown, LiveReg.kept, LiveReg.temporary]
  refine ⟨⟨hs, by simp⟩, ?_, fun l value hl => ?_, fun h hh c hc => ?_, room.boxes⟩
  · rw [hboxes]
    exact .refl old
  · simp [hknown] at hl
  · rw [hfuture] at hh ⊢
    exact room.known h hh c hc

theorem Decoder.mem_boxes (hn : (r.live.map LiveValue.liveReg).Nodup) (hr : d.Ready r) {h : Handle}
    (hh : h ∈ d.boxes) : ∃ l value, d.known r l = some value ∧ h ∈ value.box := by
  obtain ⟨value, hv, hh⟩ := List.mem_flatMap.1 hh
  obtain ⟨p, hp⟩ := List.mem_iff_getElem?.1 (List.reduceOption_mem_iff.1 hv)
  have hlt : p < r.live.length := hr.length ▸ (List.getElem?_eq_some_iff.1 hp).1
  refine ⟨r.live[p].liveReg, value, ?_, hh⟩
  rw [Decoder.known_eq hn (List.getElem?_eq_getElem hlt), hp]
  rfl

/-- The decoder's own shares can be given back, and what has been placed stays. -/
theorem Filling.dropBoxes (sc : Scene r snap σ live old) (fill : Filling r σ old d places placed) :
    ∃ heap', Record.dropBoxes d = .ok heap' ∧ heap'.Sound ∧ old.Grows heap' placed ∧
      ∀ h ∈ placed, ∀ object, d.heap.get? h = some object → heap'.get? h = some object := by
  have hback : ∀ h ∈ d.boxes, ∀ c, old.cell? h = some c → c.immortal := by
    intro h hh c hc
    obtain ⟨l, value, hk, hbox⟩ := Decoder.mem_boxes sc.distinct fill.ready hh
    cases fill.sourced l value hk with
    | box hp hnone hget =>
      obtain rfl := List.mem_singleton.1 hbox
      simp [hnone] at hc
    | fixed hp hv hb =>
      rw [hb] at hbox
      split at hbox
      · next hkind =>
        obtain ⟨n, hn⟩ := sc.bools (σ l.reg != 0)
        have hf : l.fixed? σ = some (Heap.boolHandle (σ l.reg != 0)) := by
          simp [LiveReg.fixed?, ValueKind.fixed?, hkind]
        obtain rfl : h = Heap.boolHandle (σ l.reg != 0) := by simpa [hf] using hbox
        obtain rfl := Option.some.inj (hn.symm.trans hc)
        rfl
      · simp at hbox
  obtain ⟨heap', hdrop, g⟩ := fill.grows.releaseAll hback
  refine ⟨heap', (Record.dropBoxes_eq d).trans hdrop, fill.ready.sound.releaseAll hdrop, g, ?_⟩
  exact fun h hh object hget =>
    Heap.get?_of_releaseAll hdrop hget (Heap.isLive_iff.2 (g.live h hh))

theorem reduceOption_map_holds (r : Record) (d : Decoder) (contents : List (Option LiveReg)) :
    (contents.map (d.holds r)).reduceOption = contents.reduceOption.filterMap (d.object r) := by
  rw [List.reduceOption, List.reduceOption, List.filterMap_map, List.filterMap_filterMap]
  rfl

/-- A decoded register has the object its word stands for, also after the decoder has let go of it. -/
theorem Filling.decodesTo (fill : Filling r σ old d places placed) {value : Decoded}
    (hk : d.known r l = some value)
    (hkeep : ∀ h object, d.object r l = some h → d.heap.get? h = some object →
      heap'.get? h = some object) : l.DecodesTo σ old heap' (d.object r l) := by
  have hobject : d.object r l = value.handle? := by simp [Decoder.object, hk]
  cases fill.sourced l value hk with
  | @box h object hp hnone hget =>
    simp only [LiveReg.DecodesTo, hp]
    exact ⟨h, hobject, hnone, hkeep h object hobject hget⟩
  | fixed hp hv hb =>
    simp only [LiveReg.DecodesTo, hp]
    exact hobject.trans hv

theorem refs_of_contents {frame : Frame} {a : Activation} {val : LiveReg → Option Handle}
    (hslots : frame.slots = (i.slotContents a).map (·.bind val))
    (hstack : frame.stack = (f.stackContents i σ old a).map (·.bind val)) :
    frame.refs = (f.places i σ old a).filterMap val := by
  rw [Frame.refs, hslots, hstack, ← List.map_append, List.reduceOption, List.filterMap_map,
    Function.places, List.reduceOption, List.filterMap_filterMap]
  rfl

theorem Scene.fillFrame (sc : Scene r snap σ (LiveReg.distinct i.live) old) (hs : old.Sound)
    {fr : FrameRecord} {a : Activation} (hm : fr.Mirrors f i r a)
    (hresult : ∀ reg ∈ a.stack, f.HasResult i σ reg) (room : Room σ old [] (f.places i σ old a)) :
    ∃ d₁ d₂, r.fillSlots snap ⟨old, List.replicate r.live.length none⟩ (fr.slots.map (·, none)) =
        .ok ((i.slotContents a).map (d₂.holds r), d₁) ∧
      r.fillStack snap d₁ [] fr.stack.reverse =
        .ok ((f.stackContents i σ old a).map (d₂.holds r), d₂) ∧
      (∀ l ∈ f.places i σ old a, (d₂.known r l).isSome) ∧
      Filling r σ old d₂ [] ((f.places i σ old a).filterMap (d₂.object r)) := by
  -- the stack is filled top first, so the places come in another order than the activation has
  have hrev : (f.places i σ old a).Perm ((i.slotContents a).reduceOption ++
      ((a.stack.reverse.flatMap (f.entryContents i σ old)).reduceOption ++ [])) := by
    rw [Function.places, List.reduceOption_append, List.append_nil]
    exact (((List.reverse_perm _).symm.flatMap_right _).filterMap _).append_left _
  have hsub := List.Subset.trans hrev.symm.subset (f.places_subset i σ old a)
  have hres : List.Forall₂ (fun o index => r.resolve index = .ok o) (i.slotContents a) fr.slots := by
    rw [Instr.slotContents, List.forall₂_map_left_iff]
    exact hm.slots
  obtain ⟨d₁, hfill, hfilled⟩ :=
    ((Filling.start hs room r).perm hrev (.refl _)).fillSlots sc hres hsub
  obtain ⟨d₂, hfill', hfilled'⟩ := hfilled.filling.fillStack sc (List.forall₂_reverse_iff.2 hm.stack)
    (fun reg hreg => hresult reg (List.mem_reverse.1 hreg)) (List.append_subset.1 hsub).2 []
  have hall := hfilled.append hfilled'
  rw [List.append_nil, ← List.reduceOption_append] at hrev
  rw [← hfilled.map_holds hfilled'.grown] at hfill
  rw [List.reverse_reverse, List.append_nil] at hfill'
  refine ⟨d₁, d₂, hfill, hfill', fun l hl => hall.known l (hrev.mem_iff.1 hl), ?_⟩
  refine hall.filling.perm (.refl _) ?_
  rw [reduceOption_map_holds, List.append_nil]
  exact (hrev.filterMap _).symm

/-- A frame whose record mirrors an activation is rebuilt as the activation says, and takes a share of
every reference it holds. -/
theorem Scene.materializeFrame (sc : Scene r snap σ (LiveReg.distinct i.live) old) (hs : old.Sound)
    {fr : FrameRecord} {a : Activation} (hm : fr.Mirrors f i r a)
    (hreason : r.reason = .ofOpcode i.opcode) (hshape : a.slots.length = a.code.slots)
    (hresult : ∀ reg ∈ a.stack, f.HasResult i σ reg) (room : Room σ old [] (f.places i σ old a))
    {innermost : Bool} {next : Offset}
    (hnext : (Reason.ofOpcode i.opcode).resumeOffset innermost a.offset = .ok next) :
    ∃ frame heap', r.materializeFrame snap old fr innermost { code := fr.code } = .ok (frame, heap') ∧
      heap'.Sound ∧ old.Grows heap' frame.refs ∧ a.RebuiltAs f i σ old heap' innermost frame := by
  obtain ⟨d₁, d₂, hslots, hstack, hknown, fill⟩ := sc.fillFrame hs hm hresult room
  obtain ⟨heap', hdrop, hs', g, hkeep⟩ := fill.dropBoxes sc
  let frame : Frame := {
    code := fr.code
    slots := (i.slotContents a).map (d₂.holds r)
    stack := (f.stackContents i σ old a).map (d₂.holds r)
    handlers := fr.handlers
    next
    line := fr.code.line? next
    status := .executing
    materialized := true }
  have hrefs : frame.refs = (f.places i σ old a).filterMap (d₂.object r) := refs_of_contents rfl rfl
  refine ⟨frame, heap', Record.materializeFrame_eq_ok.2 ?_, hs', hrefs ▸ g, ?_⟩
  · have hcode : fr.code.slots = fr.slots.length := by
      rw [hm.code, ← hshape, hm.slots.length_eq]
    have hzip : fr.slots.zip (List.replicate fr.code.slots (none : Option Handle)) =
        fr.slots.map (·, none) := by
      rw [hcode, ← List.map_const', ← List.map_prod_left_eq_zip]
    rw [← hzip] at hslots
    refine ⟨rfl, by simp [hcode], _, _, next, d₁, d₂, d₂.heap, hslots, hstack, rfl, ?_, hdrop, rfl⟩
    rw [hreason, hm.cause]
    exact hnext
  · refine ⟨hm.code, hm.handlers, hnext, congrArg (·.line? next) hm.code, rfl, rfl, rfl, d₂.object r,
      rfl, rfl, fun l hl => ?_⟩
    obtain ⟨value, hk⟩ := Option.isSome_iff_exists.1 (hknown l hl)
    exact fill.decodesTo hk fun h object hh => hkeep h (List.mem_filterMap.2 ⟨l, hl, hh⟩) object

/-! ## All frames -/

theorem Scene.grow (sc : Scene r snap σ live old) (g : old.Grows heap taken) :
    Scene r snap σ live heap where
  distinct := sc.distinct
  bools b := by
    obtain ⟨n, hn⟩ := sc.bools b
    exact ⟨_, g.kept _ _ hn⟩
  read := sc.read
  objects l hl hk := by
    obtain ⟨o, ho, hlive⟩ := sc.objects l hl hk
    exact ⟨o, ho, fun h hh => g.isLive (hlive h hh)⟩

/-- Which lookups are plain functions, and so what stacks hold, does not change while frames are
rebuilt. -/
theorem Scene.stackContents_grow (sc : Scene r snap σ (LiveReg.distinct i.live) old)
    (g : old.Grows heap taken) (f : Function) (a : Activation) :
    f.stackContents i σ heap a = f.stackContents i σ old a := by
  have hplain : ∀ l ∈ LiveReg.distinct i.live, l.isPlain σ heap = l.isPlain σ old := by
    intro l hl
    cases hf : l.fixed? σ with
    | none => simp [LiveReg.isPlain, hf]
    | some h =>
      obtain ⟨c, hc⟩ := Heap.isLive_iff.1 (sc.fixed_live hl hf)
      have hget : old.get? h = some c.object := by simp [Heap.get?, hc]
      simp [LiveReg.isPlain, hf, hget, g.get? hget]
  unfold Function.stackContents
  congr 1
  funext reg
  unfold Function.entryContents
  split
  · rfl
  · split
    · rfl
    · next hlive => rw [hplain _ (Instr.live?_mem_distinct hlive)]

theorem Scene.places_grow (sc : Scene r snap σ (LiveReg.distinct i.live) old)
    (g : old.Grows heap taken) (f : Function) (a : Activation) :
    f.places i σ heap a = f.places i σ old a := by
  rw [Function.places, sc.stackContents_grow g, ← Function.places]

theorem LiveReg.DecodesTo.mono {o : Option Handle} {new : Heap} (hd : l.DecodesTo σ heap heap' o)
    (g : old.Grows heap taken)
    (hkeep : ∀ h object, o = some h → heap'.get? h = some object → new.get? h = some object) :
    l.DecodesTo σ old new o := by
  unfold LiveReg.DecodesTo at hd ⊢
  split
  · next object hp =>
    rw [hp] at hd
    obtain ⟨h, rfl, hnone, hget⟩ := hd
    exact ⟨h, rfl, g.cell?_eq_none hnone, hkeep h object rfl hget⟩
  · next hp =>
    rw [hp] at hd
    exact hd

/-- A rebuilt frame stays as it is while other frames are rebuilt, before it or after it, as long as the
objects it holds are kept. -/
theorem Activation.RebuiltAs.mono (sc : Scene r snap σ (LiveReg.distinct i.live) old)
    {innermost : Bool} {a : Activation} {frame : Frame} {new : Heap}
    (hr : a.RebuiltAs f i σ heap heap' innermost frame) (g : old.Grows heap taken)
    (hkeep : ∀ h ∈ frame.refs, ∀ object, heap'.get? h = some object → new.get? h = some object) :
    a.RebuiltAs f i σ old new innermost frame := by
  obtain ⟨val, hslots, hstack, hval⟩ := hr.contents
  rw [sc.stackContents_grow g] at hstack
  rw [sc.places_grow g] at hval
  refine { hr with contents := ⟨val, hslots, hstack, fun l hl => (hval l hl).mono g ?_⟩ }
  intro h object hh
  refine hkeep h ?_ object
  rw [refs_of_contents hslots hstack]
  exact List.mem_filterMap.2 ⟨l, hl, hh⟩

/-- Of an object that was there before, places take the shares foreseen. -/
theorem count_filterMap_val {val : LiveReg → Option Handle}
    (hval : ∀ l ∈ places, l.DecodesTo σ old heap (val l)) {h : Handle} {c : HeapCell}
    (hc : old.cell? h = some c) : (places.filterMap val).count h = (LiveReg.kept σ places).count h := by
  unfold LiveReg.kept
  induction places with
  | nil => rfl
  | cons l places ih =>
    rw [List.forall_mem_cons] at hval
    have hl : (val l).toList.count h = (l.fixed? σ).toList.count h := by
      have hd := hval.1
      unfold LiveReg.DecodesTo at hd
      split at hd
      · next hp =>
        obtain ⟨k, hk, hnone, -⟩ := hd
        have hne : k ≠ h := fun hkh => by simp [hkh, hc] at hnone
        have hf : l.fixed? σ = none := ValueKind.fixed?_of_payload hp
        simp [hk, hf, hne]
      · rw [hd]
    rw [filterMap_cons_toList, filterMap_cons_toList, List.count_append, List.count_append, hl,
      ih hval.2]

theorem Function.RoomFor.tail (sc : Scene r snap σ (LiveReg.distinct i.live) old) {a : Activation}
    {rest : List Activation} (room : f.RoomFor i σ old (a :: rest)) {innermost : Bool} {frame : Frame}
    (hr : a.RebuiltAs f i σ old heap innermost frame) (g : old.Grows heap frame.refs) :
    f.RoomFor i σ heap rest := by
  intro pre b post hsplit
  obtain ⟨val, hslots, hstack, hval⟩ := hr.contents
  obtain ⟨hknown, hboxes⟩ := room (a :: pre) b post (by rw [hsplit]; rfl)
  simp only [sc.places_grow g]
  refine ⟨fun h hh c hc => ?_, hboxes⟩
  have hlive : old.isLive h := by
    rcases List.mem_append.1 hh with hh | hh
    · obtain ⟨l, hl, hf⟩ := List.mem_filterMap.1 hh
      exact sc.fixed_live (f.places_subset i σ old b hl) hf
    · obtain ⟨l, hl, hf⟩ := List.mem_filterMap.1 hh
      have hl := (List.mem_filter.1 (List.mem_dedup.1 hl)).1
      exact sc.fixed_live (f.places_subset i σ old b hl) hf
  obtain ⟨c₀, hc₀⟩ := Heap.isLive_iff.1 hlive
  have hle := hknown h hh c₀ hc₀
  have hcount := count_filterMap_val hval hc₀
  obtain rfl := Option.some.inj ((g.kept h c₀ hc₀).symm.trans hc)
  rw [List.flatMap_cons, List.count_append] at hle
  simp only [refs_of_contents hslots hstack, hcount]
  omega

theorem Scene.materializeAll (sc : Scene r snap σ (LiveReg.distinct i.live) old) (hs : old.Sound)
    (hreason : r.reason = .ofOpcode i.opcode) {frames : List Activation} {frs : List FrameRecord}
    (hm : List.Forall₂ (FrameRecord.Mirrors f i r) frames frs)
    (hshape : ∀ a ∈ frames, a.slots.length = a.code.slots)
    (hresult : ∀ a ∈ frames, ∀ reg ∈ a.stack, f.HasResult i σ reg)
    (room : f.RoomFor i σ old frames)
    (hnext : ∀ pre a post, frames = pre ++ a :: post →
      ∃ next, (Reason.ofOpcode i.opcode).resumeOffset post.isEmpty a.offset = .ok next) :
    ∃ rebuilt heap', r.materializeAll snap old (frs.map fun fr => (fr, { code := fr.code })) =
        .ok (rebuilt, heap', frs.length) ∧
      heap'.Sound ∧ old.Grows heap' (rebuilt.flatMap Frame.refs) ∧ rebuilt.length = frames.length ∧
      ∀ pre a post, frames = pre ++ a :: post → ∃ frame, rebuilt[pre.length]? = some frame ∧
        a.RebuiltAs f i σ old heap' post.isEmpty frame := by
  induction hm generalizing old with
  | nil => exact ⟨[], old, rfl, hs, .refl old, rfl, by simp⟩
  | @cons a fr rest frs hm hrest ih =>
    rw [List.forall_mem_cons] at hshape hresult
    obtain ⟨next, hresume⟩ := hnext [] a rest rfl
    have hempty : frs.isEmpty = rest.isEmpty := by cases hrest <;> rfl
    obtain ⟨frame, heap₁, hframe, hs₁, g₁, hhead⟩ :=
      sc.materializeFrame hs hm hreason hshape.1 hresult.1 (room [] a rest rfl) hresume
    obtain ⟨rebuilt, heap₂, hall, hs₂, g₂, hlen, hrebuilt⟩ := ih (sc.grow g₁) hs₁ hshape.2 hresult.2
      (room.tail sc hhead g₁) fun pre b post hsplit => hnext (a :: pre) b post (by rw [hsplit]; rfl)
    refine ⟨frame :: rebuilt, heap₂, ?_, hs₂, g₁.trans g₂, by simp [hlen], ?_⟩
    · rw [← hempty] at hframe
      simp [Record.materializeAll, hframe, hall]
    · intro pre b post hsplit
      cases pre with
      | nil =>
        obtain ⟨rfl, rfl⟩ : a = b ∧ rest = post := by simpa using hsplit
        exact ⟨_, rfl, hhead.mono sc (.refl old) fun h _ object => g₂.get?⟩
      | cons x pre =>
        obtain ⟨rfl, hrest⟩ : a = x ∧ rest = pre ++ b :: post := by simpa using hsplit
        obtain ⟨frame, hget, hb⟩ := hrebuilt pre b post hrest
        exact ⟨frame, hget, hb.mono sc g₁ fun _ _ _ ho => ho⟩

end

end Bailout
