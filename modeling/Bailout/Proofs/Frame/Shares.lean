import Bailout.Frame.Basic
import Bailout.Frame.Materialize
import Bailout.Proofs.Heap.Shares
import Bailout.Proofs.Record.Frames

/-!
# Shares taken by rebuilt frames

Rebuilding a frame takes one external share for each reference the frame ends up with, and gives back
one for each it held before: `external_materializeFrame`. While a frame is being rebuilt, the decoder
also holds the first share of every primitive it boxed; `Decoder.external` leaves those out.
-/

namespace Bailout

/-- The references a frame holds a share of. -/
def Frame.refs (f : Frame) : List Handle := (f.slots ++ f.stack).reduceOption

/-- The share a decoded value holds until its frame is done. -/
def Decoded.box : Decoded → List Handle
  | .boxed h => [h]
  | _ => []

namespace Decoder

/-- The first shares of the primitives boxed so far. -/
def boxes (d : Decoder) : List Handle := d.decoded.reduceOption.flatMap Decoded.box

/-- The external shares that the decoder does not hold itself. -/
def external (d : Decoder) (k : Handle) : Int := d.heap.external k - d.boxes.count k

structure Ready (r : Record) (d : Decoder) : Prop where
  sound : d.heap.Sound
  length : d.decoded.length = r.live.length

theorem count_boxes (d : Decoder) (k : Handle) :
    d.boxes.count k = (d.decoded.map fun o => (o.map fun v => v.box.count k).getD 0).sum := by
  unfold boxes
  induction d.decoded with
  | nil => rfl
  | cons o l ih =>
    cases o with
    | none => simpa [List.reduceOption_cons_of_none] using ih
    | some v => simpa [List.reduceOption_cons_of_some, List.count_append] using ih

theorem count_boxes_set {d : Decoder} {p : Nat} (hp : d.decoded[p]? = some none) (v : Decoded)
    (heap : Heap) (k : Handle) :
    (Decoder.boxes ⟨heap, d.decoded.set p (some v)⟩).count k = d.boxes.count k + v.box.count k := by
  rw [count_boxes, count_boxes, List.map_set]
  have := Heap.sum_set_add (l := d.decoded.map fun o => (o.map fun v => v.box.count k).getD 0)
    (i := p) (n := 0) (by simp [hp]) (v.box.count k)
  simpa using this

theorem box_subset_boxes {d : Decoder} {p : Nat} {value : Decoded}
    (hp : d.decoded[p]?.join = some value) : value.box ⊆ d.boxes := by
  intro h hh
  have hmem := List.mem_of_getElem? (Option.join_eq_some_iff.1 hp)
  exact List.mem_flatMap.2 ⟨value, List.reduceOption_mem_iff.2 hmem, hh⟩

theorem boxes_replicate (heap : Heap) (n : Nat) :
    (⟨heap, List.replicate n none⟩ : Decoder).boxes = [] := by
  simp [boxes]

theorem Ready.vacant {r : Record} {d : Decoder} (hr : d.Ready r) {p : Nat} {v : LiveValue}
    (hp : r.live[p]? = some v) (hj : d.decoded[p]?.join = none) : d.decoded[p]? = some none := by
  have hlt : p < d.decoded.length := hr.length ▸ (List.getElem?_eq_some_iff.1 hp).1
  rw [List.getElem?_eq_getElem hlt] at hj ⊢
  simpa using hj

end Decoder

namespace Record

variable {r : Record} {snap : Snapshot} {heap heap' : Heap} {d d' : Decoder}

/-! ## Decoding -/

/-- Boxing takes the first share of the box, and no other. -/
theorem external_decodeWord {v : LiveValue} {word : Word} {value : Decoded} (hs : heap.Sound)
    (h : r.decodeWord heap v word = .ok (value, heap')) :
    heap'.Sound ∧ ∀ k, heap'.external k = heap.external k + value.box.count k := by
  unfold decodeWord at h
  split at h
  · obtain ⟨o, -, h⟩ := bind_eq_ok.1 h
    split at h
    · obtain ⟨rfl, rfl⟩ : Decoded.empty = value ∧ heap = heap' := by simpa using h
      exact ⟨hs, by simp [Decoded.box]⟩
    · split at h
      · obtain ⟨rfl, rfl⟩ : Decoded.peek _ = value ∧ heap = heap' := by simpa using h
        exact ⟨hs, by simp [Decoded.box]⟩
      · cases h
  · obtain ⟨rfl, rfl⟩ : Decoded.boxed _ = value ∧ _ = heap' := by simpa using h
    exact ⟨hs.allocCell _, Heap.external_alloc hs rfl⟩
  · obtain ⟨rfl, rfl⟩ : Decoded.boxed _ = value ∧ _ = heap' := by simpa using h
    exact ⟨hs.allocCell _, Heap.external_alloc hs (by split <;> rfl)⟩
  · obtain ⟨rfl, rfl⟩ : Decoded.boxed _ = value ∧ _ = heap' := by simpa using h
    exact ⟨hs.allocCell _, Heap.external_alloc hs rfl⟩
  · obtain ⟨p, hp, h⟩ := bind_eq_ok.1 h
    obtain ⟨now, hinc, hp⟩ := bind_eq_ok.1 hp
    obtain rfl : (_, now) = p := by simpa using hp
    obtain ⟨rfl, rfl⟩ : Decoded.boxed _ = value ∧ now = heap' := by simpa using h
    exact ⟨hs.incref hinc, Heap.external_incref hinc⟩

/-- Decoding a position recalls its value, or reads it and records it. -/
theorem decode_eq_ok {index : LiveIndex} {value : Decoded}
    (h : r.decode snap d index = .ok (value, d')) :
    (r.liveValue index = .ok none ∧ value = .empty ∧ d' = d) ∨
      ∃ p v, index = (p : Nat) ∧ r.live[p]? = some v ∧
        ((d.decoded[p]?.join = some value ∧ d' = d) ∨
          (d.decoded[p]?.join = none ∧ ∃ word heap, r.readValue snap v = .ok word ∧
            r.decodeWord d.heap v word = .ok (value, heap) ∧
            d' = ⟨heap, d.decoded.set p (some value)⟩)) := by
  unfold decode at h
  obtain ⟨o, ho, h⟩ := bind_eq_ok.1 h
  cases o with
  | none =>
    obtain ⟨rfl, rfl⟩ : Decoded.empty = value ∧ d = d' := by simpa using h
    exact .inl ⟨ho, rfl, rfl⟩
  | some v =>
    obtain ⟨p, rfl, hp⟩ := liveValue_eq_some ho
    refine .inr ⟨p, v, rfl, hp, ?_⟩
    simp only [Int.toNat_natCast] at h
    cases hj : d.decoded[p]?.join with
    | some known =>
      rw [hj] at h
      obtain ⟨rfl, rfl⟩ : known = value ∧ d = d' := by simpa using h
      exact .inl ⟨rfl, rfl⟩
    | none =>
      rw [hj] at h
      obtain ⟨word, hw, h⟩ := bind_eq_ok.1 h
      obtain ⟨⟨value', heap⟩, hd, h⟩ := bind_eq_ok.1 h
      obtain ⟨rfl, rfl⟩ : value' = value ∧ _ = d' := by simpa using h
      exact .inr ⟨rfl, word, heap, hw, hd, rfl⟩

theorem external_decode {index : LiveIndex} {value : Decoded} (hr : d.Ready r)
    (h : r.decode snap d index = .ok (value, d')) :
    d'.Ready r ∧ ∀ k, d'.external k = d.external k := by
  obtain ⟨-, -, rfl⟩ | ⟨p, v, rfl, hp, ⟨-, rfl⟩ | ⟨hj, word, heap, -, hd, rfl⟩⟩ := decode_eq_ok h
  · exact ⟨hr, fun _ => rfl⟩
  · exact ⟨hr, fun _ => rfl⟩
  · obtain ⟨hs, hx⟩ := external_decodeWord hr.sound hd
    refine ⟨⟨hs, by simpa using hr.length⟩, fun k => ?_⟩
    simp only [Decoder.external, hx, Decoder.count_boxes_set (hr.vacant hp hj)]
    omega

theorem external_decodeSlot {index : LiveIndex} {o : Option Handle} (hr : d.Ready r)
    (h : r.decodeSlot snap d index = .ok (o, d')) :
    d'.Ready r ∧ ∀ k, d'.external k = d.external k + o.toList.count k := by
  unfold decodeSlot at h
  obtain ⟨⟨value, d₁⟩, hd, h⟩ := bind_eq_ok.1 h
  obtain ⟨hr₁, hx₁⟩ := external_decode hr hd
  cases hv : value.handle? with
  | none =>
    simp only [hv] at h
    obtain ⟨rfl, rfl⟩ : none = o ∧ d₁ = d' := by simpa using h
    exact ⟨hr₁, fun k => by simp [hx₁]⟩
  | some h₀ =>
    simp only [hv] at h
    obtain ⟨heap, hinc, h⟩ := bind_eq_ok.1 h
    obtain ⟨rfl, rfl⟩ : some h₀ = o ∧ { d₁ with heap } = d' := by simpa using h
    refine ⟨⟨hr₁.sound.incref hinc, hr₁.length⟩, fun k => ?_⟩
    have := Heap.external_incref hinc k
    have := hx₁ k
    simp only [Decoder.external, Decoder.boxes, Option.toList_some] at *
    omega

/-! ## Filling -/

theorem external_fillSlots {places : List (LiveIndex × Option Handle)} {values : List (Option Handle)}
    (hr : d.Ready r) (h : r.fillSlots snap d places = .ok (values, d')) :
    d'.Ready r ∧ ∀ k, d'.external k =
      d.external k + values.reduceOption.count k - (places.map (·.2)).reduceOption.count k := by
  induction places generalizing d values with
  | nil =>
    obtain ⟨rfl, rfl⟩ : [] = values ∧ d = d' := by simpa [fillSlots] using h
    exact ⟨hr, by simp [List.reduceOption_nil]⟩
  | cons place rest ih =>
    obtain ⟨index, old⟩ := place
    simp only [fillSlots] at h
    obtain ⟨⟨value, d₁⟩, hd, h⟩ := bind_eq_ok.1 h
    obtain ⟨heap, hrel, h⟩ := bind_eq_ok.1 h
    obtain ⟨⟨values', d₂⟩, hrest, h⟩ := bind_eq_ok.1 h
    obtain ⟨rfl, rfl⟩ : value :: values' = values ∧ d₂ = d' := by simpa using h
    obtain ⟨hr₁, hx₁⟩ := external_decodeSlot hr hd
    rw [Heap.xdecref_eq] at hrel
    obtain ⟨hr₂, hx₂⟩ := ih (d := { d₁ with heap }) ⟨hr₁.sound.releaseAll hrel, hr₁.length⟩ hrest
    refine ⟨hr₂, fun k => ?_⟩
    have hx := Heap.external_releaseAll hrel k
    have h₁ := hx₁ k
    have h₂ := hx₂ k
    simp only [Decoder.external, Decoder.boxes, List.map_cons, Heap.reduceOption_cons,
      List.count_append] at *
    omega

theorem external_fillEntry {e : StackEntry} {slots : List (Option Handle)} (hr : d.Ready r)
    (h : r.fillEntry snap d e = .ok (slots, d')) :
    d'.Ready r ∧ ∀ k, d'.external k = d.external k + slots.reduceOption.count k := by
  cases e with
  | value index =>
    simp only [fillEntry] at h
    obtain ⟨⟨value, d₁⟩, hd, h⟩ := bind_eq_ok.1 h
    obtain ⟨rfl, rfl⟩ : [value] = slots ∧ d₁ = d' := by simpa using h
    obtain ⟨hr₁, hx₁⟩ := external_decodeSlot hr hd
    exact ⟨hr₁, fun k => by rw [hx₁]; simp [Heap.reduceOption_cons, List.reduceOption_nil]⟩
  | methodPair callable receiver =>
    simp only [fillEntry] at h
    split at h
    · obtain ⟨rfl, rfl⟩ : [none, none] = slots ∧ d = d' := by simpa using h
      exact ⟨hr, fun k => by simp [Heap.reduceOption_cons, List.reduceOption_nil]⟩
    · obtain ⟨⟨func, d₁⟩, hd, h⟩ := bind_eq_ok.1 h
      obtain ⟨hr₁, hx₁⟩ := external_decode hr hd
      simp only at h
      split at h
      · cases h
      · obtain ⟨plain, -, h⟩ := bind_eq_ok.1 h
        split at h
        · obtain ⟨⟨function, d₂⟩, hf, h⟩ := bind_eq_ok.1 h
          obtain ⟨⟨self, d₃⟩, hs, h⟩ := bind_eq_ok.1 h
          obtain ⟨rfl, rfl⟩ : [function, self] = slots ∧ d₃ = d' := by simpa using h
          obtain ⟨hr₂, hx₂⟩ := external_decodeSlot hr₁ hf
          obtain ⟨hr₃, hx₃⟩ := external_decodeSlot hr₂ hs
          refine ⟨hr₃, fun k => ?_⟩
          simp [hx₃, hx₂, hx₁, Heap.reduceOption_cons, List.reduceOption_nil, Int.add_assoc]
        · obtain ⟨⟨bound, d₂⟩, hf, h⟩ := bind_eq_ok.1 h
          obtain ⟨rfl, rfl⟩ : [none, bound] = slots ∧ d₂ = d' := by simpa using h
          obtain ⟨hr₂, hx₂⟩ := external_decodeSlot hr₁ hf
          refine ⟨hr₂, fun k => ?_⟩
          simp [hx₂, hx₁, Heap.reduceOption_cons, List.reduceOption_nil]

/-- The stack grows below what is there already. -/
theorem external_fillStack {entries : List StackEntry} {stack stack' : List (Option Handle)}
    (hr : d.Ready r) (h : r.fillStack snap d stack entries = .ok (stack', d')) :
    d'.Ready r ∧ ∀ k, d'.external k =
      d.external k + stack'.reduceOption.count k - stack.reduceOption.count k := by
  induction entries generalizing d stack with
  | nil =>
    obtain ⟨rfl, rfl⟩ : stack = stack' ∧ d = d' := by simpa [fillStack] using h
    exact ⟨hr, fun k => by omega⟩
  | cons e rest ih =>
    simp only [fillStack] at h
    obtain ⟨⟨slots, d₁⟩, hd, h⟩ := bind_eq_ok.1 h
    simp only at h
    obtain ⟨hr₁, hx₁⟩ := external_fillEntry hr hd
    obtain ⟨hr₂, hx₂⟩ := ih hr₁ h
    refine ⟨hr₂, fun k => ?_⟩
    rw [hx₂, hx₁, List.reduceOption_append, List.count_append]
    omega

theorem dropBoxes_eq (d : Decoder) : dropBoxes d = d.heap.releaseAll d.boxes := by
  unfold dropBoxes
  rw [Heap.foldlM_release (fun o => (o.map Decoded.box).getD []) fun o _ heap => ?_]
  · congr 1
    unfold Decoder.boxes
    induction d.decoded with
    | nil => rfl
    | cons o l ih => cases o <;> simp [Heap.reduceOption_cons, ih]
  · rcases o with _ | _ | _ | h <;> simp [Decoded.box, Heap.releaseAll, Heap.decref]

/-! ## Frames -/

/-- Rebuilding a frame, step by step. The frame keeps the code and the owner of its target. -/
theorem materializeFrame_eq_ok {fr : FrameRecord} {innermost : Bool} {target frame : Frame} :
    r.materializeFrame snap heap fr innermost target = .ok (frame, heap') ↔
      target.code.id = fr.code.id ∧ target.slots.length = fr.slots.length ∧
      ∃ slots stack next d₁ d₂ now,
        r.fillSlots snap ⟨heap, List.replicate r.live.length none⟩ (fr.slots.zip target.slots) =
          .ok (slots, d₁) ∧
        r.fillStack snap d₁ [] fr.stack.reverse = .ok (stack, d₂) ∧
        target.stack.foldlM Heap.xdecref d₂.heap = .ok now ∧
        r.reason.resumeOffset innermost fr.cause = .ok next ∧
        dropBoxes { d₂ with heap := now } = .ok heap' ∧
        frame = { target with
          slots, stack, next
          handlers := fr.handlers
          line := fr.code.line? next
          status := .executing
          materialized := true } := by
  unfold materializeFrame
  by_cases hcode : target.code.id = fr.code.id
  · by_cases hlen : target.slots.length = fr.slots.length
    · simp only [hcode, hlen, ne_eq, not_true, if_false, true_and]
      constructor
      · intro h
        obtain ⟨⟨slots, d₁⟩, hslots, h⟩ := bind_eq_ok.1 h
        obtain ⟨⟨stack, d₂⟩, hstack, h⟩ := bind_eq_ok.1 h
        obtain ⟨now, hold, h⟩ := bind_eq_ok.1 h
        obtain ⟨next, hnext, h⟩ := bind_eq_ok.1 h
        obtain ⟨last, hdrop, h⟩ := bind_eq_ok.1 h
        obtain ⟨rfl, rfl⟩ : _ = frame ∧ last = heap' := by simpa using h
        exact ⟨slots, stack, next, d₁, d₂, now, hslots, hstack, hold, hnext, hdrop, rfl⟩
      · rintro ⟨slots, stack, next, d₁, d₂, now, hslots, hstack, hold, hnext, hdrop, rfl⟩
        simp [hslots, hstack, hold, hnext, hdrop]
    · simp [hcode, hlen]
  · simp [hcode]

/-- A rebuilt frame has a share of every reference it holds, and the target's are given back. -/
theorem external_materializeFrame {fr : FrameRecord} {innermost : Bool} {target frame : Frame}
    (hs : heap.Sound) (h : r.materializeFrame snap heap fr innermost target = .ok (frame, heap')) :
    heap'.Sound ∧ ∀ k, heap'.external k =
      heap.external k + frame.refs.count k - target.refs.count k := by
  obtain ⟨-, hlen, slots, stack, next, d₁, d₂, now, hslots, hstack, hold, -, hdrop, rfl⟩ :=
    materializeFrame_eq_ok.1 h
  obtain ⟨hr₁, hx₁⟩ := external_fillSlots ⟨hs, by simp⟩ hslots
  obtain ⟨hr₂, hx₂⟩ := external_fillStack hr₁ hstack
  rw [Heap.foldlM_xdecref] at hold
  rw [dropBoxes_eq] at hdrop
  refine ⟨(hr₂.sound.releaseAll hold).releaseAll hdrop, fun k => ?_⟩
  have hzip : (fr.slots.zip target.slots).map (·.2) = target.slots :=
    List.map_snd_zip (Nat.le_of_eq hlen)
  have h₀ := Decoder.boxes_replicate heap r.live.length
  have h₁ := hx₁ k
  have h₂ := hx₂ k
  have h₃ := Heap.external_releaseAll hold k
  have h₄ := Heap.external_releaseAll hdrop k
  simp only [Decoder.external, h₀, hzip] at h₁ h₂
  simp only [Decoder.boxes] at h₁ h₂ h₄
  simp only [Frame.refs, List.reduceOption_append, List.count_append, List.reduceOption_nil,
    List.count_nil] at *
  omega

theorem materializeAll_cons_eq_ok {fr : FrameRecord} {target : Frame}
    {rest : List (FrameRecord × Frame)} {frames : List Frame} {fresh : Nat}
    (h : r.materializeAll snap heap ((fr, target) :: rest) = .ok (frames, heap', fresh)) :
    (target.materialized ∧ ∃ later, r.materializeAll snap heap rest = .ok (later, heap', fresh) ∧
      frames = target :: later) ∨
    (¬ target.materialized ∧ ∃ frame now later n,
      r.materializeFrame snap heap fr rest.isEmpty target = .ok (frame, now) ∧
      r.materializeAll snap now rest = .ok (later, heap', n) ∧
      frames = frame :: later ∧ fresh = n + 1) := by
  unfold materializeAll at h
  by_cases hdone : target.materialized
  · rw [if_pos hdone] at h
    obtain ⟨⟨later, now, n⟩, hrest, h⟩ := bind_eq_ok.1 h
    obtain ⟨rfl, rfl, rfl⟩ : target :: later = frames ∧ now = heap' ∧ n = fresh := by simpa using h
    exact .inl ⟨hdone, later, hrest, rfl⟩
  · rw [if_neg hdone] at h
    obtain ⟨⟨frame, now⟩, hframe, h⟩ := bind_eq_ok.1 h
    obtain ⟨⟨later, last, n⟩, hrest, h⟩ := bind_eq_ok.1 h
    obtain ⟨rfl, rfl, rfl⟩ : frame :: later = frames ∧ last = heap' ∧ n + 1 = fresh := by
      simpa using h
    exact .inr ⟨hdone, frame, now, later, n, hframe, hrest, rfl, rfl⟩

theorem materialize_eq_ok {targets frames : List Frame} {fresh : Nat} :
    r.materialize snap heap targets = .ok (frames, heap', fresh) ↔
      targets.length = r.frames.length ∧
        r.materializeAll snap heap (r.frames.zip targets) = .ok (frames, heap', fresh) := by
  unfold materialize
  by_cases hlen : targets.length = r.frames.length
  · simp only [hlen, ne_eq, not_true, if_false, true_and]
  · simp [hlen]

theorem external_materializeAll {pairs : List (FrameRecord × Frame)} {frames : List Frame} {fresh : Nat}
    (hs : heap.Sound) (h : r.materializeAll snap heap pairs = .ok (frames, heap', fresh)) :
    heap'.Sound ∧ ∀ k, heap'.external k = heap.external k + (frames.flatMap Frame.refs).count k -
      ((pairs.map (·.2)).flatMap Frame.refs).count k := by
  induction pairs generalizing heap frames fresh with
  | nil =>
    obtain ⟨rfl, rfl, -⟩ : [] = frames ∧ heap = heap' ∧ 0 = fresh := by
      simpa [materializeAll] using h
    exact ⟨hs, by simp⟩
  | cons pair rest ih =>
    obtain ⟨-, later, hrest, rfl⟩ | ⟨-, frame, now, later, n, hframe, hrest, rfl, -⟩ :=
      materializeAll_cons_eq_ok h
    · obtain ⟨hs', hx⟩ := ih hs hrest
      refine ⟨hs', fun k => ?_⟩
      simp only [hx, List.map_cons, List.flatMap_cons, List.count_append]
      omega
    · obtain ⟨hs₁, hx₁⟩ := external_materializeFrame hs hframe
      obtain ⟨hs₂, hx₂⟩ := ih hs₁ hrest
      refine ⟨hs₂, fun k => ?_⟩
      simp only [hx₂, hx₁, List.map_cons, List.flatMap_cons, List.count_append]
      omega

theorem external_materialize {targets frames : List Frame} {fresh : Nat} (hs : heap.Sound)
    (h : r.materialize snap heap targets = .ok (frames, heap', fresh)) :
    heap'.Sound ∧ ∀ k, heap'.external k = heap.external k + (frames.flatMap Frame.refs).count k -
      (targets.flatMap Frame.refs).count k := by
  obtain ⟨hlen, h⟩ := materialize_eq_ok.1 h
  have := external_materializeAll hs h
  rwa [List.map_snd_zip (Nat.le_of_eq hlen)] at this

/-! ## The shares of compiled code -/

/-- The reference that compiled code owns through a live value. -/
def ownedRef? (r : Record) (snap : Snapshot) (v : LiveValue) : Option Handle :=
  if v.refKind = .owned ∧ v.valueKind = .object then
    match r.readValue snap v >>= Handle.ofWord with
    | .ok o => o
    | .error _ => none
  else none

/-- The references that compiled code owns, one for each owned live value that is not null. -/
def owned (r : Record) (snap : Snapshot) : List Handle :=
  r.live.flatMap fun v => (r.ownedRef? snap v).toList

/-- A live value that was released once can be read, so on any heap its release is that of its
reference. -/
theorem releaseValue_eq {v : LiveValue} (h : r.releaseValue snap heap v = .ok heap') (now : Heap) :
    r.releaseValue snap now v = now.releaseAll (r.ownedRef? snap v).toList := by
  unfold releaseValue at h ⊢
  unfold ownedRef?
  split at h
  · next howned =>
    obtain ⟨word, hword, h⟩ := bind_eq_ok.1 h
    obtain ⟨o, ho, -⟩ := bind_eq_ok.1 h
    rw [if_pos howned, if_pos howned, hword, ok_bind, ok_bind, ho, ok_bind, Heap.xdecref_eq]
  · next howned =>
    rw [if_neg howned, if_neg howned, Option.toList_none, Heap.releaseAll]
    rfl

theorem releaseValue_eq_ok {v : LiveValue} (h : r.releaseValue snap heap v = .ok heap') :
    heap.releaseAll (r.ownedRef? snap v).toList = .ok heap' :=
  (releaseValue_eq h heap).symm.trans h

theorem releaseNative_eq_ok (h : r.releaseNative snap heap = .ok heap') :
    heap.releaseAll (r.owned snap) = .ok heap' :=
  Heap.releaseAll_of_foldlM (f := r.releaseValue snap) (fun v => (r.ownedRef? snap v).toList)
    (fun _ _ _ h => releaseValue_eq_ok h) h

end Record

/-! ## Clearing -/

theorem Frame.clear_eq_ok {f f' : Frame} {heap heap' : Heap} (h : f.clear heap = .ok (f', heap')) :
    heap.releaseAll f.refs = .ok heap' ∧ f'.refs = [] := by
  unfold Frame.clear at h
  obtain ⟨now, hrel, h⟩ := bind_eq_ok.1 h
  rw [Heap.foldlM_xdecref] at hrel
  obtain ⟨rfl, rfl⟩ : _ = f' ∧ now = heap' := by simpa using h
  refine ⟨hrel, ?_⟩
  simp [Frame.refs]

end Bailout
