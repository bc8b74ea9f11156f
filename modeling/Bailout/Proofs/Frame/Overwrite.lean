import Bailout.Proofs.Frame.Content
import Bailout.Proofs.Frame.Moves

/-!
# Rebuilding frames that hold values

A target may hold references already. Place by place the new contents take their shares and the old ones
are given back, so an object that only the old contents kept alive can be gone when its turn comes, and
its handle may be in use again for a number that was boxed meanwhile.

`Record.transfers` lists the shares that the objects among the contents take and the old contents give
back, in the order in which that happens. Run on the heap alone, these transfers make a ghost of the
rebuilding, in which no number is boxed. If the ghost finds every object that it is to take a share of, so
does the rebuilding: `Mirror` is the invariant that ties them, and `materialize_overwrites` the result.
-/

namespace Bailout

/-! ## Places and transfers -/

namespace Record

/-- The live values in the slots of a stack entry, bottom first. A bound callable has an empty slot below
it. -/
def entryPlaces (r : Record) (snap : Snapshot) (heap : Heap) : StackEntry → List LiveIndex
  | .value index => [index]
  | .methodPair callable receiver =>
    match r.content snap callable with
    | .ok (.object h) =>
      if (heap.get? h).any Object.isPlainFunction then [callable, receiver]
      else [LiveIndex.dead, callable]
    | _ => [LiveIndex.dead, callable]

/-- The live values in the slots of a frame and then in its stack, bottom first. -/
def framePlaces (r : Record) (snap : Snapshot) (heap : Heap) (fr : FrameRecord) : List LiveIndex :=
  fr.slots ++ fr.stack.flatMap (r.entryPlaces snap heap)

/-- The share that a place takes, if it is to hold an object. -/
def takes (r : Record) (snap : Snapshot) (index : LiveIndex) : List Transfer :=
  match r.content snap index with
  | .ok (.object h) => [.take h]
  | _ => []

/-- Each slot takes its share and gives back what it held; then the stack takes its shares, from the top
down, and the old stack is given back. -/
def frameTransfers (r : Record) (snap : Snapshot) (heap : Heap) (fr : FrameRecord) (target : Frame) :
    List Transfer :=
  (fr.slots.zip target.slots).flatMap (fun p => r.takes snap p.1 ++ p.2.toList.map .drop) ++
    (fr.stack.reverse.flatMap (fun e => (r.entryPlaces snap heap e).flatMap (r.takes snap)) ++
      target.stack.reduceOption.map .drop)

def transfers (r : Record) (snap : Snapshot) (heap : Heap) (targets : List Frame) : List Transfer :=
  (r.frames.zip targets).flatMap fun p => r.frameTransfers snap heap p.1 p.2

end Record

/-! ## The ghost -/

/-- The ghost of a rebuilding so far: the heap after the transfers alone, and what was placed, objects
apart from primitives. -/
structure Trail where
  ghost : Heap
  kept : List Handle := []
  placed : List (Handle × Object) := []

structure Trail.Le (t t' : Trail) : Prop where
  kept : t.kept ⊆ t'.kept
  placed : t.placed ⊆ t'.placed

/-- What a place holds once it is filled. -/
def Content.Placed (t : Trail) (slot : Option Handle) : Content → Prop
  | .empty => slot = none
  | .object h => slot = some h ∧ h ∈ t.kept
  | .box payload => ∃ h, slot = some h ∧ (h, payload) ∈ t.placed

def Record.Fills (r : Record) (snap : Snapshot) (t : Trail) (index : LiveIndex) (slot : Option Handle) :
    Prop :=
  ∃ content, r.content snap index = .ok content ∧ content.Placed t slot

/-- What the transfers rely on: the shares cover what is given back, and no object is gone when a share
of it is to be taken. -/
structure Heap.Sustains (heap : Heap) (ts : List Transfer) : Prop where
  bools : heap.HasBools
  covers : ∀ k, ((ts.filterMap Transfer.dropped?).count k : Int) ≤ heap.external k
  stays : ∀ h, heap.transferAll ts ≠ .error (.dangling h)

/-- The heap of a rebuilding is that of its ghost, with the primitives boxed so far; `rest` are the
transfers that are still to come. -/
structure Mirror (r : Record) (snap : Snapshot) (heap : Heap) (ts : List Transfer) (d : Decoder)
    (t : Trail) (rest : List Transfer) : Prop where
  ready : d.Ready r
  grows : t.ghost.Grows d.heap (d.boxes ++ t.placed.map (·.1))
  foreign : t.ghost.Foreign (d.boxes ++ t.placed.map (·.1))
  known : ∀ p value, d.decoded[p]?.join = some value →
    ∃ content, r.content snap (p : Nat) = .ok content ∧ content.Decodes d.heap value
  placed : ∀ q ∈ t.placed, d.heap.get? q.1 = some q.2
  split : ∃ done, ts = done ++ rest ∧ heap.transferAll done = .ok t.ghost ∧
    ∀ h ∈ t.kept, .take h ∈ done

section Mirror

variable {r : Record} {snap : Snapshot} {heap : Heap} {ts rest : List Transfer} {d d' : Decoder}
  {t t' : Trail} {index : LiveIndex} {slot : Option Handle}

theorem Trail.Le.refl (t : Trail) : t.Le t := ⟨List.Subset.refl _, List.Subset.refl _⟩

theorem Trail.Le.trans {t'' : Trail} (h : t.Le t') (h' : t'.Le t'') : t.Le t'' :=
  ⟨List.Subset.trans h.kept h'.kept, List.Subset.trans h.placed h'.placed⟩

theorem Record.Fills.mono (hf : r.Fills snap t index slot) (h : t.Le t') :
    r.Fills snap t' index slot := by
  obtain ⟨content, hcontent, hplaced⟩ := hf
  refine ⟨content, hcontent, ?_⟩
  cases content with
  | empty => exact hplaced
  | object k => exact ⟨hplaced.1, h.kept hplaced.2⟩
  | box payload =>
    obtain ⟨k, rfl, hk⟩ := hplaced
    exact ⟨k, rfl, h.placed hk⟩

namespace Mirror

theorem ghost_live {h : Handle} (hts : heap.Sustains ts) (m : Mirror r snap heap ts d t (.take h :: rest)) :
    ∃ c, t.ghost.cell? h = some c := by
  obtain ⟨done, rfl, hrun, -⟩ := m.split
  cases hc : t.ghost.cell? h with
  | some c => exact ⟨c, rfl⟩
  | none =>
    have hgone : t.ghost.transferAll (.take h :: rest) = .error (.dangling h) := by
      simp [Heap.transferAll, Heap.transfer, Heap.incref, Heap.cell, hc]
    refine absurd ?_ (hts.stays h)
    rw [Heap.transferAll_append, hrun, ok_bind, hgone]

theorem covers (hts : heap.Sustains ts) (m : Mirror r snap heap ts d t rest) (k : Handle) :
    ((rest.filterMap Transfer.dropped?).count k : Int) ≤ t.ghost.external k := by
  obtain ⟨done, rfl, hrun, -⟩ := m.split
  have hall := hts.covers k
  rw [List.filterMap_append, List.count_append] at hall
  rw [Heap.external_transferAll hrun]
  omega

theorem bools (hts : heap.Sustains ts) (m : Mirror r snap heap ts d t rest) : d.heap.HasBools := by
  intro b
  obtain ⟨done, -, hrun, -⟩ := m.split
  obtain ⟨n, hn⟩ := hts.bools b
  obtain ⟨k, hk⟩ := Heap.transferAll_immortal hrun hn rfl
  exact ⟨_, m.grows.kept _ _ hk⟩

theorem get?_ghost (m : Mirror r snap heap ts d t rest) {h : Handle} {c : HeapCell}
    (hc : t.ghost.cell? h = some c) : heap.get? h = some c.object ∧ d.heap.get? h = some c.object := by
  obtain ⟨done, -, hrun, -⟩ := m.split
  obtain ⟨old, hold, hobject, -⟩ := Heap.transferAll_survivor hrun hc
  exact ⟨by simp [Heap.get?, hold, hobject], m.grows.get? (by simp [Heap.get?, hc])⟩

/-- The ghost makes transfers, and the heap with it. -/
theorem advance {more : List Transfer} (m : Mirror r snap heap ts d t (more ++ rest))
    {ghost new : Heap} (hghost : t.ghost.transferAll more = .ok ghost) (hs : new.Sound)
    (g : ghost.Grows new (d.boxes ++ t.placed.map (·.1)))
    (hget : ∀ k ∈ d.boxes ++ t.placed.map (·.1), ∀ payload, d.heap.get? k = some payload →
      new.get? k = some payload)
    (kept : List Handle) (hkept : ∀ h ∈ kept, h ∈ t.kept ∨ .take h ∈ more) :
    Mirror r snap heap ts { d with heap := new } { t with ghost, kept } rest where
  ready := ⟨hs, m.ready.length⟩
  grows := g
  foreign := m.foreign.transferAll hghost
  known := by
    intro p value hp
    obtain ⟨content, hcontent, hd⟩ := m.known p value hp
    refine ⟨content, hcontent, hd.mono fun k payload hk => ?_⟩
    exact hget k (List.mem_append_left _ (Decoder.box_subset_boxes hp hk)) payload
  placed q hq :=
    hget q.1 (List.mem_append_right _ (List.mem_map_of_mem hq)) q.2 (m.placed q hq)
  split := by
    obtain ⟨done, hdone, hrun, htaken⟩ := m.split
    refine ⟨done ++ more, by rw [hdone, List.append_assoc], ?_, ?_⟩
    · rw [Heap.transferAll_append, hrun, ok_bind, hghost]
    · intro h hh
      rcases hkept h hh with hold | hnew
      · exact List.mem_append_left _ (htaken h hold)
      · exact List.mem_append_right _ hnew

/-- Where nothing is decoded there are only the primitives that were placed. -/
theorem undecoded {new : Heap} (hs : new.Sound) (g : t.ghost.Grows new (t.placed.map (·.1)))
    (hf : t.ghost.Foreign (t.placed.map (·.1))) (hplaced : ∀ q ∈ t.placed, new.get? q.1 = some q.2)
    (hsplit : ∃ done, ts = done ++ rest ∧ heap.transferAll done = .ok t.ghost ∧
      ∀ h ∈ t.kept, .take h ∈ done) :
    Mirror r snap heap ts ⟨new, List.replicate r.live.length none⟩ t rest := by
  refine ⟨⟨hs, by simp⟩, ?_, ?_, ?_, hplaced, hsplit⟩
  · rwa [Decoder.boxes_replicate]
  · rwa [Decoder.boxes_replicate]
  · intro p value hp
    rw [List.getElem?_replicate] at hp
    split at hp <;> cases hp

theorem start (hs : heap.Sound) (r : Record) (snap : Snapshot) (ts : List Transfer) :
    Mirror r snap heap ts ⟨heap, List.replicate r.live.length none⟩ { ghost := heap } ts := by
  apply undecoded hs (.refl heap)
  · intro h hh
    cases hh
  · intro q hq
    cases hq
  · exact ⟨[], rfl, rfl, fun h hh => by cases hh⟩

/-! ### Decoding -/

theorem record (m : Mirror r snap heap ts d t rest) {p : Nat} {v : LiveValue} (hp : r.live[p]? = some v)
    (hj : d.decoded[p]?.join = none) {value : Decoded} {new : Heap} {content : Content}
    (hcontent : r.content snap (p : Nat) = .ok content) (hd : content.Decodes new value)
    (hs : new.Sound) (g : d.heap.Grows new value.box) (hf : d.heap.Foreign value.box) :
    Mirror r snap heap ts ⟨new, d.decoded.set p (some value)⟩ t rest where
  ready := ⟨hs, by simpa using m.ready.length⟩
  grows := by
    refine (m.grows.trans g).perm (List.perm_iff_count.2 fun k => ?_)
    simp only [List.count_append, Decoder.count_boxes_set (m.ready.vacant hp hj)]
    omega
  foreign := by
    intro h hh c hc
    have hcount := List.count_pos_iff.2 hh
    rw [List.count_append, Decoder.count_boxes_set (m.ready.vacant hp hj)] at hcount
    by_cases hnew : h ∈ value.box
    · have himm := hf h hnew _ (m.grows.kept h c hc)
      exact himm
    · rw [List.count_eq_zero.2 hnew, Nat.add_zero, ← List.count_append] at hcount
      exact m.foreign h (List.count_pos_iff.1 hcount) c hc
  known := by
    intro q value' hq
    by_cases hqp : p = q
    · subst hqp
      have hlt := (List.getElem?_eq_some_iff.1 (m.ready.vacant hp hj)).1
      rw [List.getElem?_set_self hlt] at hq
      obtain rfl := Option.some.inj hq
      exact ⟨content, hcontent, hd⟩
    · rw [List.getElem?_set_ne hqp] at hq
      obtain ⟨content', hcontent', hd'⟩ := m.known q value' hq
      exact ⟨content', hcontent', hd'.mono fun _ _ _ hget => g.get? hget⟩
  placed q hq := g.get? (m.placed q hq)
  split := m.split

/-- Decoding gives what the place is to hold, if an object is still there. -/
theorem decode (hts : heap.Sustains ts) (m : Mirror r snap heap ts d t rest)
    (hlive : ∀ h, r.content snap index = .ok (.object h) → ∃ c, t.ghost.cell? h = some c) :
    Safely (r.decode snap d index) fun out =>
      Mirror r snap heap ts out.2 t rest ∧ out.1.box ⊆ out.2.boxes ∧
        ∃ content, r.content snap index = .ok content ∧ content.Decodes out.2.heap out.1 := by
  cases hv : r.liveValue index with
  | error fault =>
    have hsafe := liveValue_safely r index
    rw [hv] at hsafe
    rw [Record.decode, hv]
    exact hsafe
  | ok o =>
    cases o with
    | none =>
      rw [Record.decode, Record.content, hv]
      exact ⟨m, by simp [Decoded.box], .empty, rfl, rfl⟩
    | some v =>
      obtain ⟨p, rfl, hp⟩ := Record.liveValue_eq_some hv
      simp only [Record.decode, hv, ok_bind, Int.toNat_natCast]
      cases hj : d.decoded[p]?.join with
      | some value =>
        exact ⟨m, Decoder.box_subset_boxes hj, m.known p value hj⟩
      | none =>
        have hsafe := readValue_safely r snap v
        cases hread : r.readValue snap v with
        | error fault =>
          rw [hread] at hsafe
          exact hsafe
        | ok word =>
          have hcontent : r.content snap (p : Nat) = v.valueKind.content word := by
            simp [Record.content, hv, hread]
          have hthere : ∀ h, v.valueKind.content word = .ok (.object h) → d.heap.isLive h := by
            intro h hh
            obtain ⟨c, hc⟩ := hlive h (hcontent.trans hh)
            exact Heap.isLive_iff.2 ⟨_, m.grows.kept h c hc⟩
          refine (decodeWord_safely m.ready.sound (m.bools hts) hthere).bind ?_
          rintro ⟨value, new⟩ ⟨content, hword, hd, hs, g, hf⟩
          refine ⟨m.record hp hj (hcontent.trans hword) hd hs g hf, ?_, content,
            hcontent.trans hword, hd⟩
          have hlt := (List.getElem?_eq_some_iff.1 (m.ready.vacant hp hj)).1
          exact Decoder.box_subset_boxes (p := p) (by simp [hlt])

theorem decodeSlot (hts : heap.Sustains ts) (m : Mirror r snap heap ts d t (r.takes snap index ++ rest)) :
    Safely (r.decodeSlot snap d index) fun out =>
      ∃ t', Mirror r snap heap ts out.2 t' rest ∧ t.Le t' ∧ r.Fills snap t' index out.1 := by
  have hlive : ∀ h, r.content snap index = .ok (.object h) → ∃ c, t.ghost.cell? h = some c := by
    intro h hcontent
    rw [Record.takes, hcontent] at m
    exact m.ghost_live hts
  refine (m.decode hts hlive).bind ?_
  rintro ⟨value, d'⟩ ⟨m', hboxes, content, hcontent, hd⟩
  rw [Record.takes, hcontent] at m'
  cases content with
  | empty =>
    obtain rfl : value = .empty := hd
    exact ⟨t, m', .refl t, .empty, hcontent, rfl⟩
  | object h =>
    obtain rfl : value = .peek h := hd
    obtain ⟨c, hc⟩ := hlive h hcontent
    show Safely (d'.heap.incref h >>= _) _
    by_cases hlt : c.count + (d'.boxes ++ t.placed.map (·.1)).count h < HeapCell.maxCount
    · obtain ⟨ghost, new, hghost, hnew, g⟩ := m'.grows.incref hc hlt
      rw [hnew]
      have hrun : t.ghost.transferAll [.take h] = .ok ghost := by
        simp [Heap.transferAll, Heap.transfer, hghost]
      refine ⟨_, m'.advance hrun (m'.ready.sound.incref hnew) g ?_ (h :: t.kept) ?_,
        ⟨List.subset_cons_self _ _, List.Subset.refl _⟩, .object h, hcontent, rfl, List.mem_cons_self⟩
      · intro k _ payload hk
        rw [Heap.get?_incref hnew, hk]
      · intro k hk
        rcases List.mem_cons.1 hk with rfl | hk
        · exact .inr List.mem_cons_self
        · exact .inl hk
    · simp only [Heap.incref, Heap.cell, m'.grows.kept h c hc, ok_bind, hlt, if_false, throw_bind]
      exact not_false
  | box payload =>
    obtain ⟨h, rfl, hget⟩ := hd
    have hmem : h ∈ d'.boxes := hboxes List.mem_cons_self
    obtain ⟨c, hc⟩ := m'.grows.live h (List.mem_append_left _ hmem)
    show Safely (d'.heap.incref h >>= _) _
    by_cases hlt : c.count < HeapCell.maxCount
    · obtain ⟨new, hnew, g⟩ := Heap.grows_incref hc hlt
      rw [hnew]
      refine ⟨{ t with placed := (h, payload) :: t.placed },
        ⟨⟨m'.ready.sound.incref hnew, m'.ready.length⟩, ?_, ?_, ?_, ?_, m'.split⟩,
        ⟨List.Subset.refl _, List.subset_cons_self _ _⟩, .box payload, hcontent, h, rfl,
        List.mem_cons_self⟩
      · refine (m'.grows.trans g).perm (List.perm_iff_count.2 fun k => ?_)
        simp only [Decoder.boxes, List.map_cons, List.count_append, List.count_cons, List.count_nil]
        omega
      · intro k hk
        rcases List.mem_append.1 hk with hk | hk
        · exact m'.foreign k (List.mem_append_left _ hk)
        · rcases List.mem_cons.1 hk with rfl | hk
          · exact m'.foreign _ (List.mem_append_left _ hmem)
          · exact m'.foreign k (List.mem_append_right _ hk)
      · intro p value hp
        obtain ⟨content, hcontent, hd⟩ := m'.known p value hp
        exact ⟨content, hcontent, hd.mono fun _ _ _ hk => g.get? hk⟩
      · intro q hq
        rcases List.mem_cons.1 hq with rfl | hq
        · exact g.get? hget
        · exact g.get? (m'.placed q hq)
    · simp only [Heap.incref, Heap.cell, hc, ok_bind, hlt, if_false, throw_bind]
      exact not_false

/-! ### Giving back -/

theorem release (hts : heap.Sustains ts) {l : List Handle}
    (m : Mirror r snap heap ts d t (l.map .drop ++ rest)) :
    ∃ new t', d.heap.releaseAll l = .ok new ∧ Mirror r snap heap ts { d with heap := new } t' rest ∧
      t.Le t' := by
  have hcovers : ∀ k, (l.count k : Int) ≤ t.ghost.external k := by
    intro k
    have hall := m.covers hts k
    rw [List.filterMap_append, Heap.filterMap_dropped_drop, List.count_append] at hall
    omega
  obtain ⟨ghost, hghost⟩ := Heap.releaseAll_ok hcovers
  obtain ⟨new, hnew, g⟩ := m.grows.releaseAll_both m.foreign hghost
  rw [← Heap.transferAll_drop] at hghost
  refine ⟨new, { t with ghost }, hnew, m.advance hghost (m.ready.sound.releaseAll hnew) g ?_ t.kept
    fun h hh => .inl hh, ⟨List.Subset.refl _, List.Subset.refl _⟩⟩
  intro k hk payload hget
  exact Heap.get?_of_releaseAll hnew hget (Heap.isLive_iff.2 (g.live k hk))

/-- A frame is done: the decoder gives back its own shares, and the next frame starts afresh. -/
theorem dropBoxes (m : Mirror r snap heap ts d t rest) :
    ∃ new, Record.dropBoxes d = .ok new ∧
      Mirror r snap heap ts ⟨new, List.replicate r.live.length none⟩ t rest := by
  obtain ⟨new, hnew, g⟩ := m.grows.releaseAll fun h hh => m.foreign h (List.mem_append_left _ hh)
  refine ⟨new, by rw [Record.dropBoxes_eq, hnew], ?_⟩
  apply undecoded (m.ready.sound.releaseAll hnew) g
  · exact fun h hh => m.foreign h (List.mem_append_right _ hh)
  · intro q hq
    have hlive := g.live q.1 (List.mem_map_of_mem hq)
    exact Heap.get?_of_releaseAll hnew (m.placed q hq) (Heap.isLive_iff.2 hlive)
  · exact m.split

/-! ### Filling -/

theorem fillSlots (hts : heap.Sustains ts) {places : List (LiveIndex × Option Handle)}
    (m : Mirror r snap heap ts d t
      (places.flatMap (fun p => r.takes snap p.1 ++ p.2.toList.map .drop) ++ rest)) :
    Safely (r.fillSlots snap d places) fun out =>
      ∃ t', Mirror r snap heap ts out.2 t' rest ∧ t.Le t' ∧
        List.Forall₂ (r.Fills snap t') (places.map (·.1)) out.1 := by
  induction places generalizing d t with
  | nil => exact ⟨t, m, .refl t, .nil⟩
  | cons place places ih =>
    obtain ⟨index, old⟩ := place
    rw [List.flatMap_cons, List.append_assoc, List.append_assoc] at m
    refine (m.decodeSlot hts).bind ?_
    rintro ⟨slot, d₁⟩ ⟨t₁, m₁, hle₁, hfills⟩
    obtain ⟨new, t₂, hnew, m₂, hle₂⟩ := m₁.release hts
    simp only [Heap.xdecref_eq, hnew, ok_bind]
    refine (ih m₂).bind ?_
    rintro ⟨slots, d₃⟩ ⟨t₃, m₃, hle₃, hrest⟩
    exact ⟨t₃, m₃, (hle₁.trans hle₂).trans hle₃, .cons (hfills.mono (hle₂.trans hle₃)) hrest⟩

theorem fillPlain (hts : heap.Sustains ts) {callable receiver : LiveIndex}
    (m : Mirror r snap heap ts d t ([callable, receiver].flatMap (r.takes snap) ++ rest)) :
    Safely (do
      let (function, d) ← r.decodeSlot snap d callable
      let (self, d) ← r.decodeSlot snap d receiver
      return ([function, self], d)) fun out =>
      ∃ t', Mirror r snap heap ts out.2 t' rest ∧ t.Le t' ∧
        List.Forall₂ (r.Fills snap t') [callable, receiver] out.1 := by
  simp only [List.flatMap_cons, List.flatMap_nil, List.append_nil, List.append_assoc] at m
  refine (m.decodeSlot hts).bind ?_
  rintro ⟨function, d₁⟩ ⟨t₁, m₁, hle₁, hfunction⟩
  refine (m₁.decodeSlot hts).bind ?_
  rintro ⟨self, d₂⟩ ⟨t₂, m₂, hle₂, hself⟩
  exact ⟨t₂, m₂, hle₁.trans hle₂, .cons (hfunction.mono hle₂) (.cons hself .nil)⟩

theorem fillBound (hts : heap.Sustains ts) {callable : LiveIndex}
    (m : Mirror r snap heap ts d t ([LiveIndex.dead, callable].flatMap (r.takes snap) ++ rest)) :
    Safely (do
      let (bound, d) ← r.decodeSlot snap d callable
      return ([none, bound], d)) fun out =>
      ∃ t', Mirror r snap heap ts out.2 t' rest ∧ t.Le t' ∧
        List.Forall₂ (r.Fills snap t') [LiveIndex.dead, callable] out.1 := by
  simp only [List.flatMap_cons, List.flatMap_nil, List.append_nil, List.append_assoc] at m
  refine Safely.bind (m.decodeSlot hts) ?_
  rintro ⟨bound, d₁⟩ ⟨t₁, m₁, hle, hbound⟩
  exact ⟨t₁, m₁, hle, .cons ⟨.empty, content_dead r snap, rfl⟩ (.cons hbound .nil)⟩

theorem fillEntry (hts : heap.Sustains ts) {entry : StackEntry}
    (m : Mirror r snap heap ts d t
      ((r.entryPlaces snap heap entry).flatMap (r.takes snap) ++ rest)) :
    Safely (r.fillEntry snap d entry) fun out =>
      ∃ t', Mirror r snap heap ts out.2 t' rest ∧ t.Le t' ∧
        List.Forall₂ (r.Fills snap t') (r.entryPlaces snap heap entry) out.1 := by
  cases entry with
  | value index =>
    simp only [Record.entryPlaces, List.flatMap_cons, List.flatMap_nil, List.append_nil] at m ⊢
    refine (m.decodeSlot hts).bind ?_
    rintro ⟨slot, d₁⟩ ⟨t₁, m₁, hle, hfills⟩
    exact ⟨t₁, m₁, hle, .cons hfills .nil⟩
  | methodPair callable receiver =>
    have hlive : ∀ h, r.content snap callable = .ok (.object h) → ∃ c, t.ghost.cell? h = some c := by
      intro h hcontent
      have htakes : r.takes snap callable = [.take h] := by rw [Record.takes, hcontent]
      rw [Record.entryPlaces, hcontent] at m
      simp only at m
      split at m
      · rw [List.flatMap_cons, htakes] at m
        exact m.ghost_live hts
      · rw [List.flatMap_cons, List.flatMap_cons, htakes] at m
        exact m.ghost_live hts
    simp only [Record.fillEntry]
    by_cases hdead : callable = LiveIndex.dead
    · rw [if_pos hdead]
      subst hdead
      exact ⟨t, m, .refl t, .cons ⟨.empty, content_dead r snap, rfl⟩
        (.cons ⟨.empty, content_dead r snap, rfl⟩ .nil)⟩
    · rw [if_neg hdead]
      refine (m.decode hts hlive).bind ?_
      rintro ⟨value, d₁⟩ ⟨m₁, -, content, hcontent, hd⟩
      simp only
      cases content with
      | empty =>
        obtain rfl : value = .empty := hd
        exact not_false
      | object h =>
        obtain rfl : value = .peek h := hd
        obtain ⟨c, hc⟩ := hlive h hcontent
        obtain ⟨hold, hnow⟩ := m₁.get?_ghost hc
        simp only [Decoded.handle?, Heap.isPlainFunction_eq hnow, ok_bind]
        cases hplain : c.object.isPlainFunction with
        | true =>
          have hplaces : r.entryPlaces snap heap (.methodPair callable receiver) =
              [callable, receiver] := by
            simp [Record.entryPlaces, hcontent, hold, hplain]
          rw [hplaces] at m₁ ⊢
          exact m₁.fillPlain hts
        | false =>
          have hplaces : r.entryPlaces snap heap (.methodPair callable receiver) =
              [LiveIndex.dead, callable] := by
            simp [Record.entryPlaces, hcontent, hold, hplain]
          rw [hplaces] at m₁ ⊢
          exact m₁.fillBound hts
      | box payload =>
        obtain ⟨h, rfl, hget⟩ := hd
        simp only [Decoded.handle?, Heap.isPlainFunction_eq hget, isPlainFunction_content hcontent,
          ok_bind]
        have hplaces : r.entryPlaces snap heap (.methodPair callable receiver) =
            [LiveIndex.dead, callable] := by
          rw [Record.entryPlaces, hcontent]
        rw [hplaces] at m₁ ⊢
        exact m₁.fillBound hts

/-- The stack is filled from the top down, below what is there already. -/
theorem fillStack (hts : heap.Sustains ts) {entries : List StackEntry} {stack : List (Option Handle)}
    (m : Mirror r snap heap ts d t
      (entries.flatMap (fun e => (r.entryPlaces snap heap e).flatMap (r.takes snap)) ++ rest)) :
    Safely (r.fillStack snap d stack entries) fun out =>
      ∃ t' filled, Mirror r snap heap ts out.2 t' rest ∧ t.Le t' ∧ out.1 = filled ++ stack ∧
        List.Forall₂ (r.Fills snap t') (entries.reverse.flatMap (r.entryPlaces snap heap)) filled := by
  induction entries generalizing d t stack with
  | nil => exact ⟨t, [], m, .refl t, rfl, .nil⟩
  | cons entry entries ih =>
    rw [List.flatMap_cons, List.append_assoc] at m
    refine (m.fillEntry hts).bind ?_
    rintro ⟨slots, d₁⟩ ⟨t₁, m₁, hle₁, hslots⟩
    refine (ih m₁).mono ?_
    rintro ⟨stack', d₂⟩ ⟨t₂, filled, m₂, hle₂, rfl, hfilled⟩
    refine ⟨t₂, filled ++ slots, m₂, hle₁.trans hle₂, by rw [List.append_assoc], ?_⟩
    rw [List.reverse_cons, List.flatMap_append, List.flatMap_singleton]
    exact List.rel_append hfilled (hslots.imp fun _ _ hfills => hfills.mono hle₂)

/-! ### Frames -/

theorem materializeFrame (hts : heap.Sustains ts) {fr : FrameRecord} {target : Frame} {now : Heap}
    (m : Mirror r snap heap ts ⟨now, List.replicate r.live.length none⟩ t
      (r.frameTransfers snap heap fr target ++ rest)) (innermost : Bool) :
    Safely (r.materializeFrame snap now fr innermost target) fun out =>
      ∃ t', Mirror r snap heap ts ⟨out.2, List.replicate r.live.length none⟩ t' rest ∧ t.Le t' ∧
        List.Forall₂ (r.Fills snap t') (r.framePlaces snap heap fr)
          (out.1.slots ++ out.1.stack) := by
  unfold Record.materializeFrame
  by_cases hcode : target.code.id = fr.code.id
  · by_cases hlen : target.slots.length = fr.slots.length
    · simp only [hcode, hlen, ne_eq, not_true, if_false]
      rw [Record.frameTransfers, List.append_assoc, List.append_assoc] at m
      refine (m.fillSlots hts).bind ?_
      rintro ⟨slots, d₁⟩ ⟨t₁, m₁, hle₁, hslots⟩
      rw [List.map_fst_zip (Nat.le_of_eq hlen.symm)] at hslots
      refine (m₁.fillStack hts).bind ?_
      rintro ⟨stack, d₂⟩ ⟨t₂, filled, m₂, hle₂, rfl, hstack⟩
      obtain ⟨new, t₃, hnew, m₃, hle₃⟩ := m₂.release hts
      simp only [Heap.foldlM_xdecref, hnew, ok_bind]
      refine (resumeOffset_safely r.reason innermost fr.cause).bind ?_
      intro next _
      obtain ⟨last, hlast, m₄⟩ := m₃.dropBoxes
      rw [hlast]
      refine ⟨t₃, m₄, (hle₁.trans hle₂).trans hle₃, ?_⟩
      rw [List.reverse_reverse] at hstack
      rw [List.append_nil]
      exact List.rel_append (hslots.imp fun _ _ hfills => hfills.mono (hle₂.trans hle₃))
        (hstack.imp fun _ _ hfills => hfills.mono hle₃)
    · simp only [hcode, hlen, ne_eq, not_true, not_false_eq_true, if_false, if_true]
      exact not_false
  · simp only [hcode, ne_eq, not_false_eq_true, if_true]
    exact not_false

theorem materializeAll (hts : heap.Sustains ts) {pairs : List (FrameRecord × Frame)}
    (hfresh : ∀ p ∈ pairs, ¬ p.2.materialized) {now : Heap}
    (m : Mirror r snap heap ts ⟨now, List.replicate r.live.length none⟩ t
      (pairs.flatMap fun p => r.frameTransfers snap heap p.1 p.2)) :
    Safely (r.materializeAll snap now pairs) fun out =>
      ∃ t', Mirror r snap heap ts ⟨out.2.1, List.replicate r.live.length none⟩ t' [] ∧ t.Le t' ∧
        List.Forall₂ (fun fr frame => List.Forall₂ (r.Fills snap t') (r.framePlaces snap heap fr)
          (frame.slots ++ frame.stack)) (pairs.map (·.1)) out.1 := by
  induction pairs generalizing now t with
  | nil => exact ⟨t, m, .refl t, .nil⟩
  | cons pair pairs ih =>
    obtain ⟨hnew, hfresh⟩ := List.forall_mem_cons.1 hfresh
    rw [List.flatMap_cons] at m
    rw [Record.materializeAll, if_neg hnew]
    refine (m.materializeFrame hts _).bind ?_
    rintro ⟨frame, now₁⟩ ⟨t₁, m₁, hle₁, hframe⟩
    refine (ih hfresh m₁).bind ?_
    rintro ⟨frames, now₂, fresh⟩ ⟨t₂, m₂, hle₂, hframes⟩
    refine ⟨t₂, m₂, hle₁.trans hle₂, .cons ?_ hframes⟩
    exact hframe.imp fun _ _ hfills => hfills.mono hle₂

end Mirror

/-! ## The result -/

/-- The share counts of a heap account for the given holders. -/
structure Heap.Accounts (heap : Heap) (held : List Handle) : Prop where
  sound : heap.Sound
  bools : heap.HasBools
  held : ∀ k, (held.count k : Int) ≤ heap.external k

/-- What a filled place holds, where `old` is the heap before and `new` the heap after: nothing, the very
object that the word refers to, or a primitive in a box. -/
def Content.HeldBy (old new : Heap) (slot : Option Handle) : Content → Prop
  | .empty => slot = none
  | .object h => slot = some h ∧ new.isLive h ∧ new.get? h = old.get? h
  | .box payload => ∃ h, slot = some h ∧ new.get? h = some payload

/-- What the frames were rebuilt to: every place holds what it is to hold, and as many shares were taken
as the frames hold and given back as the targets held. -/
structure Record.Overwrites (r : Record) (snap : Snapshot) (old : Heap) (targets frames : List Frame)
    (new : Heap) : Prop where
  places : List.Forall₂ (fun fr frame => List.Forall₂
    (fun index slot => ∃ content, r.content snap index = .ok content ∧ content.HeldBy old new slot)
    (r.framePlaces snap old fr) (frame.slots ++ frame.stack)) r.frames frames
  shares : ∀ k, new.external k =
    old.external k + (frames.flatMap Frame.refs).count k - (targets.flatMap Frame.refs).count k

theorem filterMap_dropped_takes (r : Record) (snap : Snapshot) (index : LiveIndex) :
    (r.takes snap index).filterMap Transfer.dropped? = [] := by
  unfold Record.takes
  split <;> rfl

/-- At most the old slots are given back: all of them, if their number is right. -/
theorem count_dropped_slots (r : Record) (snap : Snapshot) (slots : List LiveIndex)
    (old : List (Option Handle)) (k : Handle) :
    (((slots.zip old).flatMap fun p => r.takes snap p.1 ++ p.2.toList.map Transfer.drop).filterMap
      Transfer.dropped?).count k ≤ old.reduceOption.count k := by
  induction slots generalizing old with
  | nil => simp
  | cons index slots ih =>
    cases old with
    | nil => simp
    | cons o old =>
      rw [List.zip_cons_cons, List.flatMap_cons, List.filterMap_append, List.filterMap_append,
        filterMap_dropped_takes, Heap.filterMap_dropped_drop, List.nil_append, List.count_append,
        Heap.reduceOption_cons, List.count_append]
      exact Nat.add_le_add_left (ih old) _

theorem count_dropped_frame (r : Record) (snap : Snapshot) (heap : Heap) (fr : FrameRecord)
    (target : Frame) (k : Handle) :
    ((r.frameTransfers snap heap fr target).filterMap Transfer.dropped?).count k ≤
      target.refs.count k := by
  have hslots := count_dropped_slots r snap fr.slots target.slots k
  have hstack : (fr.stack.reverse.flatMap fun e =>
      (r.entryPlaces snap heap e).flatMap (r.takes snap)).filterMap Transfer.dropped? = [] := by
    simp [List.filterMap_flatMap, filterMap_dropped_takes]
  rw [Record.frameTransfers, List.filterMap_append, List.filterMap_append, hstack,
    Heap.filterMap_dropped_drop, List.nil_append, List.count_append, Frame.refs,
    List.reduceOption_append, List.count_append]
  omega

theorem count_dropped_transfers (r : Record) (snap : Snapshot) (heap : Heap) (frames : List FrameRecord)
    (targets : List Frame) (k : Handle) :
    (((frames.zip targets).flatMap fun p => r.frameTransfers snap heap p.1 p.2).filterMap
      Transfer.dropped?).count k ≤ (targets.flatMap Frame.refs).count k := by
  induction frames generalizing targets with
  | nil => simp
  | cons fr frames ih =>
    cases targets with
    | nil => simp
    | cons target targets =>
      rw [List.zip_cons_cons, List.flatMap_cons, List.filterMap_append, List.count_append,
        List.flatMap_cons, List.count_append]
      exact Nat.add_le_add (count_dropped_frame r snap heap fr target k) (ih targets)

/-- In the end every place holds what it is to hold: an object that was placed has a share more than the
old contents gave back, so it has not been freed. -/
theorem Mirror.heldBy (hts : heap.Sustains ts) (m : Mirror r snap heap ts d t [])
    (hf : r.Fills snap t index slot) :
    ∃ content, r.content snap index = .ok content ∧ content.HeldBy heap d.heap slot := by
  obtain ⟨content, hcontent, hplaced⟩ := hf
  refine ⟨content, hcontent, ?_⟩
  cases content with
  | empty => exact hplaced
  | object h =>
    obtain ⟨rfl, hkept⟩ := hplaced
    obtain ⟨done, rfl, hrun, htaken⟩ := m.split
    have htake : h ∈ done.filterMap Transfer.taken? :=
      List.mem_filterMap.2 ⟨_, htaken h hkept, rfl⟩
    have hpos : 0 < t.ghost.external h := by
      have hcovers := hts.covers h
      have hcount := List.count_pos_iff.2 htake
      rw [List.append_nil] at hcovers
      rw [Heap.external_transferAll hrun]
      omega
    obtain ⟨c, hc, -⟩ := Heap.live_of_external hpos
    obtain ⟨hold, hnow⟩ := m.get?_ghost hc
    exact ⟨rfl, Heap.isLive_iff.2 ⟨_, m.grows.kept h c hc⟩, hnow.trans hold.symm⟩
  | box payload =>
    obtain ⟨h, rfl, hmem⟩ := hplaced
    exact ⟨h, rfl, m.placed _ hmem⟩

theorem materialize_of_sustains {targets : List Frame}
    (hheld : heap.Accounts (targets.flatMap Frame.refs))
    (hfresh : ∀ target ∈ targets, ¬ target.materialized)
    (hts : heap.Sustains (r.transfers snap heap targets)) :
    Safely (r.materialize snap heap targets) fun out =>
      r.Overwrites snap heap targets out.1 out.2.1 := by
  have hnew : ∀ p ∈ r.frames.zip targets, ¬ p.2.materialized := fun p hp =>
    hfresh p.2 (List.of_mem_zip hp).2
  have hall := (Mirror.start hheld.sound r snap _).materializeAll hts hnew
  cases hrun : r.materialize snap heap targets with
  | error fault =>
    unfold Record.materialize at hrun
    split at hrun
    · obtain rfl := Except.error.inj hrun
      exact not_false
    · have hrun' : r.materializeAll snap heap (r.frames.zip targets) = .error fault := hrun
      rw [hrun'] at hall
      exact hall
  | ok out =>
    obtain ⟨frames, heap', fresh⟩ := out
    obtain ⟨hlen, hrun'⟩ := Record.materialize_eq_ok.1 hrun
    rw [hrun'] at hall
    obtain ⟨t, m, -, hframes⟩ := hall
    rw [List.map_fst_zip (Nat.le_of_eq hlen.symm)] at hframes
    refine ⟨hframes.imp fun _ _ hslots => hslots.imp fun _ _ hfills => m.heldBy hts hfills, ?_⟩
    exact (Record.external_materialize hheld.sound hrun).2

theorem content_of_take {h : Handle} (ht : .take h ∈ r.takes snap index) :
    r.content snap index = .ok (.object h) := by
  unfold Record.takes at ht
  split at ht
  · next k hk =>
    obtain rfl : h = k := by simpa using ht
    exact hk
  · cases ht

/-- Shares are taken of objects that live values refer to. -/
theorem content_of_mem_transfers {targets : List Frame} {h : Handle}
    (ht : .take h ∈ r.transfers snap heap targets) : ∃ index, r.content snap index = .ok (.object h) := by
  obtain ⟨⟨fr, target⟩, -, ht⟩ := List.mem_flatMap.1 ht
  rcases List.mem_append.1 ht with ht | ht
  · obtain ⟨⟨index, old⟩, -, ht⟩ := List.mem_flatMap.1 ht
    rcases List.mem_append.1 ht with ht | ht
    · exact ⟨index, content_of_take ht⟩
    · simp at ht
  · rcases List.mem_append.1 ht with ht | ht
    · obtain ⟨entry, -, ht⟩ := List.mem_flatMap.1 ht
      obtain ⟨index, -, ht⟩ := List.mem_flatMap.1 ht
      exact ⟨index, content_of_take ht⟩
    · simp at ht

/-- **Frames that hold values are rebuilt with the right objects, as long as those stay.** If no object
is gone when its place's turn comes, every place ends up with the very object that its word referred to,
or with its primitive in a box, and every reference that the targets held is given back exactly once. So
it is if each of these objects has a share besides those of the targets. -/
theorem Record.materialize_overwrites {targets : List Frame}
    (hheld : heap.Accounts (targets.flatMap Frame.refs))
    (hfresh : ∀ target ∈ targets, ¬ target.materialized) :
    ((∀ h, heap.transferAll (r.transfers snap heap targets) ≠ .error (.dangling h)) →
      Safely (r.materialize snap heap targets) fun out =>
        r.Overwrites snap heap targets out.1 out.2.1) ∧
    ((∀ index h, r.content snap index = .ok (.object h) →
        ((targets.flatMap Frame.refs).count h : Int) < heap.external h) →
      ∀ h, heap.transferAll (r.transfers snap heap targets) ≠ .error (.dangling h)) := by
  have hdropped := count_dropped_transfers r snap heap r.frames targets
  have hcovers : ∀ k, (((r.transfers snap heap targets).filterMap Transfer.dropped?).count k : Int) ≤
      heap.external k := fun k => Int.le_trans (Int.ofNat_le.2 (hdropped k)) (hheld.held k)
  refine ⟨fun hstays => ?_, fun hshares => Heap.transferAll_ne_dangling hcovers fun h ht => ?_⟩
  · exact materialize_of_sustains hheld hfresh ⟨hheld.bools, hcovers, hstays⟩
  · obtain ⟨index, hcontent⟩ := content_of_mem_transfers ht
    exact Int.lt_of_le_of_lt (Int.ofNat_le.2 (hdropped h)) (hshares index h hcontent)

end Mirror

namespace Moving

def code : CodeUnit :=
  { id := ⟨1⟩, name := "f", locals := ["a", "b", "c"], stackSize := 2, length := 16 }

/-- The first slot is to hold an object and the second a number. -/
def record : Record where
  live := [{ reg := ⟨0⟩, location := some (.reg 0), refKind := .borrowed, valueKind := .object },
    { reg := ⟨1⟩, location := some (.reg 1), refKind := .uncounted, valueKind := .signed }]
  frames := [{ code, slots := [0, 1, LiveIndex.dead], stack := [], handlers := [], cause := ⟨4⟩ }]
  reason := .guardFailure

def snap : Snapshot := { regs := [32, 9] }

def heap : Heap := ((Heap.initial.alloc (.int 7)).2.alloc (.int 5)).2

def target : Frame := { code, slots := [some ⟨4⟩, none, some ⟨3⟩] }

theorem accounts {held : List Handle} (h : held.Perm [⟨4⟩, ⟨3⟩]) : heap.Accounts held := by
  refine ⟨(Heap.sound_initial.allocCell _).allocCell _, ?_, ?_⟩
  · intro b
    cases b <;> exact ⟨1, rfl⟩
  · rintro ⟨i⟩
    rw [h.count_eq]
    match i with
    | 0 | 1 | 2 | 3 | 4 => decide
    | i + 5 =>
      simp [Heap.external, Heap.shares, Heap.count?, Heap.cell?, Heap.childRefs, Heap.total, heap,
        Heap.initial, Heap.alloc, Heap.allocImmortal, Heap.allocCell, Object.children]

theorem stays (h : Handle) :
    heap.transferAll (record.transfers snap heap [target]) ≠ .error (.dangling h) := by
  have hok : (heap.transferAll (record.transfers snap heap [target])).toOption.isSome := by
    decide +kernel
  intro herror
  rw [herror] at hok
  cases hok

end Moving

/-- The object moves from the last slot to the first, and the number lands where the freed one was. -/
theorem materialize_overwrites_moving : ∃ frame heap' n,
    Moving.record.materialize Moving.snap Moving.heap [Moving.target] = .ok ([frame], heap', n) ∧
    frame.slots = [some ⟨3⟩, some ⟨4⟩, none] ∧ heap'.get? ⟨3⟩ = Moving.heap.get? ⟨3⟩ ∧
    heap'.get? ⟨4⟩ = some (.int 9) ∧ ∀ k, heap'.external k =
      Moving.heap.external k + ([frame].flatMap Frame.refs).count k -
        ([Moving.target].flatMap Frame.refs).count k := by
  have hsafe := (Record.materialize_overwrites
    (Moving.accounts (.refl ([Moving.target].flatMap Frame.refs))) (by decide)).1 Moving.stays
  have heval : (Moving.record.materialize Moving.snap Moving.heap [Moving.target]).toOption.map
      (fun out => out.1.map fun f => (f.slots, f.stack)) =
      some [([some ⟨3⟩, some ⟨4⟩, none], [])] := by decide +kernel
  cases hrun : Moving.record.materialize Moving.snap Moving.heap [Moving.target] with
  | error fault => simp [hrun, Except.toOption] at heval
  | ok out =>
    obtain ⟨frames, heap', n⟩ := out
    rw [hrun] at hsafe heval
    obtain ⟨hframes, hshares⟩ := hsafe
    obtain ⟨frame, rest, hplaces, hrest, rfl⟩ := List.forall₂_cons_left_iff.1 hframes
    obtain rfl := List.forall₂_nil_left_iff.1 hrest
    obtain ⟨hslots, hstack⟩ : frame.slots = [some ⟨3⟩, some ⟨4⟩, none] ∧ frame.stack = [] := by
      simpa [Except.toOption] using heval
    rw [hslots, hstack] at hplaces
    obtain ⟨⟨content, hcontent, hobject⟩, hplaces⟩ := List.forall₂_cons.1 hplaces
    obtain ⟨⟨content', hcontent', hnumber⟩, -⟩ := List.forall₂_cons.1 hplaces
    obtain rfl : .object ⟨3⟩ = content := Except.ok.inj hcontent
    obtain rfl : .box (.int 9) = content' := Except.ok.inj hcontent'
    obtain ⟨-, -, hpayload⟩ := hobject
    obtain ⟨h, hh, hbox⟩ := hnumber
    obtain rfl := Option.some.inj hh
    exact ⟨frame, heap', n, rfl, hslots, hpayload, hbox, hshares⟩

namespace Moving

/-- The object is to go to a later slot than the one that holds it. -/
def later (slots : List LiveIndex) : Record :=
  { record with frames := [{ code, slots, stack := [], handlers := [], cause := ⟨4⟩ }] }

def swapped : Frame := { code, slots := [some ⟨3⟩, none, some ⟨4⟩] }

end Moving

/-- Share counts that account for the target are not enough: the object was live, and is gone when its
turn comes; or else, its handle names a number that was boxed meanwhile. -/
theorem object_gone_before_its_turn :
    Moving.heap.Accounts ([Moving.swapped].flatMap Frame.refs) ∧ Moving.heap.isLive ⟨3⟩ ∧
    (Moving.later [LiveIndex.dead, 0, LiveIndex.dead]).materialize Moving.snap Moving.heap
      [Moving.swapped] = .error (.freedObject ⟨0⟩ 0 ⟨3⟩) ∧
    ((Moving.later [LiveIndex.dead, 1, 0]).materialize Moving.snap Moving.heap
      [Moving.swapped]).toOption.map (fun out => (out.1.map Frame.slots, out.2.1.get? ⟨3⟩)) =
      some ([[none, some ⟨3⟩, some ⟨3⟩]], some (.int 9)) := by
  exact ⟨Moving.accounts (.swap _ _ _), rfl, by decide +kernel, by decide +kernel⟩

end Bailout
