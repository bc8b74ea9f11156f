import Bailout.Proofs.Frame.Shares

/-!
# What rebuilding does to a heap

`old.Moves new`: the second heap comes from the first by taking shares, allocating numbers and releasing
shares. Rebuilding frames and releasing what native code held do nothing else, so what holds of the three
steps holds of them. No such step makes a generator or changes one.
-/

namespace Bailout

namespace Heap

inductive Moves : Heap → Heap → Prop where
  | refl (heap : Heap) : Moves heap heap
  | incref {heap heap' : Heap} {h : Handle} : heap.incref h = .ok heap' → Moves heap heap'
  | number {heap : Heap} {object : Object} : object.kind = .int ∨ object.kind = .float →
      Moves heap (heap.alloc object).2
  | release {heap heap' : Heap} {l : List Handle} : heap.releaseAll l = .ok heap' → Moves heap heap'
  | trans {heap₁ heap₂ heap₃ : Heap} : Moves heap₁ heap₂ → Moves heap₂ heap₃ → Moves heap₁ heap₃

variable {heap heap' : Heap} {h : Handle}

theorem get?_alloc {object object' : Object} (hget : (heap.alloc object).2.get? h = some object') :
    object' = object ∨ heap.get? h = some object' := by
  obtain ⟨c, hc, rfl⟩ := Option.map_eq_some_iff.1 hget
  rw [cell?_eq_some] at hc
  unfold alloc allocCell at hc
  split at hc
  · next i free hfree =>
    by_cases hi : i = h.index
    · subst hi
      obtain ⟨hlt, hnew⟩ := List.getElem?_eq_some_iff.1 hc
      rw [List.getElem_set_self] at hnew
      exact .inl (by rw [← Option.some.inj hnew])
    · rw [List.getElem?_set_ne hi] at hc
      exact .inr (by rw [get?, cell?_eq_some.2 hc, Option.map_some])
  · rcases Nat.lt_or_ge h.index heap.cells.length with hlt | hge
    · rw [List.getElem?_append_left hlt] at hc
      exact .inr (by rw [get?, cell?_eq_some.2 hc, Option.map_some])
    · rw [List.getElem?_append_right hge] at hc
      have hnew := List.mem_of_getElem? hc
      exact .inl (by rw [Option.some.inj (List.mem_singleton.1 hnew)])

theorem get?_incref (hi : heap.incref h = .ok heap') (k : Handle) : heap'.get? k = heap.get? k := by
  obtain ⟨c, hc, -, rfl⟩ := incref_eq_ok.1 hi
  unfold get?
  rw [cell?_put hc]
  split
  · next hk => rw [hk, hc, Option.map_some, Option.map_some]
  · rfl

/-- A generator that is there after a move was there before, in the same state. -/
theorem Moves.generator (m : heap.Moves heap') {code : CodeId} {status : GenStatus}
    (hgen : heap'.get? h = some (.generator code status)) :
    heap.get? h = some (.generator code status) := by
  induction m with
  | refl => exact hgen
  | incref hi => rwa [get?_incref hi] at hgen
  | number hkind =>
    rcases get?_alloc hgen with rfl | hold
    · rcases hkind with hkind | hkind <;> cases hkind
    · exact hold
  | release hrel =>
    obtain ⟨c, hc, hobject⟩ := Option.map_eq_some_iff.1 hgen
    obtain ⟨old, hold, hsame, -⟩ := releaseAll_survivor hrel hc
    rw [get?, hold, Option.map_some, ← hsame, hobject]
  | trans _ _ ih₁ ih₂ => exact ih₁ (ih₂ hgen)

theorem Moves.xdecref {o : Option Handle} (hd : heap.xdecref o = .ok heap') : heap.Moves heap' := by
  rw [xdecref_eq] at hd
  exact .release hd

end Heap

namespace Record

variable {r : Record} {snap : Snapshot} {heap heap' : Heap} {d d' : Decoder}

theorem decodeWord_moves {v : LiveValue} {word : Word} {value : Decoded}
    (h : r.decodeWord heap v word = .ok (value, heap')) : heap.Moves heap' := by
  unfold decodeWord at h
  cases hkind : v.valueKind with
  | object =>
    rw [hkind] at h
    obtain ⟨o, -, h⟩ := bind_eq_ok.1 h
    cases o with
    | none =>
      obtain ⟨-, rfl⟩ := Prod.mk.inj (Except.ok.inj h)
      exact .refl heap
    | some k =>
      by_cases hlive : heap.isLive k
      · simp only [hlive, if_true] at h
        obtain ⟨-, rfl⟩ := Prod.mk.inj (Except.ok.inj h)
        exact .refl heap
      · simp [hlive] at h
  | signed =>
    rw [hkind] at h
    obtain ⟨-, rfl⟩ := Prod.mk.inj (Except.ok.inj h)
    exact .number (.inl rfl)
  | unsigned =>
    rw [hkind] at h
    obtain ⟨-, rfl⟩ := Prod.mk.inj (Except.ok.inj h)
    refine .number (.inl ?_)
    split <;> rfl
  | double =>
    rw [hkind] at h
    obtain ⟨-, rfl⟩ := Prod.mk.inj (Except.ok.inj h)
    exact .number (.inr rfl)
  | bool =>
    rw [hkind] at h
    obtain ⟨⟨k, heap₁⟩, hb, h⟩ := bind_eq_ok.1 h
    obtain ⟨-, rfl⟩ := Prod.mk.inj (Except.ok.inj h)
    obtain ⟨heap₂, hi, hb⟩ := bind_eq_ok.1 hb
    obtain ⟨-, rfl⟩ := Prod.mk.inj (Except.ok.inj hb)
    exact .incref hi

theorem decode_moves {index : LiveIndex} {value : Decoded}
    (h : r.decode snap d index = .ok (value, d')) : d.heap.Moves d'.heap := by
  obtain ⟨-, -, rfl⟩ | ⟨p, v, -, -, ⟨-, rfl⟩ | ⟨-, word, heap, -, hd, rfl⟩⟩ := decode_eq_ok h
  · exact .refl _
  · exact .refl _
  · exact decodeWord_moves hd

theorem decodeSlot_moves {index : LiveIndex} {o : Option Handle}
    (h : r.decodeSlot snap d index = .ok (o, d')) : d.heap.Moves d'.heap := by
  obtain ⟨⟨value, d₁⟩, hd, h⟩ := bind_eq_ok.1 h
  have hmoves := decode_moves hd
  cases hv : value.handle? with
  | none =>
    simp only [hv] at h
    obtain ⟨-, rfl⟩ := Prod.mk.inj (Except.ok.inj h)
    exact hmoves
  | some k =>
    simp only [hv] at h
    obtain ⟨heap, hi, h⟩ := bind_eq_ok.1 h
    obtain ⟨-, rfl⟩ := Prod.mk.inj (Except.ok.inj h)
    exact hmoves.trans (.incref hi)

theorem fillSlots_moves {places : List (LiveIndex × Option Handle)} {values : List (Option Handle)}
    (h : r.fillSlots snap d places = .ok (values, d')) : d.heap.Moves d'.heap := by
  induction places generalizing d values with
  | nil =>
    obtain ⟨-, rfl⟩ := Prod.mk.inj (Except.ok.inj h)
    exact .refl _
  | cons place rest ih =>
    obtain ⟨⟨value, d₁⟩, hslot, h⟩ := bind_eq_ok.1 h
    obtain ⟨heap, hold, h⟩ := bind_eq_ok.1 h
    obtain ⟨⟨values', d₂⟩, hrest, h⟩ := bind_eq_ok.1 h
    obtain ⟨-, rfl⟩ := Prod.mk.inj (Except.ok.inj h)
    exact ((decodeSlot_moves hslot).trans (.xdecref hold)).trans (ih hrest)

theorem fillEntry_moves {entry : StackEntry} {slots : List (Option Handle)}
    (h : r.fillEntry snap d entry = .ok (slots, d')) : d.heap.Moves d'.heap := by
  cases entry with
  | value index =>
    obtain ⟨⟨value, d₁⟩, hslot, h⟩ := bind_eq_ok.1 h
    obtain ⟨-, rfl⟩ := Prod.mk.inj (Except.ok.inj h)
    exact decodeSlot_moves hslot
  | methodPair callable receiver =>
    simp only [fillEntry] at h
    by_cases hdead : callable = LiveIndex.dead
    · rw [if_pos hdead] at h
      obtain ⟨-, rfl⟩ := Prod.mk.inj (Except.ok.inj h)
      exact .refl _
    · rw [if_neg hdead] at h
      obtain ⟨⟨func, d₁⟩, hfunc, h⟩ := bind_eq_ok.1 h
      have hmoves := decode_moves hfunc
      cases hk : func.handle? with
      | none => simp [hk] at h
      | some k =>
        simp only [hk] at h
        obtain ⟨plain, -, h⟩ := bind_eq_ok.1 h
        cases plain with
        | true =>
          obtain ⟨⟨function, d₂⟩, hfunction, h⟩ := bind_eq_ok.1 h
          obtain ⟨⟨self, d₃⟩, hself, h⟩ := bind_eq_ok.1 h
          obtain ⟨-, rfl⟩ := Prod.mk.inj (Except.ok.inj h)
          exact (hmoves.trans (decodeSlot_moves hfunction)).trans (decodeSlot_moves hself)
        | false =>
          obtain ⟨⟨bound, d₂⟩, hbound, h⟩ := bind_eq_ok.1 h
          obtain ⟨-, rfl⟩ := Prod.mk.inj (Except.ok.inj h)
          exact hmoves.trans (decodeSlot_moves hbound)

theorem fillStack_moves {entries : List StackEntry} {stack stack' : List (Option Handle)}
    (h : r.fillStack snap d stack entries = .ok (stack', d')) : d.heap.Moves d'.heap := by
  induction entries generalizing d stack with
  | nil =>
    obtain ⟨-, rfl⟩ := Prod.mk.inj (Except.ok.inj h)
    exact .refl _
  | cons entry rest ih =>
    obtain ⟨⟨slots, d₁⟩, hentry, h⟩ := bind_eq_ok.1 h
    exact (fillEntry_moves hentry).trans (ih h)

theorem materializeFrame_moves {fr : FrameRecord} {innermost : Bool} {target frame : Frame}
    (h : r.materializeFrame snap heap fr innermost target = .ok (frame, heap')) :
    heap.Moves heap' := by
  obtain ⟨-, -, slots, stack, next, d₁, d₂, now, hslots, hstack, hold, -, hdrop, -⟩ :=
    materializeFrame_eq_ok.1 h
  rw [Heap.foldlM_xdecref] at hold
  rw [dropBoxes_eq] at hdrop
  exact (((fillSlots_moves hslots).trans (fillStack_moves hstack)).trans (.release hold)).trans
    (.release hdrop)

theorem materializeAll_moves {pairs : List (FrameRecord × Frame)} {frames : List Frame} {fresh : Nat}
    (h : r.materializeAll snap heap pairs = .ok (frames, heap', fresh)) : heap.Moves heap' := by
  induction pairs generalizing heap frames fresh with
  | nil =>
    obtain ⟨-, h⟩ := Prod.mk.inj (Except.ok.inj h)
    obtain ⟨rfl, -⟩ := Prod.mk.inj h
    exact .refl heap
  | cons pair rest ih =>
    obtain ⟨-, later, hrest, -⟩ | ⟨-, frame, now, later, n, hframe, hrest, -, -⟩ :=
      materializeAll_cons_eq_ok h
    · exact ih hrest
    · exact (materializeFrame_moves hframe).trans (ih hrest)

theorem materialize_moves {targets frames : List Frame} {fresh : Nat}
    (h : r.materialize snap heap targets = .ok (frames, heap', fresh)) : heap.Moves heap' :=
  materializeAll_moves (materialize_eq_ok.1 h).2

theorem releaseNative_moves (h : r.releaseNative snap heap = .ok heap') : heap.Moves heap' :=
  .release (releaseNative_eq_ok h)

end Record

end Bailout
