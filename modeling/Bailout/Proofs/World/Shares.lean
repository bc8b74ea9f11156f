import Bailout.Proofs.Frame.Shares
import Bailout.Proofs.World.Steps

/-!
# Shares of a world

`World.unclaimed` is what is left of the external shares of a heap once the frames of the chain and the
footers of suspended generators have theirs: the shares of native code and of callers. Each operation
changes it by exactly the references it documents. Rebuilding frames into the chain uses up the native
shares of the record; suspending and resuming move the saved references in and out of a footer.
-/

namespace Bailout

def Chain.refs (c : Chain) : List Handle := c.entries.flatMap fun e => e.frame.refs

/-- The references saved in the footer of a suspended generator. -/
def Footer.saved (f : Footer) : List Handle :=
  if f.isSuspended then f.record.owned (.ofSpill f.spill) else []

namespace Engine

/-- The references saved in footers. -/
def saved (e : Engine) : List Handle := e.footers.flatMap fun p => p.2.saved

/-- The references saved for one generator. -/
def savedFor (e : Engine) (gen : Handle) : List Handle := ((e.footer? gen).map Footer.saved).getD []

/-- The references that native code owns at a published record. -/
def native (e : Engine) (id : DeoptId) (snap : Snapshot) : List Handle :=
  ((e.record? id).map fun r => r.owned snap).getD []

end Engine

namespace World

structure WellFormed (w : World) : Prop where
  sound : w.heap.Sound
  /-- A generator has at most one footer. -/
  footers : (w.engine.footers.map (·.1)).Nodup

/-- The shares that neither heap objects nor frames of the chain nor footers hold. -/
def unclaimed (w : World) (k : Handle) : Int :=
  w.heap.external k - w.chain.refs.count k - w.engine.saved.count k

end World

/-! ## Chains -/

theorem Chain.refs_pushAll (c : Chain) (back : Option FrameId) (frames : List Frame) :
    (c.pushAll back frames).2.refs = c.refs ++ frames.flatMap Frame.refs := by
  induction frames generalizing c back with
  | nil => simp [Chain.pushAll]
  | cons f rest ih =>
    simp only [Chain.pushAll, ih, List.flatMap_cons, ← List.append_assoc]
    simp [Chain.refs, Chain.pushWithBack]

theorem Chain.clear_eq_ok {c c' : Chain} {id : FrameId} {heap heap' : Heap}
    (h : c.clear id heap = .ok (c', heap')) :
    ∃ refs, heap.releaseAll refs = .ok heap' ∧
      ∀ k, c'.refs.count k + refs.count k = c.refs.count k := by
  unfold Chain.clear at h
  obtain ⟨e, he, h⟩ := bind_eq_ok.1 h
  obtain ⟨⟨frame, now⟩, hclear, h⟩ := bind_eq_ok.1 h
  obtain ⟨rfl, rfl⟩ : _ = c' ∧ now = heap' := by simpa using h
  obtain ⟨hrel, hempty⟩ := Frame.clear_eq_ok hclear
  refine ⟨e.frame.refs, hrel, fun k => ?_⟩
  have hget : c.entries[id.index]? = some e := by
    unfold Chain.entry at he
    split at he <;> simp_all
  have := Heap.sum_set_add (l := c.entries.map fun e => e.frame.refs.count k) (i := id.index)
    (n := e.frame.refs.count k) (by simp [hget]) 0
  simpa [Chain.refs, List.count_flatMap, Function.comp_def, List.map_set, hempty] using this

/-! ## Footers -/

namespace Engine

theorem savedFor_eq_nil {e : Engine} {gen : Handle}
    (h : ∀ footer, e.footer? gen = some footer → footer.saved = []) : e.savedFor gen = [] := by
  unfold savedFor
  cases hf : e.footer? gen with
  | none => rfl
  | some footer => exact h footer hf

theorem nodup_eraseFooter {e : Engine} (hn : (e.footers.map (·.1)).Nodup) (gen : Handle) :
    ((e.eraseFooter gen).footers.map (·.1)).Nodup :=
  hn.sublist (List.filter_sublist.map _)

theorem nodup_setFooter {e : Engine} (hn : (e.footers.map (·.1)).Nodup) (gen : Handle) (f : Footer) :
    ((e.setFooter gen f).footers.map (·.1)).Nodup := by
  refine List.nodup_cons.2 ⟨?_, nodup_eraseFooter hn gen⟩
  simp [eraseFooter]

theorem count_saved_eraseFooter {e : Engine} (hn : (e.footers.map (·.1)).Nodup) (gen k : Handle) :
    (e.eraseFooter gen).saved.count k + (e.savedFor gen).count k = e.saved.count k := by
  simp only [saved, savedFor, eraseFooter, footer?]
  generalize e.footers = l at hn
  induction l with
  | nil => simp
  | cons p l ih =>
    obtain ⟨hout, hn⟩ := List.nodup_cons.1 hn
    by_cases hp : p.1 = gen
    · have hkeep : l.filter (·.1 != gen) = l := by
        refine List.filter_eq_self.2 fun q hq => bne_iff_ne.2 fun h => ?_
        exact hout (List.mem_map.2 ⟨q, hq, h.trans hp.symm⟩)
      simp [hp, hkeep, Nat.add_comm]
    · have := ih hn
      simp [hp] at this ⊢
      omega

theorem count_saved_setFooter {e : Engine} (hn : (e.footers.map (·.1)).Nodup) (gen : Handle)
    (f : Footer) (k : Handle) :
    (e.setFooter gen f).saved.count k + (e.savedFor gen).count k =
      e.saved.count k + f.saved.count k := by
  have := count_saved_eraseFooter hn gen k
  simp only [saved, setFooter, List.flatMap_cons, List.count_append] at this ⊢
  omega

end Engine

/-! ## Operations -/

namespace World

variable {w w' : World}

/-- Frames rebuilt into empty targets take their shares from outside. -/
theorem unclaimed_materialize {id : DeoptId} {snap : Snapshot} {targets : List Frame}
    {result : Except EngineError (List Frame)} (hw : w.WellFormed)
    (htargets : targets.flatMap Frame.refs = [])
    (h : w.materialize id snap targets = .ok (result, w')) :
    w'.WellFormed ∧ ∀ k, w'.unclaimed k =
      w.unclaimed k + ((result.toOption.getD []).flatMap Frame.refs).count k := by
  rcases materialize_eq_ok h with ⟨-, rfl, rfl⟩ | ⟨r, frames, heap, n, -, hm, rfl, rfl⟩
  · exact ⟨hw, by simp [Except.toOption]⟩
  · obtain ⟨hs, hx⟩ := Record.external_materialize hw.sound hm
    refine ⟨⟨hs, by simpa [Engine.footers_count] using hw.footers⟩, fun k => ?_⟩
    simp only [unclaimed, Engine.saved, Engine.footers_count, hx, htargets, Except.toOption,
      Option.getD_some, List.count_nil]
    omega

/-- Leaving compiled code uses up exactly the references native code owned. -/
theorem unclaimed_deoptimizeInto {gen : Option Handle} {id : DeoptId} {snap : Snapshot}
    {result : Except EngineError (List FrameId)} (hw : w.WellFormed)
    (h : w.deoptimizeInto gen id snap = .ok (result, w')) :
    w'.WellFormed ∧ ∀ k, w'.unclaimed k = w.unclaimed k - (w.engine.native id snap).count k := by
  rcases deoptimizeInto_eq_ok h with ⟨hnone, -, rfl⟩ |
    ⟨r, frames, heap₁, heap₂, n, engine, hr, hm, hrel, hdeopt, -, rfl⟩
  · exact ⟨hw, by simp [Engine.native, hnone]⟩
  · obtain ⟨hs, hx⟩ := Record.external_materialize hw.sound hm
    have hrel := Record.releaseNative_eq_ok hrel
    have hfoot := Engine.footers_recordDeopt hdeopt
    refine ⟨⟨hs.releaseAll hrel, by simpa [hfoot] using hw.footers⟩, fun k => ?_⟩
    have hnone : ((r.frames.map fun fr => ({ code := fr.code } : Frame)).modifyHead
        fun f => { f with gen }).flatMap Frame.refs = [] := by
      cases r.frames with
      | nil => rfl
      | cons fr rest => simp [List.flatMap_eq_nil_iff, Frame.refs]
    have h₁ := hx k
    have h₂ := Heap.external_releaseAll hrel k
    simp only [hnone, List.count_nil] at h₁
    simp only [unclaimed, Engine.saved, hfoot, Chain.refs_pushAll, List.count_append, Engine.native,
      hr, Option.map_some, Option.getD_some]
    omega

theorem WellFormed.setGenStatus (hw : w.WellFormed) {gen : Handle} {status : GenStatus} {heap : Heap}
    (h : w.heap.setGenStatus gen status = .ok heap) : heap.Sound := by
  obtain ⟨c, code, old, hc, -, rfl⟩ := Heap.setGenStatus_eq_ok h
  exact hw.sound.put hc _

/-- Nothing can be saved in an empty spill area. -/
theorem owned_ofSpill_nil (r : Record) : r.owned (.ofSpill []) = [] := by
  have hread : ∀ loc, ∃ e, (Snapshot.ofSpill []).read loc = .error e := by
    rintro (n | offset)
    · exact ⟨_, rfl⟩
    · cases h : Snapshot.spillIndex offset with
      | error e => exact ⟨e, by simp [Snapshot.read, h]⟩
      | ok i => exact ⟨_, by simp [Snapshot.read, h, Snapshot.ofSpill]; rfl⟩
  refine List.flatMap_eq_nil_iff.2 fun v _ => ?_
  unfold Record.ownedRef? Record.readValue
  split
  · cases v.location with
    | none => simp
    | some loc =>
      obtain ⟨e, he⟩ := hread loc
      simp [he]
  · rfl

/-- A generator that is deoptimized while running has nothing saved, so dropping its footer loses
nothing. -/
theorem unclaimed_deoptimizeRunning {gen : Handle} {id : DeoptId} {snap : Snapshot}
    {result : Except EngineError (List FrameId)} (hw : w.WellFormed)
    (h : w.deoptimizeRunning gen id snap = .ok (result, w')) :
    w'.WellFormed ∧ ∀ k, w'.unclaimed k = w.unclaimed k - (w.engine.native id snap).count k := by
  obtain ⟨heap, hspill, hset, h⟩ := deoptimizeRunning_eq_ok h
  have hsaved : w.engine.savedFor gen = [] := Engine.savedFor_eq_nil fun footer hfooter => by
    simp [Footer.saved, hspill footer hfooter, owned_ofSpill_nil]
  have hs := hw.setGenStatus hset
  obtain ⟨hw', hx⟩ := unclaimed_deoptimizeInto ⟨hs, Engine.nodup_eraseFooter hw.footers gen⟩ h
  refine ⟨hw', fun k => ?_⟩
  have h₁ := hx k
  have h₂ := Heap.external_setGenStatus hset k
  have h₃ := Engine.count_saved_eraseFooter hw.footers gen k
  have h₄ : (w.engine.eraseFooter gen).native id snap = w.engine.native id snap := rfl
  simp only [hsaved, List.count_nil] at h₃
  simp only [unclaimed, h₂, h₄] at h₁ ⊢
  omega

/-- Suspending moves the references in the spill area from native code to the footer. -/
theorem unclaimed_suspend {gen : Handle} {unit : UnitId} {site : DeoptId} {spill : List Word}
    {result : Except EngineError Unit} (hw : w.WellFormed)
    (h : w.suspend gen unit site spill = .ok (result, w')) :
    w'.WellFormed ∧ ∀ k, w'.unclaimed k = w.unclaimed k -
      (if result.isOk then w.engine.native site (.ofSpill spill) else []).count k := by
  obtain ⟨e, rfl, rfl⟩ | ⟨record, heap, rfl, hrecord, -, hfooter, hset, rfl⟩ := suspend_eq_ok h
  · exact ⟨hw, by simp [Except.isOk, Except.toBool]⟩
  · refine ⟨⟨hw.setGenStatus hset, Engine.nodup_setFooter hw.footers _ _⟩, fun k => ?_⟩
    have h₁ := Heap.external_setGenStatus hset k
    have h₂ := Engine.count_saved_setFooter hw.footers gen
      { unit, gen, site, record, spill, status := .suspended } k
    have hsaved : w.engine.savedFor gen = [] := Engine.savedFor_eq_nil fun footer hf => by
      simp [Footer.saved, hfooter footer hf]
    simp only [hsaved, List.count_nil] at h₂
    simp only [unclaimed, h₁, Engine.native, hrecord, Option.map_some, Option.getD_some, Footer.saved,
      Footer.isSuspended, beq_self_eq_true, if_true, Except.isOk, Except.toBool] at h₂ ⊢
    omega

/-! ## Suspended generators -/

theorem savedFor_of_suspendedFooter {gen : Handle} {footer : Footer}
    (h : w.suspendedFooter gen = .ok footer) :
    w.engine.savedFor gen = footer.record.owned (.ofSpill footer.spill) := by
  obtain ⟨hf, hsusp⟩ := suspendedFooter_eq_ok.1 h
  simp [Engine.savedFor, hf, Footer.saved, hsusp]

theorem savedFor_of_suspendedFooter_error {gen : Handle} {e : EngineError}
    (h : w.suspendedFooter gen = .error e) : w.engine.savedFor gen = [] := by
  refine Engine.savedFor_eq_nil fun footer hf => ?_
  have hsusp : ¬ footer.isSuspended := fun hsusp => by
    simp [suspendedFooter_eq_ok.2 ⟨hf, hsusp⟩] at h
  simp [Footer.saved, hsusp]

theorem unclaimed_resume {gen : Handle} {result : Except EngineError Resume} (hw : w.WellFormed)
    (h : w.resume gen = .ok (result, w')) :
    w'.WellFormed ∧ ∀ k, w'.unclaimed k = w.unclaimed k + (w.engine.savedFor gen).count k := by
  rcases resume_eq_ok h with ⟨e, he, -, rfl⟩ | ⟨footer, heap, hfooter, hset, -, rfl⟩
  · exact ⟨hw, by simp [savedFor_of_suspendedFooter_error he]⟩
  · refine ⟨⟨hw.setGenStatus hset, Engine.nodup_setFooter hw.footers _ _⟩, fun k => ?_⟩
    have h₁ := Heap.external_setGenStatus hset k
    have h₂ := Engine.count_saved_setFooter hw.footers gen
      { footer with status := .running, spill := [] } k
    have h₃ : ({ footer with status := .running, spill := [] } : Footer).saved = [] := rfl
    simp only [h₃, List.count_nil] at h₂
    simp only [unclaimed, h₁]
    omega

/-- The frame rebuilt for a suspended generator takes over what its footer saved. -/
theorem unclaimed_deoptSuspended {gen : Handle} {result : Except EngineError Frame}
    (hw : w.WellFormed) (h : w.deoptSuspended gen = .ok (result, w')) :
    w'.WellFormed ∧ ∀ k, w'.unclaimed k =
      w.unclaimed k + (result.toOption.toList.flatMap Frame.refs).count k := by
  rcases deoptSuspended_eq_ok h with ⟨e, -, rfl, rfl⟩ |
    ⟨footer, fr, frame, heap₁, heap₂, engine, hfooter, -, hm, hrel, hdeopt, rfl, rfl⟩
  · exact ⟨hw, by simp [Except.toOption]⟩
  · obtain ⟨hs, hx⟩ := Record.external_materializeFrame hw.sound hm
    have hrel : heap₁.releaseAll _ = .ok heap₂ := Record.releaseNative_eq_ok hrel
    have hfoot : engine.footers = (w.engine.eraseFooter gen).footers := by
      rw [Engine.footers_recordDeopt hdeopt, Engine.footers_count]
    refine ⟨⟨hs.releaseAll hrel, ?_⟩, fun k => ?_⟩
    · rw [hfoot]
      exact Engine.nodup_eraseFooter hw.footers gen
    · have h₀ : ({ code := fr.code } : Frame).refs = [] := by simp [Frame.refs]
      have h₁ := hx k
      have h₂ := Heap.external_releaseAll hrel k
      have h₃ := Engine.count_saved_eraseFooter hw.footers gen k
      rw [savedFor_of_suspendedFooter hfooter] at h₃
      simp only [h₀, List.count_nil] at h₁
      simp only [Engine.saved, ← hfoot] at h₃
      simp only [unclaimed, Engine.saved, Frame.refs, Except.toOption, Option.toList_some,
        List.flatMap_cons, List.flatMap_nil, List.append_nil] at h₁ ⊢
      omega

theorem unclaimed_releaseGenerator {gen : Handle} {found : Bool} (hw : w.WellFormed)
    (h : w.releaseGenerator gen = .ok (found, w')) :
    w'.WellFormed ∧ ∀ k, w'.unclaimed k = w.unclaimed k := by
  rcases releaseGenerator_eq_ok h with ⟨-, -, rfl⟩ | ⟨footer, heap, hfooter, -, hheap, rfl⟩
  · exact ⟨hw, fun _ => rfl⟩
  · have hrel : w.heap.releaseAll (w.engine.savedFor gen) = .ok heap := by
      simp only [Engine.savedFor, hfooter, Option.map_some, Option.getD_some, Footer.saved]
      by_cases hsusp : footer.isSuspended
      · rw [if_pos hsusp] at hheap ⊢
        exact Record.releaseNative_eq_ok hheap
      · rw [if_neg hsusp] at hheap ⊢
        rw [Heap.releaseAll, hheap]
    refine ⟨⟨hw.sound.releaseAll hrel, Engine.nodup_eraseFooter hw.footers gen⟩, fun k => ?_⟩
    have h₁ := Heap.external_releaseAll hrel k
    have h₂ := Engine.count_saved_eraseFooter hw.footers gen k
    simp only [unclaimed]
    omega

end World

end Bailout
