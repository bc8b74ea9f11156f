import Bailout.Proofs.Engine.Calls
import Bailout.World

/-!
# What each operation does

One lemma for each operation of a world that did not fault: the checks it passed, what it gave back, and
the world it left. An error is always the first case.
-/

namespace Bailout

/-! ## Counters and footers -/

namespace Engine

theorem footers_count (e : Engine) (f : Stats → Stats) : (e.count f).footers = e.footers := by
  unfold count
  split <;> rfl

theorem footers_recordDeopt {e e' : Engine} {r : Record} {n : Nat}
    (h : e.recordDeopt r n = .ok e') : e'.footers = e.footers := by
  unfold recordDeopt at h
  simp only at h
  split at h
  · obtain ⟨fr, -, h⟩ := bind_eq_ok.1 h
    obtain rfl := Except.ok.inj h
    exact footers_count e _
  · obtain rfl := Except.ok.inj h
    exact footers_count e _

theorem recordDeopt_ok {r : Record} (hr : r.frames ≠ []) (e : Engine) (fresh : Nat) :
    ∃ e', e.recordDeopt r fresh = .ok e' := by
  have hlast : ∃ fr, r.innermost = .ok fr := by
    unfold Record.innermost
    rw [List.getLast?_eq_some_getLast hr]
    exact ⟨_, rfl⟩
  obtain ⟨fr, hfr⟩ := hlast
  unfold recordDeopt
  simp only [hfr, ok_bind]
  split <;> exact ⟨_, rfl⟩

theorem footer?_of_footers {e e' : Engine} (h : e'.footers = e.footers) (k : Handle) :
    e'.footer? k = e.footer? k := by
  rw [footer?, footer?, h]

theorem footer?_eraseFooter (e : Engine) (gen k : Handle) :
    (e.eraseFooter gen).footer? k = if k = gen then none else e.footer? k := by
  unfold footer? eraseFooter
  rw [List.find?_filter]
  by_cases hk : k = gen
  · rw [if_pos hk, Option.map_eq_none_iff, List.find?_eq_none]
    intro p _
    simp [hk]
  · rw [if_neg hk]
    congr 2
    funext p
    by_cases hp : p.1 = k
    · simp [hp, hk]
    · simp [hp]

theorem footer?_setFooter (e : Engine) (gen k : Handle) (f : Footer) :
    (e.setFooter gen f).footer? k = if k = gen then some f else e.footer? k := by
  by_cases hk : k = gen
  · simp [setFooter, footer?, hk]
  · have hne : gen ≠ k := fun h => hk h.symm
    have hskip : (e.setFooter gen f).footer? k = (e.eraseFooter gen).footer? k := by
      simp [setFooter, footer?, hne]
    rw [hskip, footer?_eraseFooter]
    simp [hk]

theorem eraseFooter_eq_self {e : Engine} {gen : Handle} :
    e.eraseFooter gen = e ↔ e.footer? gen = none := by
  have hfilter : e.eraseFooter gen = e ↔ e.footers.filter (·.1 != gen) = e.footers :=
    ⟨congrArg Engine.footers, fun h => by rw [Engine.eraseFooter, h]⟩
  rw [hfilter, List.filter_eq_self, Engine.footer?, Option.map_eq_none_iff, List.find?_eq_none]
  simp

end Engine

/-! ## Operations -/

namespace World

variable {w w' : World} {gen : Handle} {id : DeoptId} {snap : Snapshot}

theorem materialize_eq_ok {targets : List Frame} {result : Except EngineError (List Frame)}
    (h : w.materialize id snap targets = .ok (result, w')) :
    (w.engine.record? id = none ∧ result = .error (.unknownDeopt id) ∧ w' = w) ∨
    ∃ r frames heap n, w.engine.record? id = some r ∧
      r.materialize snap w.heap targets = .ok (frames, heap, n) ∧ result = .ok frames ∧
      w' = { w with
        engine := w.engine.count fun s => { s with framesMaterialized := s.framesMaterialized + n }
        heap } := by
  unfold materialize at h
  cases hr : w.engine.record id with
  | error e =>
    obtain ⟨hnone, rfl⟩ := Engine.record_eq_error.1 hr
    rw [hr] at h
    obtain ⟨rfl, rfl⟩ := Prod.mk.inj (Except.ok.inj h)
    exact .inl ⟨hnone, rfl, rfl⟩
  | ok r =>
    rw [hr] at h
    obtain ⟨⟨frames, heap, n⟩, hm, h⟩ := bind_eq_ok.1 h
    obtain ⟨rfl, rfl⟩ := Prod.mk.inj (Except.ok.inj h)
    exact .inr ⟨r, frames, heap, n, Engine.record_eq_ok.1 hr, hm, rfl, rfl⟩

theorem deoptimizeInto_eq_ok {gen : Option Handle} {result : Except EngineError (List FrameId)}
    (h : w.deoptimizeInto gen id snap = .ok (result, w')) :
    (w.engine.record? id = none ∧ result = .error (.unknownDeopt id) ∧ w' = w) ∨
    ∃ r frames heap heap' n engine, w.engine.record? id = some r ∧
      r.materialize snap w.heap ((r.frames.map fun fr => ({ code := fr.code } : Frame)).modifyHead
        fun f => { f with gen }) = .ok (frames, heap, n) ∧
      r.releaseNative snap heap = .ok heap' ∧ w.engine.recordDeopt r n = .ok engine ∧
      result = .ok (w.chain.pushAll w.chain.nearestLinked? frames).1 ∧
      w' = { engine, heap := heap', chain := (w.chain.pushAll w.chain.nearestLinked? frames).2 } := by
  unfold deoptimizeInto at h
  cases hr : w.engine.record id with
  | error e =>
    obtain ⟨hnone, rfl⟩ := Engine.record_eq_error.1 hr
    rw [hr] at h
    obtain ⟨rfl, rfl⟩ := Prod.mk.inj (Except.ok.inj h)
    exact .inl ⟨hnone, rfl, rfl⟩
  | ok r =>
    rw [hr] at h
    obtain ⟨⟨frames, heap, n⟩, hm, h⟩ := bind_eq_ok.1 h
    obtain ⟨heap', hrel, h⟩ := bind_eq_ok.1 h
    obtain ⟨engine, hdeopt, h⟩ := bind_eq_ok.1 h
    obtain ⟨rfl, rfl⟩ := Prod.mk.inj (Except.ok.inj h)
    exact .inr ⟨r, frames, heap, heap', n, engine, Engine.record_eq_ok.1 hr, hm, hrel, hdeopt, rfl, rfl⟩

/-- The footer goes and the status changes before the record is looked up. -/
theorem deoptimizeRunning_eq_ok {result : Except EngineError (List FrameId)}
    (h : w.deoptimizeRunning gen id snap = .ok (result, w')) :
    ∃ heap, (∀ footer, w.engine.footer? gen = some footer → footer.spill = []) ∧
      w.heap.setGenStatus gen .running = .ok heap ∧
      { w with engine := w.engine.eraseFooter gen, heap }.deoptimizeInto (some gen) id snap =
        .ok (result, w') := by
  unfold deoptimizeRunning at h
  cases hf : w.engine.footer? gen with
  | none =>
    rw [hf] at h
    obtain ⟨heap, hset, h⟩ := bind_eq_ok.1 h
    exact ⟨heap, fun footer hfooter => by simp at hfooter, hset, h⟩
  | some footer =>
    rw [hf] at h
    by_cases hspill : footer.spill = []
    · simp only [hspill, List.isEmpty_nil, Bool.not_true, Bool.false_eq_true, if_false] at h
      obtain ⟨heap, hset, h⟩ := bind_eq_ok.1 h
      exact ⟨heap, fun footer' hfooter => Option.some.inj hfooter ▸ hspill, hset, h⟩
    · simp [hspill] at h

/-- There is nothing to hand out for the generator: it has no footer in the suspended state. -/
def Idle (w : World) (gen : Handle) : Prop :=
  ∀ footer, w.engine.footer? gen = some footer → ¬ footer.isSuspended

/-- A generator that suspends is idle before. -/
theorem suspend_eq_ok {unit : UnitId} {site : DeoptId} {spill : List Word}
    {result : Except EngineError Unit} (h : w.suspend gen unit site spill = .ok (result, w')) :
    (∃ e, result = .error e ∧ w' = w) ∨
    ∃ record heap, result = .ok () ∧ w.engine.record? site = some record ∧
      record.reason = .generatorYield ∧ w.Idle gen ∧
      w.heap.setGenStatus gen .suspended = .ok heap ∧
      w' = { w with
        engine := w.engine.setFooter gen { unit, gen, site, record, spill, status := .suspended }
        heap } := by
  unfold suspend at h
  by_cases hunit : (w.engine.unit? unit).isNone
  · rw [if_pos hunit] at h
    obtain ⟨rfl, rfl⟩ := Prod.mk.inj (Except.ok.inj h)
    exact .inl ⟨_, rfl, rfl⟩
  · rw [if_neg hunit] at h
    cases hr : w.engine.record site with
    | error e =>
      rw [hr] at h
      obtain ⟨rfl, rfl⟩ := Prod.mk.inj (Except.ok.inj h)
      exact .inl ⟨e, rfl, rfl⟩
    | ok record =>
      rw [hr] at h
      by_cases hreason : record.reason = .generatorYield
      · have hrecord := Engine.record_eq_ok.1 hr
        simp only [hreason, ne_eq, not_true, if_false] at h
        cases hf : w.engine.footer? gen with
        | none =>
          rw [hf] at h
          obtain ⟨heap, hset, h⟩ := bind_eq_ok.1 h
          obtain ⟨rfl, rfl⟩ := Prod.mk.inj (Except.ok.inj h)
          exact .inr ⟨record, heap, rfl, hrecord, hreason, fun _ hfooter => by simp [hf] at hfooter,
            hset, rfl⟩
        | some footer =>
          rw [hf] at h
          by_cases hsusp : footer.isSuspended
          · simp [hsusp] at h
          · simp only [hsusp, Bool.false_eq_true, if_false] at h
            obtain ⟨heap, hset, h⟩ := bind_eq_ok.1 h
            obtain ⟨rfl, rfl⟩ := Prod.mk.inj (Except.ok.inj h)
            exact .inr ⟨record, heap, rfl, hrecord, hreason,
              fun _ hfooter => Option.some.inj (hf.symm.trans hfooter) ▸ hsusp, hset, rfl⟩
      · simp [hreason] at h

theorem suspendedFooter_eq_ok {footer : Footer} :
    w.suspendedFooter gen = .ok footer ↔ w.engine.footer? gen = some footer ∧ footer.isSuspended := by
  unfold suspendedFooter
  cases hf : w.engine.footer? gen with
  | none => simp
  | some f =>
    by_cases hsusp : f.isSuspended
    · simp only [hsusp, if_true, Except.ok.injEq, Option.some.injEq]
      exact ⟨fun h => ⟨h, h ▸ hsusp⟩, And.left⟩
    · simp only [hsusp, Bool.false_eq_true, if_false, reduceCtorEq, Option.some.injEq, false_iff]
      rintro ⟨rfl, h⟩
      exact hsusp h

theorem suspendedFooter_eq_error (h : w.Idle gen) : ∃ e, w.suspendedFooter gen = .error e := by
  cases hf : w.suspendedFooter gen with
  | error e => exact ⟨e, rfl⟩
  | ok footer =>
    obtain ⟨hfooter, hsusp⟩ := suspendedFooter_eq_ok.1 hf
    exact absurd hsusp (h footer hfooter)

theorem resume_eq_ok {result : Except EngineError Resume} (h : w.resume gen = .ok (result, w')) :
    (∃ e, w.suspendedFooter gen = .error e ∧ result = .error e ∧ w' = w) ∨
    ∃ footer heap, w.suspendedFooter gen = .ok footer ∧
      w.heap.setGenStatus gen .running = .ok heap ∧
      result = .ok ⟨footer.unit, footer.site, footer.spill⟩ ∧
      w' = { w with
        engine := w.engine.setFooter gen { footer with status := .running, spill := [] }
        heap } := by
  unfold resume at h
  cases hf : w.suspendedFooter gen with
  | error e =>
    rw [hf] at h
    obtain ⟨rfl, rfl⟩ := Prod.mk.inj (Except.ok.inj h)
    exact .inl ⟨e, rfl, rfl, rfl⟩
  | ok footer =>
    rw [hf] at h
    obtain ⟨heap, hset, h⟩ := bind_eq_ok.1 h
    obtain ⟨rfl, rfl⟩ := Prod.mk.inj (Except.ok.inj h)
    exact .inr ⟨footer, heap, rfl, hset, rfl, rfl⟩

theorem deoptSuspended_eq_ok {result : Except EngineError Frame}
    (h : w.deoptSuspended gen = .ok (result, w')) :
    (∃ e, w.suspendedFooter gen = .error e ∧ result = .error e ∧ w' = w) ∨
    ∃ footer fr frame heap heap' engine, w.suspendedFooter gen = .ok footer ∧
      footer.record.frames = [fr] ∧
      footer.record.materializeFrame (.ofSpill footer.spill) w.heap fr true { code := fr.code } =
        .ok (frame, heap) ∧
      footer.record.releaseNative (.ofSpill footer.spill) heap = .ok heap' ∧
      ((w.engine.eraseFooter gen).count fun s =>
        { s with suspendedGenerators := s.suspendedGenerators + 1 }).recordDeopt footer.record 1 =
        .ok engine ∧
      result = .ok { frame with gen := some gen, status := .suspended } ∧
      w' = { w with engine, heap := heap' } := by
  unfold deoptSuspended at h
  cases hf : w.suspendedFooter gen with
  | error e =>
    rw [hf] at h
    obtain ⟨rfl, rfl⟩ := Prod.mk.inj (Except.ok.inj h)
    exact .inl ⟨e, rfl, rfl, rfl⟩
  | ok footer =>
    rw [hf] at h
    simp only at h
    split at h
    · next fr hfr =>
      obtain ⟨⟨frame, heap⟩, hm, h⟩ := bind_eq_ok.1 h
      obtain ⟨heap', hrel, h⟩ := bind_eq_ok.1 h
      obtain ⟨engine, hdeopt, h⟩ := bind_eq_ok.1 h
      obtain ⟨rfl, rfl⟩ := Prod.mk.inj (Except.ok.inj h)
      exact .inr ⟨footer, fr, frame, heap, heap', engine, rfl, hfr, hm, hrel, hdeopt, rfl, rfl⟩
    · cases h

theorem releaseGenerator_eq_ok {found : Bool} (h : w.releaseGenerator gen = .ok (found, w')) :
    (w.engine.footer? gen = none ∧ found = false ∧ w' = w) ∨
    ∃ footer heap, w.engine.footer? gen = some footer ∧ found = true ∧
      (if footer.isSuspended then footer.record.releaseNative (.ofSpill footer.spill) w.heap
        else .ok w.heap) = .ok heap ∧
      w' = { w with engine := w.engine.eraseFooter gen, heap } := by
  unfold releaseGenerator at h
  cases hf : w.engine.footer? gen with
  | none =>
    rw [hf] at h
    obtain ⟨rfl, rfl⟩ := Prod.mk.inj (Except.ok.inj h)
    exact .inl ⟨rfl, rfl, rfl⟩
  | some footer =>
    rw [hf] at h
    refine .inr ?_
    by_cases hsusp : footer.isSuspended
    · simp only [hsusp, if_true] at h
      obtain ⟨heap, hrel, h⟩ := bind_eq_ok.1 h
      obtain ⟨rfl, rfl⟩ := Prod.mk.inj (Except.ok.inj h)
      exact ⟨footer, heap, rfl, rfl, by rw [if_pos hsusp]; exact hrel, rfl⟩
    · simp only [hsusp, Bool.false_eq_true, if_false] at h
      obtain ⟨rfl, rfl⟩ := Prod.mk.inj (Except.ok.inj h)
      exact ⟨footer, w.heap, rfl, rfl, by rw [if_neg hsusp], rfl⟩

end World

end Bailout
