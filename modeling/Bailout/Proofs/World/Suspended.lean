import Bailout.Proofs.Frame.Moves
import Bailout.Proofs.World.Calls

/-!
# Suspended generators

What a generator saved when it suspended is there until somebody asks for it, whatever else is called
in between; and it is handed out once. A call can change the footer only of the generator it names
(`World.call_footers`), and no call makes a generator object or changes one that it does not name
(`World.call_generator`).
-/

namespace Bailout

theorem Heap.setGenStatus_ok {heap : Heap} {gen : Handle} {code : CodeId} {old : GenStatus}
    (h : heap.get? gen = some (.generator code old)) (status : GenStatus) :
    ∃ heap', heap.setGenStatus gen status = .ok heap' := by
  obtain ⟨c, hc, hobject⟩ := Option.map_eq_some_iff.1 h
  have hcell := cell_eq_ok.2 hc
  have hget : heap.get gen = .ok (.generator code old) := by
    rw [Heap.get, hcell, ← hobject]
    rfl
  refine ⟨heap.put gen (some { c with object := .generator code status }), ?_⟩
  rw [setGenStatus, hget, ok_bind]
  change heap.set gen (.generator code status) = _
  rw [Heap.set, hcell]
  rfl

theorem Heap.get?_setGenStatus {heap heap' : Heap} {gen k : Handle} {status : GenStatus}
    (h : heap.setGenStatus gen status = .ok heap') (hk : k ≠ gen) : heap'.get? k = heap.get? k := by
  obtain ⟨c, code, old, hc, -, rfl⟩ := setGenStatus_eq_ok h
  rw [get?, get?, cell?_put hc, if_neg hk]

theorem Heap.get?_setGenStatus_self {heap heap' : Heap} {gen : Handle} {status : GenStatus}
    (h : heap.setGenStatus gen status = .ok heap') :
    ∃ code, heap'.get? gen = some (.generator code status) := by
  obtain ⟨c, code, old, hc, -, rfl⟩ := setGenStatus_eq_ok h
  exact ⟨code, by rw [get?, cell?_put hc, if_pos rfl, Option.map_some]⟩

namespace World

/-- The generator that a call names. -/
def Call.gen? : Call → Option Handle
  | .deoptimizeRunning gen _ _ => some gen
  | .suspend gen _ _ _ => some gen
  | .resume gen => some gen
  | .deoptSuspended gen => some gen
  | .releaseGenerator gen => some gen
  | _ => none

/-- Nothing is saved for the generator, and only a new suspension will save anything: until then,
resuming and rebuilding it return errors and change nothing. -/
def Spent (w : World) (gen : Handle) : Prop :=
  ∀ later w', w.run later = .ok w' →
    (∀ c ∈ later, ∀ unit site spill, c ≠ .suspend gen unit site spill) →
    (∃ e, w'.resume gen = .ok (.error e, w')) ∧ ∃ e, w'.deoptSuspended gen = .ok (.error e, w')

variable {w w' : World} {c : Call} {reply : Except EngineError Reply} {gen : Handle}

/-! ## One call -/

theorem footers_deoptimizeInto {gen : Option Handle} {site : DeoptId} {snap : Snapshot}
    {result : Except EngineError (List FrameId)}
    (h : w.deoptimizeInto gen site snap = .ok (result, w')) :
    w'.engine.footers = w.engine.footers := by
  rcases deoptimizeInto_eq_ok h with ⟨-, -, rfl⟩ |
    ⟨r, frames, heap, heap', n, engine, -, -, -, hdeopt, -, rfl⟩
  · rfl
  · exact Engine.footers_recordDeopt hdeopt

theorem moves_deoptimizeInto {gen : Option Handle} {site : DeoptId} {snap : Snapshot}
    {result : Except EngineError (List FrameId)}
    (h : w.deoptimizeInto gen site snap = .ok (result, w')) : w.heap.Moves w'.heap := by
  rcases deoptimizeInto_eq_ok h with ⟨-, -, rfl⟩ |
    ⟨r, frames, heap, heap', n, engine, -, hm, hrel, -, -, rfl⟩
  · exact .refl _
  · exact (Record.materialize_moves hm).trans (Record.releaseNative_moves hrel)

/-- The footers after a call: as they were, or without the footer of the generator it names, or with a
new one for it, which is that of a suspended generator only if the call suspends it. -/
theorem call_footers (h : w.call c = .ok (reply, w')) :
    w'.engine.footers = w.engine.footers ∨
    ∃ gen, c.gen? = some gen ∧
      (w'.engine.footers = (w.engine.eraseFooter gen).footers ∨
      ∃ footer, w'.engine.footers = (w.engine.setFooter gen footer).footers ∧
        (footer.isSuspended → ∃ unit site spill, c = .suspend gen unit site spill)) := by
  cases c with
  | engine c =>
    obtain ⟨⟨result, engine⟩, hc, h⟩ := map_eq_ok.1 h
    obtain ⟨-, rfl⟩ := Prod.mk.inj h
    exact .inl (Engine.footers_perform hc)
  | materialize site snap targets =>
    obtain ⟨result, h, -⟩ := answer_eq_ok h
    rcases materialize_eq_ok h with ⟨-, -, rfl⟩ | ⟨r, frames, heap, n, -, -, -, rfl⟩
    · exact .inl rfl
    · exact .inl (Engine.footers_count _ _)
  | deoptimize site snap =>
    obtain ⟨result, h, -⟩ := answer_eq_ok h
    exact .inl (footers_deoptimizeInto h)
  | deoptimizeRunning gen site snap =>
    obtain ⟨result, h, -⟩ := answer_eq_ok h
    obtain ⟨heap, -, -, h⟩ := deoptimizeRunning_eq_ok h
    exact .inr ⟨gen, rfl, .inl (footers_deoptimizeInto h)⟩
  | suspend gen unit site spill =>
    obtain ⟨result, h, -⟩ := answer_eq_ok h
    rcases suspend_eq_ok h with ⟨_, -, rfl⟩ | ⟨record, heap, -, -, -, -, -, rfl⟩
    · exact .inl rfl
    · exact .inr ⟨gen, rfl, .inr ⟨_, rfl, fun _ => ⟨unit, site, spill, rfl⟩⟩⟩
  | resume gen =>
    obtain ⟨result, h, -⟩ := answer_eq_ok h
    rcases resume_eq_ok h with ⟨_, -, -, rfl⟩ | ⟨footer, heap, -, -, -, rfl⟩
    · exact .inl rfl
    · refine .inr ⟨gen, rfl, .inr ⟨_, rfl, fun hsusp => ?_⟩⟩
      cases hsusp
  | deoptSuspended gen =>
    obtain ⟨result, h, -⟩ := answer_eq_ok h
    rcases deoptSuspended_eq_ok h with ⟨_, -, -, rfl⟩ |
      ⟨footer, fr, frame, heap, heap', engine, -, -, -, -, hdeopt, -, rfl⟩
    · exact .inl rfl
    · refine .inr ⟨gen, rfl, .inl ?_⟩
      change engine.footers = _
      rw [Engine.footers_recordDeopt hdeopt, Engine.footers_count]
  | releaseGenerator gen =>
    obtain ⟨⟨found, w₁⟩, hrelease, hr⟩ := map_eq_ok.1 h
    obtain ⟨-, rfl⟩ := Prod.mk.inj hr
    rcases releaseGenerator_eq_ok hrelease with ⟨-, -, rfl⟩ | ⟨footer, heap, -, -, -, rfl⟩
    · exact .inl rfl
    · exact .inr ⟨gen, rfl, .inl rfl⟩

/-- The heap after a call: shares and numbers move, after the call has set the status of the generator
it names. -/
theorem call_heap (h : w.call c = .ok (reply, w')) :
    w.heap.Moves w'.heap ∨
    ∃ gen status heap, c.gen? = some gen ∧ w.heap.setGenStatus gen status = .ok heap ∧
      heap.Moves w'.heap := by
  cases c with
  | engine c =>
    obtain ⟨⟨result, engine⟩, -, h⟩ := map_eq_ok.1 h
    obtain ⟨-, rfl⟩ := Prod.mk.inj h
    exact .inl (.refl _)
  | materialize site snap targets =>
    obtain ⟨result, h, -⟩ := answer_eq_ok h
    rcases materialize_eq_ok h with ⟨-, -, rfl⟩ | ⟨r, frames, heap, n, -, hm, -, rfl⟩
    · exact .inl (.refl _)
    · exact .inl (Record.materialize_moves hm)
  | deoptimize site snap =>
    obtain ⟨result, h, -⟩ := answer_eq_ok h
    exact .inl (moves_deoptimizeInto h)
  | deoptimizeRunning gen site snap =>
    obtain ⟨result, h, -⟩ := answer_eq_ok h
    obtain ⟨heap, -, hset, h⟩ := deoptimizeRunning_eq_ok h
    exact .inr ⟨gen, .running, heap, rfl, hset, moves_deoptimizeInto h⟩
  | suspend gen unit site spill =>
    obtain ⟨result, h, -⟩ := answer_eq_ok h
    rcases suspend_eq_ok h with ⟨_, -, rfl⟩ | ⟨record, heap, -, -, -, -, hset, rfl⟩
    · exact .inl (.refl _)
    · exact .inr ⟨gen, .suspended, heap, rfl, hset, .refl _⟩
  | resume gen =>
    obtain ⟨result, h, -⟩ := answer_eq_ok h
    rcases resume_eq_ok h with ⟨_, -, -, rfl⟩ | ⟨footer, heap, -, hset, -, rfl⟩
    · exact .inl (.refl _)
    · exact .inr ⟨gen, .running, heap, rfl, hset, .refl _⟩
  | deoptSuspended gen =>
    obtain ⟨result, h, -⟩ := answer_eq_ok h
    rcases deoptSuspended_eq_ok h with ⟨_, -, -, rfl⟩ |
      ⟨footer, fr, frame, heap, heap', engine, -, -, hm, hrel, -, -, rfl⟩
    · exact .inl (.refl _)
    · exact .inl ((Record.materializeFrame_moves hm).trans (Record.releaseNative_moves hrel))
  | releaseGenerator gen =>
    obtain ⟨⟨found, w₁⟩, hrelease, hr⟩ := map_eq_ok.1 h
    obtain ⟨-, rfl⟩ := Prod.mk.inj hr
    rcases releaseGenerator_eq_ok hrelease with ⟨-, -, rfl⟩ | ⟨footer, heap, -, -, hrel, rfl⟩
    · exact .inl (.refl _)
    · by_cases hsusp : footer.isSuspended
      · rw [if_pos hsusp] at hrel
        exact .inl (Record.releaseNative_moves hrel)
      · rw [if_neg hsusp] at hrel
        obtain rfl := Except.ok.inj hrel
        exact .inl (.refl _)

theorem call_footer_other (h : w.call c = .ok (reply, w')) (hc : c.gen? ≠ some gen) :
    w'.engine.footer? gen = w.engine.footer? gen := by
  rcases call_footers h with hsame | ⟨k, hk, herase | ⟨footer, hset, -⟩⟩
  · exact Engine.footer?_of_footers hsame gen
  · have hne : gen ≠ k := fun hgen => hc (hgen ▸ hk)
    rw [Engine.footer?_of_footers herase, Engine.footer?_eraseFooter, if_neg hne]
  · have hne : gen ≠ k := fun hgen => hc (hgen ▸ hk)
    rw [Engine.footer?_of_footers hset, Engine.footer?_setFooter, if_neg hne]

/-- Only suspending a generator makes a suspended footer. -/
theorem call_idle (h : w.call c = .ok (reply, w'))
    (hc : ∀ unit site spill, c ≠ .suspend gen unit site spill) (hidle : w.Idle gen) :
    w'.Idle gen := by
  intro footer hfooter
  rcases call_footers h with hsame | ⟨k, hk, herase | ⟨new, hset, hnew⟩⟩
  · rw [Engine.footer?_of_footers hsame] at hfooter
    exact hidle footer hfooter
  · rw [Engine.footer?_of_footers herase, Engine.footer?_eraseFooter] at hfooter
    split at hfooter
    · cases hfooter
    · exact hidle footer hfooter
  · rw [Engine.footer?_of_footers hset, Engine.footer?_setFooter] at hfooter
    split at hfooter
    · next hgen =>
      obtain rfl := Option.some.inj hfooter
      intro hsusp
      obtain ⟨unit, site, spill, rfl⟩ := hnew hsusp
      exact hc unit site spill (by rw [hgen])
    · exact hidle footer hfooter

theorem call_generator (h : w.call c = .ok (reply, w')) (hc : c.gen? ≠ some gen) {code : CodeId}
    {status : GenStatus} (hgen : w'.heap.get? gen = some (.generator code status)) :
    w.heap.get? gen = some (.generator code status) := by
  rcases call_heap h with hmoves | ⟨k, status', heap, hk, hset, hmoves⟩
  · exact hmoves.generator hgen
  · have hne : gen ≠ k := fun hgen => hc (hgen ▸ hk)
    rw [← Heap.get?_setGenStatus hset hne]
    exact hmoves.generator hgen

/-! ## Runs -/

theorem run_induct (P : World → Prop) {calls : List Call}
    (hcall : ∀ c ∈ calls, ∀ w w' reply, P w → w.call c = .ok (reply, w') → P w')
    (h : w.run calls = .ok w') (hw : P w) : P w' := by
  refine foldlM_induct P ?_ hw h
  intro c hc w w' hw h
  obtain ⟨⟨reply, w₁⟩, hcalled, rfl⟩ := map_eq_ok.1 h
  exact hcall c hc w w₁ reply hw hcalled

theorem spent_of_footer (h : w.Idle gen) : w.Spent gen := by
  intro later w' hrun hlater
  have hidle := run_induct (fun w => w.Idle gen)
    (fun c hc _ _ _ hw hcall => call_idle hcall (hlater c hc) hw) hrun h
  obtain ⟨e, he⟩ := suspendedFooter_eq_error hidle
  constructor
  · refine ⟨e, ?_⟩
    rw [resume, he]
    rfl
  · refine ⟨e, ?_⟩
    rw [deoptSuspended, he]
    rfl

/-! ## Handing the state out -/

theorem materialize_single {r : Record} {fr : FrameRecord} (hfr : r.frames = [fr]) (snap : Snapshot)
    (heap : Heap) : r.materialize snap heap [{ code := fr.code }] =
      (fun (frame, heap) => ([frame], heap, 1)) <$>
        r.materializeFrame snap heap fr true { code := fr.code } := by
  unfold Record.materialize
  rw [hfr]
  simp only [List.length_singleton, ne_eq, not_true, if_false, List.zip_cons_cons, List.zip_nil_right]
  have hfresh : ¬ ({ code := fr.code } : Frame).materialized := Bool.false_ne_true
  rw [Record.materializeAll, if_neg hfresh]
  change (r.materializeFrame snap heap fr true { code := fr.code } >>= _) = _
  cases r.materializeFrame snap heap fr true { code := fr.code } with
  | error fault => rfl
  | ok result => rfl

/-- Rebuilding a suspended generator, for a record of one frame, does what rebuilding the record from the
saved spill area and releasing its references do. -/
theorem deoptSuspended_eq {footer : Footer} {fr : FrameRecord}
    (hfooter : w.suspendedFooter gen = .ok footer) (hfr : footer.record.frames = [fr]) :
    ∃ engine, engine.footer? gen = none ∧ w.deoptSuspended gen = (do
      let (frames, heap, _) ←
        footer.record.materialize (.ofSpill footer.spill) w.heap [{ code := fr.code }]
      let heap ← footer.record.releaseNative (.ofSpill footer.spill) heap
      let frame := frames.headD { code := fr.code }
      return (.ok { frame with gen := some gen, status := .suspended }, { w with engine, heap })) := by
  have hne : footer.record.frames ≠ [] := by rw [hfr]; exact List.cons_ne_nil fr []
  obtain ⟨engine, hengine⟩ := Engine.recordDeopt_ok hne
    ((w.engine.eraseFooter gen).count fun s =>
      { s with suspendedGenerators := s.suspendedGenerators + 1 }) 1
  refine ⟨engine, ?_, ?_⟩
  · have hfooters : engine.footers = (w.engine.eraseFooter gen).footers := by
      rw [Engine.footers_recordDeopt hengine, Engine.footers_count]
    rw [Engine.footer?_of_footers hfooters, Engine.footer?_eraseFooter, if_pos rfl]
  · unfold deoptSuspended
    rw [hfooter, materialize_single hfr]
    dsimp only
    rw [hfr]
    dsimp only
    cases footer.record.materializeFrame (.ofSpill footer.spill) w.heap fr true { code := fr.code } with
    | error fault => rfl
    | ok result =>
      obtain ⟨frame, heap⟩ := result
      change (footer.record.releaseNative _ heap >>= _) = (footer.record.releaseNative _ heap >>= _)
      cases footer.record.releaseNative (.ofSpill footer.spill) heap with
      | error fault => rfl
      | ok heap' =>
        change (Engine.recordDeopt _ _ _ >>= _) = _
        rw [hengine]
        rfl

/-- A generator that suspended keeps what it saved through any calls that do not name it, for as long as
it is allocated. Resuming it gives this back; rebuilding it does what rebuilding the record from the
spill area does, even if the record has been discarded since. Either can be had once. -/
theorem suspended_kept {w₀ w₁ w₂ : World} {unit : UnitId} {site : DeoptId} {spill : List Word}
    {calls : List Call} {code : CodeId} {status : GenStatus}
    (hsuspend : w₀.suspend gen unit site spill = .ok (.ok (), w₁)) (hrun : w₁.run calls = .ok w₂)
    (hother : ∀ c ∈ calls, c.gen? ≠ some gen)
    (halloc : w₂.heap.get? gen = some (.generator code status)) :
    w₂.heap.get? gen = w₁.heap.get? gen ∧ status = .suspended ∧
    (∃ w₃, w₂.resume gen = .ok (.ok ⟨unit, site, spill⟩, w₃) ∧ w₃.Spent gen) ∧
    ∃ r, w₀.engine.record? site = some r ∧ ∀ fr, r.frames = [fr] →
      ∃ engine, (∀ heap, Spent { w₂ with engine, heap } gen) ∧ w₂.deoptSuspended gen = (do
        let (frames, heap, _) ← r.materialize (.ofSpill spill) w₂.heap [{ code := fr.code }]
        let heap ← r.releaseNative (.ofSpill spill) heap
        let frame := frames.headD { code := fr.code }
        return (.ok { frame with gen := some gen, status := .suspended },
          { w₂ with engine, heap })) := by
  rcases suspend_eq_ok hsuspend with ⟨e, he, -⟩ | ⟨r, heap, -, hrecord, -, -, hset, rfl⟩
  · cases he
  have hfooter := run_induct (fun w => w.engine.footer? gen =
      some { unit, gen, site, record := r, spill, status := .suspended })
    (fun c hc _ _ _ hw hcall => (call_footer_other hcall (hother c hc)).trans hw) hrun
    (by rw [Engine.footer?_setFooter, if_pos rfl])
  have hobject := run_induct (fun w => ∀ code status, w.heap.get? gen = some (.generator code status) →
      heap.get? gen = some (.generator code status))
    (fun c hc _ _ _ hw hcall code status hgen =>
      hw code status (call_generator hcall (hother c hc) hgen)) hrun
    (fun _ _ hgen => hgen) code status halloc
  have hsusp := suspendedFooter_eq_ok.2 ⟨hfooter, rfl⟩
  refine ⟨halloc.trans hobject.symm, ?_, ?_, r, hrecord, fun fr hfr => ?_⟩
  · obtain ⟨code', hmarked⟩ := Heap.get?_setGenStatus_self hset
    rw [hmarked] at hobject
    injection hobject with hobject
    injection hobject with _ hstatus
    exact hstatus.symm
  · obtain ⟨heap', hset'⟩ := Heap.setGenStatus_ok halloc .running
    refine ⟨_, by rw [resume, hsusp]; dsimp only; rw [hset']; rfl, spent_of_footer ?_⟩
    intro footer hf
    rw [Engine.footer?_setFooter, if_pos rfl] at hf
    obtain rfl := Option.some.inj hf
    intro hrunning
    cases hrunning
  · obtain ⟨engine, hnone, heq⟩ := deoptSuspended_eq hsusp hfr
    refine ⟨engine, fun heap => spent_of_footer ?_, heq⟩
    intro footer hf
    rw [hnone] at hf
    cases hf

namespace Interleaved

def code : CodeUnit := { id := ⟨1⟩, name := "gen", kind := .generator, locals := ["x"], length := 16 }

def record : Record where
  live := [{ reg := ⟨0⟩, location := some (.spill 0), refKind := .owned, valueKind := .object }]
  frames := [{ code, slots := [0], stack := [], handlers := [], cause := ⟨4⟩ }]
  reason := .generatorYield

def installed : Registry where
  table := [some record]
  units := [{ id := ⟨0⟩, name := ⟨0⟩, code, frameSize := 16, deoptIds := [⟨0⟩] }]
  nextUnit := 1
  names := (InternTable.intern {} "gen").2

/-- Two generators, in the given states, and a number. -/
def heap (first second : GenStatus) : Heap :=
  let heap := (Heap.initial.alloc (.generator ⟨1⟩ first)).2
  let heap := (heap.alloc (.generator ⟨1⟩ second)).2
  (heap.alloc (.int 7)).2

def start : World :=
  { engine := { registry := { value := installed } }, heap := heap .running .running }

def footer : Footer :=
  { unit := ⟨0⟩, gen := ⟨3⟩, site := ⟨0⟩, record, spill := [48], status := .suspended }

/-- The first generator has suspended, with a reference to the number. -/
def saved : World :=
  { start with engine := start.engine.setFooter ⟨3⟩ footer, heap := heap .suspended .running }

/-- The second generator suspends and is resumed, and the unit of both is discarded. -/
def calls : List Call :=
  [.suspend ⟨4⟩ ⟨0⟩ ⟨0⟩ [0], .resume ⟨4⟩, .engine (.discard ⟨0⟩)]

def other : Footer :=
  { unit := ⟨0⟩, gen := ⟨4⟩, site := ⟨0⟩, record, spill := [], status := .running }

def discarded : World where
  engine := {
    registry := { value := { installed with table := [none], units := [] } }
    footers := [(⟨4⟩, other), (⟨3⟩, footer)] }
  heap := heap .suspended .running

end Interleaved

theorem suspended_kept_interleaved :
    Interleaved.start.suspend ⟨3⟩ ⟨0⟩ ⟨0⟩ [48] = .ok (.ok (), Interleaved.saved) ∧
    Interleaved.saved.run Interleaved.calls = .ok Interleaved.discarded ∧
    Interleaved.discarded.engine.record? ⟨0⟩ = none ∧
    ∃ w, Interleaved.discarded.resume ⟨3⟩ = .ok (.ok ⟨⟨0⟩, ⟨0⟩, [48]⟩, w) ∧ w.Spent ⟨3⟩ := by
  have hother : ∀ c ∈ Interleaved.calls, c.gen? ≠ some ⟨3⟩ := by
    intro c hc
    simp only [Interleaved.calls, List.mem_cons, List.not_mem_nil, or_false] at hc
    rcases hc with rfl | rfl | rfl <;> decide
  have hsuspend : Interleaved.start.suspend ⟨3⟩ ⟨0⟩ ⟨0⟩ [48] = .ok (.ok (), Interleaved.saved) := rfl
  have hrun : Interleaved.saved.run Interleaved.calls = .ok Interleaved.discarded := rfl
  have halloc : Interleaved.discarded.heap.get? ⟨3⟩ = some (.generator ⟨1⟩ .suspended) := rfl
  exact ⟨hsuspend, hrun, rfl, (suspended_kept hsuspend hrun hother halloc).2.2.1⟩

end World

end Bailout
