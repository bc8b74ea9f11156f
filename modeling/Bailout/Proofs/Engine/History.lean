import Bailout.Proofs.Engine.Calls
import Bailout.Proofs.Registry.History

/-!
# The registry along a run of calls

A run of calls on a new engine, with the history of its registry written beside it. In whatever order
calls are made, and whatever the workers of a compilation do, the registry answers as the history says:
`Trace.accounts_of_run`.
-/

namespace Bailout.Engine

/-- The engine's registry with its history. -/
def ledger (e : Engine) (history : List Event) : Ledger := ⟨e.registry.value, history⟩

/-- Compiles with the history in the section, where every publication is written down. -/
def compileLogged (e : Engine) (history : List Event) (schedule : List Nat) (fs : List Function) :
    Except Fault (List (Except CompileError (Except EngineError UnitId)) × Nat × Section Ledger) :=
  Bailout.compileAllBy schedule fs e.config.compile e.nonce (e.registry.map (⟨·, history⟩))
    Ledger.install

/-- The history after a call. Compilations write it as they publish, from inside the section. -/
def log (e : Engine) (history : List Event) : Call → List Event
  | .install u => ((e.ledger history).install u).2.history
  | .compile f =>
    match f.compile e.config.compile e.nonce with
    | .ok (.ok u, _) => ((e.ledger history).install u).2.history
    | _ => history
  | .compileAll fs schedule =>
    match e.compileLogged history schedule fs with
    | .ok (_, _, shared) => shared.value.history
    | .error _ => history
  | .addRecord r => ((e.ledger history).publish r).2.history
  | .discard id => ((e.ledger history).discard id).2.history

namespace Reply

/-- The unit numbers that a reply tells. -/
def unitIds : Except EngineError Reply → List UnitId
  | .ok (.unit id) => [id]
  | .ok (.units results) => results.filterMap Except.toOption
  | _ => []

/-- The record numbers that a reply tells. -/
def recordIds : Except EngineError Reply → List DeoptId
  | .ok (.record id) => [id]
  | _ => []

end Reply

/-- An engine, what it replied so far, and what happened to its registry. -/
structure Trace where
  engine : Engine
  history : List Event := []
  replies : List (Except EngineError Reply) := []

namespace Trace

def step (t : Trace) (c : Call) : Except Fault Trace := do
  let (reply, engine) ← t.engine.perform c
  return { engine, history := t.engine.log t.history c, replies := t.replies ++ [reply] }

def run (t : Trace) (calls : List Call) : Except Fault Trace := calls.foldlM step t

end Trace

/-! ## A call and its entry in the history -/

variable {e e' : Engine} {history : List Event} {c : Call} {reply : Except EngineError Reply}

/-- Compiling is compiling with the history in the section, which is then left out. -/
theorem compileAllBy_eq_logged (e : Engine) (history : List Event) (schedule : List Nat)
    (fs : List Function) :
    e.compileAllBy schedule fs =
      (fun (answers, nonce, shared) =>
        (answers.map asResult, { e with nonce, registry := shared.map Ledger.registry })) <$>
      e.compileLogged history schedule fs := by
  have hview : Bailout.compileAllBy schedule fs e.config.compile e.nonce e.registry
      (fun u r => r.install u) = _ <$> e.compileLogged history schedule fs :=
    compileAllBy_map Ledger.registry (e.registry.map (⟨·, history⟩)) _ Ledger.registry_install
  unfold compileAllBy
  rw [hview]
  cases e.compileLogged history schedule fs with
  | error _ => rfl
  | ok _ => rfl

theorem compileAllBy_ledger (history : List Event) {schedule : List Nat} {fs : List Function}
    {results : List (Except EngineError UnitId)} (h : e.compileAllBy schedule fs = .ok (results, e')) :
    ∃ answers nonce shared, e.compileLogged history schedule fs = .ok (answers, nonce, shared) ∧
      results = answers.map asResult ∧
      e'.ledger (e.log history (.compileAll fs schedule)) = shared.value := by
  rw [compileAllBy_eq_logged e history] at h
  obtain ⟨⟨answers, nonce, shared⟩, hlogged, heq⟩ := map_eq_ok.1 h
  obtain ⟨rfl, rfl⟩ := Prod.mk.inj heq
  refine ⟨answers, nonce, shared, hlogged, rfl, ?_⟩
  rw [log, hlogged]
  rfl

theorem log_induct (P : Ledger → Prop) (hinstall : ∀ u l, P l → P (Ledger.install u l).2)
    (hpublish : ∀ r l, P l → P (Ledger.publish r l).2)
    (hdiscard : ∀ id l, P l → P (Ledger.discard id l).2)
    (h : e.perform c = .ok (reply, e')) (hp : P (e.ledger history)) :
    P (e'.ledger (e.log history c)) := by
  have h := perform_eq_ok h
  cases c with
  | install u =>
    obtain ⟨-, rfl⟩ := h
    exact hinstall u _ hp
  | compile f =>
    obtain ⟨result, hc, -⟩ := h
    rcases compile_eq_ok hc with ⟨nonce, ⟨err, hf, -, rfl⟩ | ⟨u, hf, hi⟩⟩
    · rw [log, hf]
      exact hp
    · obtain ⟨-, rfl⟩ := Prod.mk.inj hi
      rw [log, hf]
      exact hinstall u _ hp
  | compileAll fs schedule =>
    obtain ⟨results, hc, -⟩ := h
    obtain ⟨answers, nonce, shared, hlogged, -, hledger⟩ := compileAllBy_ledger history hc
    rw [hledger]
    exact compileAllBy_induct P hinstall hlogged hp
  | addRecord r =>
    obtain ⟨-, rfl⟩ := h
    exact hpublish r _ hp
  | discard id =>
    obtain ⟨-, rfl⟩ := h
    exact hdiscard id _ hp

theorem log_sound (h : e.perform c = .ok (reply, e')) (hs : (e.ledger history).Sound) :
    (e'.ledger (e.log history c)).Sound :=
  log_induct Ledger.Sound (fun u _ hl => hl.install u) (fun r _ hl => hl.publish r)
    (fun id _ hl => hl.discard id) h hs

theorem log_grows (h : e.perform c = .ok (reply, e')) : history <+: e.log history c :=
  log_induct (history <+: ·.history) (fun _ _ hl => hl.trans (List.prefix_append _ _))
    (fun _ _ hl => hl.trans (List.prefix_append _ _)) (fun _ _ hl => hl.trans (List.prefix_append _ _))
    h (List.prefix_rfl)

/-! ## Numbers handed out -/

theorem unitIds_install (u : CompiledUnit) (l : Ledger) :
    (l.install u).2.history.filterMap Event.unitId? =
      l.history.filterMap Event.unitId? ++ (l.install u).1.toOption.toList := by
  rw [Ledger.history_install, List.filterMap_append]
  cases (l.install u).1.toOption with
  | none => rfl
  | some id => rfl

/-- The unit numbers that a compilation answers are written into the history, each time it answers one. -/
theorem unitIds_compileLogged {schedule : List Nat} {fs : List Function}
    {answers : List (Except CompileError (Except EngineError UnitId))} {nonce : Nat}
    {shared : Section Ledger} (h : e.compileLogged history schedule fs = .ok (answers, nonce, shared)) :
    (history.filterMap Event.unitId? ++ (answers.map asResult).filterMap Except.toOption).Subperm
      (shared.value.history.filterMap Event.unitId?) := by
  have htold : (answers.map asResult).filterMap Except.toOption =
      Pool.published Except.toOption answers := by
    rw [Pool.published, List.filterMap_map]
    refine List.filterMap_congr fun answer _ => ?_
    cases answer with
    | error err => rfl
    | ok installed => rfl
  rw [htold]
  exact compileAllBy_results Except.toOption (·.history.filterMap Event.unitId?) unitIds_install h

/-- The unit numbers of a reply are written into the history, each time it tells one. -/
theorem log_unitIds (h : e.perform c = .ok (reply, e')) :
    (history.filterMap Event.unitId? ++ Reply.unitIds reply).Subperm
      ((e.log history c).filterMap Event.unitId?) := by
  have hother : Reply.unitIds reply = [] →
      (history.filterMap Event.unitId? ++ Reply.unitIds reply).Subperm
        ((e.log history c).filterMap Event.unitId?) := by
    intro hnone
    rw [hnone, List.append_nil]
    exact ((log_grows h).sublist.filterMap _).subperm
  have hunit : ∀ result : Except EngineError UnitId,
      Reply.unitIds (result.map .unit) = result.toOption.toList := by
    rintro (err | id) <;> rfl
  have h := perform_eq_ok h
  cases c with
  | install u =>
    obtain ⟨rfl, -⟩ := h
    rw [log, unitIds_install, hunit]
    exact List.Subperm.refl _
  | compile f =>
    obtain ⟨result, hc, rfl⟩ := h
    rcases compile_eq_ok hc with ⟨nonce, ⟨err, -, rfl, -⟩ | ⟨u, hf, hi⟩⟩
    · exact hother rfl
    · obtain ⟨rfl, -⟩ := Prod.mk.inj hi
      rw [log, hf, unitIds_install, hunit]
      exact List.Subperm.refl _
  | compileAll fs schedule =>
    obtain ⟨results, hc, rfl⟩ := h
    obtain ⟨answers, nonce, shared, hlogged, rfl, hledger⟩ := compileAllBy_ledger history hc
    have htold := unitIds_compileLogged hlogged
    rw [← hledger] at htold
    exact htold
  | addRecord r =>
    obtain ⟨rfl, -⟩ := h
    apply hother
    cases (e.addRecord r).1 <;> rfl
  | discard id =>
    obtain ⟨rfl, -⟩ := h
    apply hother
    cases (e.discard id).1 <;> rfl

theorem log_recordIds (h : e.perform c = .ok (reply, e')) :
    (history.flatMap Event.deoptIds ++ Reply.recordIds reply).Subperm
      ((e.log history c).flatMap Event.deoptIds) := by
  have hother : Reply.recordIds reply = [] →
      (history.flatMap Event.deoptIds ++ Reply.recordIds reply).Subperm
        ((e.log history c).flatMap Event.deoptIds) := by
    intro hnone
    obtain ⟨new, hnew⟩ : history <+: e.log history c := log_grows h
    rw [hnone, List.append_nil, ← hnew, List.flatMap_append]
    exact (List.sublist_append_left _ _).subperm
  have hunit : ∀ result : Except EngineError UnitId, Reply.recordIds (result.map .unit) = [] := by
    rintro (err | id) <;> rfl
  have h := perform_eq_ok h
  cases c with
  | install u =>
    obtain ⟨rfl, -⟩ := h
    exact hother (hunit _)
  | compile f =>
    obtain ⟨result, -, rfl⟩ := h
    exact hother (hunit _)
  | compileAll fs schedule =>
    obtain ⟨results, -, rfl⟩ := h
    exact hother rfl
  | addRecord r =>
    obtain ⟨rfl, -⟩ := h
    have hnoted : e.log history (.addRecord r) = history ++
      ((e.addRecord r).1.toOption.map fun id => .published id r).toList := rfl
    rw [hnoted, List.flatMap_append]
    cases (e.addRecord r).1 with
    | error err => exact List.Subperm.refl _
    | ok id => exact List.Subperm.refl _
  | discard id =>
    obtain ⟨rfl, -⟩ := h
    apply hother
    cases (e.discard id).1 <;> rfl

/-! ## Runs -/

namespace Trace

/-- The history accounts for the registry, and holds what the replies told. -/
structure Sound (t : Trace) : Prop where
  ledger : (t.engine.ledger t.history).Sound
  unitIds : (t.replies.flatMap Reply.unitIds).Subperm (t.history.filterMap Event.unitId?)
  recordIds : (t.replies.flatMap Reply.recordIds).Subperm (t.history.flatMap Event.deoptIds)

theorem step_eq_ok {t t' : Trace} {c : Call} (h : t.step c = .ok t') :
    ∃ reply, t.engine.perform c = .ok (reply, t'.engine) ∧
      t'.history = t.engine.log t.history c ∧ t'.replies = t.replies ++ [reply] := by
  obtain ⟨⟨reply, engine⟩, hperform, h⟩ := bind_eq_ok.1 h
  obtain rfl := Except.ok.inj h
  exact ⟨reply, hperform, rfl, rfl⟩

theorem Sound.step {t t' : Trace} {c : Call} (ht : t.Sound) (h : t.step c = .ok t') : t'.Sound := by
  obtain ⟨reply, hperform, hhistory, hreplies⟩ := step_eq_ok h
  constructor
  · rw [hhistory]
    exact log_sound hperform ht.ledger
  · rw [hhistory, hreplies, List.flatMap_append, List.flatMap_singleton]
    exact (ht.unitIds.append (List.Subperm.refl _)).trans (log_unitIds hperform)
  · rw [hhistory, hreplies, List.flatMap_append, List.flatMap_singleton]
    exact (ht.recordIds.append (List.Subperm.refl _)).trans (log_recordIds hperform)

theorem Sound.run {t t' : Trace} {calls : List Call} (ht : t.Sound) (h : t.run calls = .ok t') :
    t'.Sound :=
  foldlM_induct Sound (fun _ _ _ _ ht hstep => ht.step hstep) ht h

theorem sound_new (config : Config) : Sound { engine := { config } } :=
  ⟨Registry.Tracks.empty, List.Subperm.refl _, List.Subperm.refl _⟩

theorem run_grows {t t' : Trace} {calls : List Call} (h : t.run calls = .ok t') :
    t.history <+: t'.history := by
  refine foldlM_induct (t.history <+: ·.history) ?_ List.prefix_rfl h
  intro c _ s s' hs hstep
  obtain ⟨reply, hperform, hhistory, -⟩ := step_eq_ok hstep
  rw [hhistory]
  exact hs.trans (log_grows hperform)

end Trace

/-- Along any run of calls, the registry of an engine answers as its history says. The history holds
every number that was ever told and is only added to, and a unit with an unlocated record is refused. -/
theorem Trace.accounts_of_run {config : Config} {calls : List Call} {t : Trace}
    (h : Trace.run { engine := { config } } calls = .ok t) :
    t.engine.registry.value.Accounts t.history ∧
    (t.replies.flatMap Reply.unitIds).Subperm (t.history.filterMap Event.unitId?) ∧
    (t.replies.flatMap Reply.recordIds).Subperm (t.history.flatMap Event.deoptIds) ∧
    (∀ later t', t.run later = .ok t' → t.history <+: t'.history) ∧
    (∀ id record, t.engine.record id = .ok record ↔ Published t.history id record) ∧
    (∀ id, t.engine.record id = .error (.unknownDeopt id) ↔
      ∀ record, ¬ Published t.history id record) ∧
    (∀ id u, t.engine.unit? id = some u → ∃ e', t.engine.discard id = (.ok (), e') ∧
      (∀ d, e'.record? d = if d ∈ u.deoptIds then none else t.engine.record? d) ∧
      ∀ id', e'.unit? id' = if id' = id then none else t.engine.unit? id') ∧
    (∀ u, (∃ record ∈ u.records, ¬ record.isLocated) ↔
      ∃ err, t.engine.install u = (.error err, t.engine)) := by
  have hsound := (sound_new config).run h
  have haccounts := hsound.ledger.accounts
  refine ⟨haccounts, hsound.unitIds, hsound.recordIds, fun later t' hlater => run_grows hlater,
    fun id record => record_eq_ok.trans (haccounts.record_iff id record), ?_, ?_, ?_⟩
  · intro id
    rw [record_eq_error, and_iff_left rfl, Option.eq_none_iff_forall_ne_some]
    exact forall_congr' fun record => not_congr (haccounts.record_iff id record)
  · intro id u hu
    refine ⟨(t.engine.discard id).2, ?_, t.engine.registry.value.record?_discard hu,
      t.engine.registry.value.unit?_discard hu⟩
    have hok : (t.engine.discard id).1 = .ok () := by
      change (t.engine.registry.value.discard id).1 = _
      rw [t.engine.registry.value.discard_known hu]
    rw [← hok]
  · intro u
    constructor
    · rintro ⟨record, hr, hloc⟩
      obtain ⟨first, -, hi⟩ := t.engine.registry.value.install_unlocated hr hloc
      exact ⟨.unlocated first.nonce, inRegistry_same hi⟩
    · rintro ⟨err, hi⟩
      by_contra hno
      have hall : ∀ record ∈ u.records, record.isLocated := by simpa using hno
      have hok : (t.engine.install u).1 = .ok ⟨t.engine.registry.value.nextUnit⟩ := by
        change (t.engine.registry.value.install u).1 = _
        rw [t.engine.registry.value.install_located hall]
      rw [hi] at hok
      simp at hok

namespace Replacing

def code : CodeUnit := { id := ⟨1⟩, name := "f", locals := ["x"], stackSize := 1, length := 8 }

/-- A record of one local, in a register or nowhere. -/
def record (location : Option Location) (nonce : Nat) : Record where
  live := [{ reg := ⟨0⟩, location, refKind := .borrowed, valueKind := .object }]
  frames := [{ code, slots := [0], stack := [], handlers := [], cause := ⟨2⟩ }]
  reason := .guardFailure
  nonce

def unit (records : List Record) : CompiledUnit :=
  { name := "f", code, records, sites := [], layout := { frameSize := 16 } }

def good : CompiledUnit := unit [record (some (.spill 0)) 0, record (some (.spill 8)) 1]

/-- A unit is installed and replaced by a copy of itself, with an attempt at a bad one between. -/
def calls : List Call :=
  [.install good, .addRecord (record (some (.spill 0)) 2),
    .install (unit [record (some (.spill 0)) 3, record none 4]), .discard ⟨0⟩, .install good]

end Replacing

theorem Trace.accounts_of_run_replacing :
    ∃ t, Trace.run { engine := {} } Replacing.calls = .ok t ∧
      t.history = [.installed ⟨0⟩ [⟨0⟩, ⟨1⟩] Replacing.good,
        .published ⟨2⟩ (Replacing.record (some (.spill 0)) 2), .discarded ⟨0⟩,
        .installed ⟨1⟩ [⟨3⟩, ⟨4⟩] Replacing.good] ∧
      t.engine.registry.value.Accounts t.history := by
  have hhistory : ((Trace.run { engine := {} } Replacing.calls).toOption.map (·.history)) =
      some [.installed ⟨0⟩ [⟨0⟩, ⟨1⟩] Replacing.good,
        .published ⟨2⟩ (Replacing.record (some (.spill 0)) 2), .discarded ⟨0⟩,
        .installed ⟨1⟩ [⟨3⟩, ⟨4⟩] Replacing.good] := by decide +kernel
  cases hrun : Trace.run { engine := {} } Replacing.calls with
  | error fault => simp [hrun, Except.toOption] at hhistory
  | ok t =>
    refine ⟨t, rfl, by simpa [hrun, Except.toOption] using hhistory, ?_⟩
    exact (Trace.accounts_of_run hrun).1

end Bailout.Engine
