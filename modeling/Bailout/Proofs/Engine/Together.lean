import Bailout.Proofs.Compile.Stages
import Bailout.Proofs.Engine.History

/-!
# Compiling functions together

However the workers of an engine take turns, the functions they compile come to what each comes to alone:
its error, or an installed unit that differs only in nonces. Units, records and nonces are never shared
between two functions.
-/

namespace Bailout

/-! ## Installation as publication -/

/-- The unit stands under the number that was answered. -/
def Ledger.Stands (l : Ledger) (u : CompiledUnit) (answer : Except EngineError UnitId) : Prop :=
  ∃ id sites, answer = .ok id ∧ Standing l.history id sites u

theorem Ledger.discarded_install {u : CompiledUnit} {l : Ledger} {id : UnitId} :
    Event.discarded id ∈ (l.install u).2.history ↔ Event.discarded id ∈ l.history := by
  rw [history_install, List.mem_append, or_iff_left]
  cases (l.install u).1 with
  | error err => simp [Except.toOption]
  | ok id => simp [Except.toOption]

/-- Installation publishes every finished unit. -/
theorem Ledger.publishes (settings : Settings) :
    Publishes settings Ledger.install Ledger.Sound Ledger.Stands where
  good u _ hs := hs.install u
  new := by
    intro f records u l hfinish hs
    have hok : (l.install u).1 = .ok ⟨l.registry.nextUnit⟩ := by
      show (l.registry.install u).1 = _
      rw [l.registry.install_located (Function.isLocated_of_finish hfinish)]
    refine ⟨⟨l.registry.nextUnit⟩, (l.install u).2.registry.sites ⟨l.registry.nextUnit⟩, hok, ?_, ?_⟩
    · rw [history_install, hok]
      exact List.mem_append_right _ List.mem_cons_self
    · rw [discarded_install]
      exact fun hgone => Nat.lt_irrefl _ (Registry.Tracks.discarded_lt hs _ hgone)
  old := by
    rintro u l u' answer - ⟨id, sites, rfl, hmem, hkept⟩
    exact ⟨id, sites, rfl, List.mem_append_left _ hmem, mt discarded_install.1 hkept⟩

namespace Engine

variable {e e' : Engine} {fs : List Function} {schedule : List Nat} {history : List Event}

/-- The order of actions leaves nothing to do. -/
def Finishes (e : Engine) (fs : List Function) (schedule : List Nat) : Prop :=
  ∀ p, (Pool.start fs (e.config.compile.workersFor fs) e.nonce e.registry).run
    e.config.compile (fun u r => r.install u) schedule = .ok p → p.Done

/-- The records of an installed unit, in the order of its sites. -/
def unitRecords (e : Engine) (id : UnitId) : List Record :=
  (e.registry.value.sites id).filterMap e.record?

/-- The unit is installed under the number, and differs from the given one at most in nonces. -/
def Holds (e : Engine) (id : UnitId) (alone : CompiledUnit) : Prop :=
  ∃ u, e.unit? id = some u ∧ e.unitName? id = some alone.name ∧ u.code = alone.code ∧
    u.frameSize = alone.frameSize ∧
    u.deoptIds.map (fun d => (e.record? d).map Record.anonymous) =
      alone.records.map fun r => some r.anonymous

/-- The result for a function is what compiling it alone gives. -/
def AsAlone (e : Engine) (settings : Settings) (f : Function) (result : Except EngineError UnitId) :
    Prop :=
  ∀ nonce, ∃ alone last, f.compile settings nonce = .ok (alone, last) ∧
    match alone with
    | .error err => result = .error (.compile err)
    | .ok u => ∃ id, result = .ok id ∧ e.Holds id u

/-- What it means that functions were compiled together: `e` before, `e'` after. -/
structure CompiledTogether (e : Engine) (fs : List Function) (results : List (Except EngineError UnitId))
    (e' : Engine) : Prop where
  each : List.Forall₂ (e'.AsAlone e.config.compile) fs results
  units_distinct : (results.filterMap Except.toOption).Nodup
  records_disjoint : ∀ id id' u u', .ok id ∈ results → .ok id' ∈ results → id ≠ id' →
    e'.unit? id = some u → e'.unit? id' = some u' → u.deoptIds.Disjoint u'.deoptIds
  nonces_distinct :
    (((results.filterMap Except.toOption).flatMap e'.unitRecords).map (·.nonce)).Nodup
  nonces_drawn : ∀ r ∈ (results.filterMap Except.toOption).flatMap e'.unitRecords,
    e.nonce ≤ r.nonce ∧ r.nonce < e'.nonce

/-! ## Units that stand -/

theorem records_of_standing {id : UnitId} {sites : List DeoptId} {u : CompiledUnit}
    (ha : e.registry.value.Accounts history) (hu : Standing history id sites u) :
    sites.map e.record? = u.records.map some := by
  have hlen := ha.sites_length id sites u hu.1
  refine List.ext_getElem (by simpa using hlen) fun k hk hk' => ?_
  rw [List.getElem_map, List.getElem_map]
  rw [List.length_map] at hk hk'
  have hzip : (sites[k], u.records[k]) ∈ sites.zip u.records := by
    rw [← List.getElem_zip (h := by rw [List.length_zip]; omega)]
    exact List.getElem_mem _
  exact (ha.record_iff _ _).2 (.inr ⟨id, sites, u, hu, hzip⟩)

/-- A unit that stands is held, and so is any that differs from it in nonces only. -/
theorem holds_of_standing {id : UnitId} {sites : List DeoptId} {u alone : CompiledUnit}
    (ha : e.registry.value.Accounts history) (hu : Standing history id sites u)
    (hsame : alone.anonymous = u.anonymous) : e.Holds id alone := by
  obtain ⟨installed, hunit, rfl, hcode, hframe, hname⟩ := ha.unit_standing id sites u hu
  have hrecords := records_of_standing ha hu
  obtain ⟨name, code, records, asites, layout⟩ := alone
  obtain ⟨uname, ucode, urecords, usites, ulayout⟩ := u
  simp only [CompiledUnit.anonymous, CompiledUnit.mk.injEq] at hsame
  obtain ⟨rfl, rfl, hanon, -, rfl⟩ := hsame
  refine ⟨installed, hunit, hname, hcode, hframe, ?_⟩
  have hmap := congrArg (List.map (Option.map Record.anonymous)) hrecords
  rw [List.map_map, List.map_map] at hmap
  calc installed.deoptIds.map (fun d => (e.record? d).map Record.anonymous)
      = urecords.map (Option.map Record.anonymous ∘ some) := hmap
    _ = (urecords.map Record.anonymous).map some := by rw [List.map_map]; rfl
    _ = (records.map Record.anonymous).map some := by rw [hanon]
    _ = records.map fun r => some r.anonymous := by rw [List.map_map]; rfl

theorem unitRecords_of_standing {id : UnitId} {sites : List DeoptId} {u : CompiledUnit}
    (ha : e.registry.value.Accounts history) (hu : Standing history id sites u) :
    e.unitRecords id = u.records := by
  obtain ⟨installed, hunit, rfl, -⟩ := ha.unit_standing id sites u hu
  have hsites : e.registry.value.sites id = installed.deoptIds := by
    rw [Registry.sites, show e.registry.value.unit? id = some installed from hunit]
    rfl
  have hfound : installed.deoptIds.filterMap e.record? =
      (installed.deoptIds.map e.record?).filterMap fun r => r := by
    rw [List.filterMap_map]
    rfl
  rw [unitRecords, hsites, hfound, records_of_standing ha hu, List.filterMap_map]
  exact List.filterMap_some

/-! ## From the ledger to the engine -/

theorem Finishes.ledger (h : e.Finishes fs schedule) {p : Pool Ledger (Except EngineError UnitId)}
    (hp : (Pool.start fs (e.config.compile.workersFor fs) e.nonce
      (e.registry.map (⟨·, history⟩))).run e.config.compile Ledger.install schedule = .ok p) :
    p.Done := by
  have hstart : (Pool.start fs (e.config.compile.workersFor fs) e.nonce e.registry :
      Pool Registry (Except EngineError UnitId)) =
      (Pool.start fs _ e.nonce (e.registry.map fun r => (⟨r, history⟩ : Ledger))).view Ledger.registry :=
    rfl
  refine h (p.view Ledger.registry) ?_
  rw [hstart, Pool.run_view Ledger.registry_install, hp]
  rfl

theorem nonces_answers {shared : Ledger} (ha : e.registry.value.Accounts shared.history)
    {results : List (Except CompileError CompiledUnit)}
    {answers : List (Except CompileError (Except EngineError UnitId))}
    (h : List.Forall₂ (Answers shared.Stands) results answers) :
    (((answers.map asResult).filterMap Except.toOption).flatMap e.unitRecords).map (·.nonce) =
      results.flatMap resultNonces := by
  induction h with
  | nil => rfl
  | cons hanswer _ ih =>
    rw [List.flatMap_cons, ← ih]
    cases hanswer with
    | error err => rfl
    | ok hpub =>
      obtain ⟨id, sites, rfl, hstanding⟩ := hpub
      show ((e.unitRecords id ++ _).map (·.nonce)) = _
      rw [List.map_append, unitRecords_of_standing ha hstanding]
      rfl

theorem outcome_of_compile {settings : Settings} {nonce : Nat}
    (hclean : ∀ f ∈ fs, ∃ outcome, f.compile settings nonce = .ok outcome) :
    ∀ f ∈ fs, ∃ o, f.outcome settings = .ok o := by
  intro f hf
  obtain ⟨outcome, hc⟩ := hclean f hf
  refine ⟨outcome.1.map CompiledUnit.anonymous, ?_⟩
  rw [← f.compile_outcome settings nonce, hc]
  rfl

theorem finishes_roundRobin
    (hclean : ∀ f ∈ fs, ∃ outcome, f.compile e.config.compile e.nonce = .ok outcome)
    (schedule : List Nat) : e.Finishes fs (schedule ++ roundRobin fs e.config.compile) := by
  intro p hp
  have hany : Publishes e.config.compile (fun (u : CompiledUnit) (r : Registry) => r.install u)
      (fun _ => True) fun _ _ _ => True :=
    ⟨fun _ _ _ => trivial, fun _ _ => trivial, fun _ _ _ _ _ _ => trivial⟩
  exact Pool.done_roundRobin hany trivial (outcome_of_compile hclean) hp

/-- An answer is what compiling alone gives, when the unit behind it stands. -/
theorem asAlone_of_answers {shared : Ledger} (ha : e.registry.value.Accounts shared.history)
    {settings : Settings} {f : Function} {result : Except CompileError CompiledUnit}
    {answer : Except CompileError (Except EngineError UnitId)}
    (hresult : f.outcome settings = .ok (result.map CompiledUnit.anonymous))
    (hanswer : Answers shared.Stands result answer) : e.AsAlone settings f (asResult answer) := by
  intro nonce
  obtain ⟨alone, next, hcompile, hsame⟩ := f.compile_of_outcome hresult nonce
  refine ⟨alone, next, hcompile, ?_⟩
  cases hanswer with
  | error err =>
    cases alone with
    | error err' =>
      obtain rfl : err' = err := Except.error.inj hsame
      rfl
    | ok u => cases hsame
  | ok hpub =>
    obtain ⟨id, sites, rfl, hstanding⟩ := hpub
    cases alone with
    | error err => cases hsame
    | ok alone => exact ⟨id, rfl, holds_of_standing ha hstanding (Except.ok.inj hsame)⟩

theorem together_of_sound (hs : (e.ledger history).Sound)
    (hclean : ∀ f ∈ fs, ∃ outcome, f.compile e.config.compile e.nonce = .ok outcome)
    (hdone : e.Finishes fs schedule) :
    ∃ results e', e.compileAllBy schedule fs = .ok (results, e') ∧ e.CompiledTogether fs results e' := by
  obtain ⟨answers, last, shared, results, hrun, hsound, htogether⟩ :=
    compileAllBy_together (Ledger.publishes e.config.compile)
      (show (e.registry.map fun r => (⟨r, history⟩ : Ledger)).value.Sound from hs)
      (outcome_of_compile hclean) fun p => hdone.ledger
  have hlogged : e.compileLogged history schedule fs = .ok (answers, last, shared) := hrun
  have hcompiled : e.compileAllBy schedule fs = .ok (answers.map asResult,
      { e with nonce := last, registry := shared.map Ledger.registry }) := by
    rw [compileAllBy_eq_logged e history, hlogged]
    rfl
  refine ⟨_, _, hcompiled, ?_⟩
  generalize he : ({ e with nonce := last, registry := shared.map Ledger.registry } : Engine) = e'
  have ha : e'.registry.value.Accounts shared.value.history := he ▸ hsound.accounts
  have hnonce : e'.nonce = last := he ▸ rfl
  constructor
  case each =>
    rw [List.forall₂_map_right_iff]
    refine (forall₂_comp htogether.outcomes htogether.answers).imp ?_
    rintro f answer ⟨result, hresult, hanswer⟩
    exact asAlone_of_answers ha hresult hanswer
  case units_distinct =>
    obtain ⟨ids, hperm, hsub⟩ := unitIds_compileLogged hlogged
    exact (hperm.nodup_iff.1 (hsub.nodup hsound.accounts.unitIds_once)).of_append_right
  case records_disjoint =>
    intro id id' u u' _ _ hne hu hu'
    exact ha.disjoint_units id id' u u' hne hu hu'
  case nonces_distinct =>
    rw [nonces_answers ha htogether.answers]
    exact htogether.distinct
  case nonces_drawn =>
    intro r hr
    rw [hnonce]
    have hmem : r.nonce ∈ results.flatMap resultNonces := by
      rw [← nonces_answers ha htogether.answers]
      exact List.mem_map_of_mem hr
    obtain ⟨result, hresult, hn⟩ := List.mem_flatMap.1 hmem
    exact htogether.drawn result hresult _ hn

/-- **Compiling together is independent of the order of actions.** Whatever the workers have done, they
finish by taking turns; and in whatever order they finish, there is one result for each function, in
order, and it is what the function gives alone. -/
theorem compileAll_together {config : Config} {calls : List Call} {t : Trace}
    (ht : Trace.run { engine := { config } } calls = .ok t)
    (hclean : ∀ f ∈ fs, ∃ outcome, f.compile t.engine.config.compile t.engine.nonce = .ok outcome) :
    (∀ schedule, t.engine.Finishes fs (schedule ++ roundRobin fs t.engine.config.compile)) ∧
    (∀ schedule, t.engine.Finishes fs schedule → ∃ results e',
      t.engine.compileAllBy schedule fs = .ok (results, e') ∧
        t.engine.CompiledTogether fs results e') ∧
    ∃ results e', t.engine.compileAll fs = .ok (results, e') ∧
      t.engine.CompiledTogether fs results e' := by
  have hsound := ((Trace.sound_new config).run ht).ledger
  refine ⟨finishes_roundRobin hclean, fun schedule => together_of_sound hsound hclean, ?_⟩
  exact together_of_sound hsound hclean (finishes_roundRobin hclean [])

/-! ## Three functions, one of them broken

Two workers compile a good function, a broken one and the good one again, on an engine that has a unit
already. The second worker begins. -/

namespace Mixed

def broken : Function where
  name := "g"
  code := Blaming.code
  env := ⟨[]⟩
  graph := ⟨[some ⟨⟨0⟩, []⟩], ⟨0⟩⟩

def funcs : List Function := [Blaming.func ⟨0⟩, broken, Blaming.func ⟨0⟩]

def config : Config := { compile := { workers := 2 } }

theorem validate_broken : broken.validate = .error (.missingTerminator ⟨0⟩) := by
  unfold Function.validate Function.checkStructure
  rw [show broken.graph.order = [⟨0⟩] from Graph.order_of_leaf rfl]
  rfl

theorem compile_broken (nonce : Nat) : broken.compile config.compile nonce =
    .ok (.error (.validation (.missingTerminator ⟨0⟩)), nonce) := by
  unfold Function.compile Function.precheck
  rw [validate_broken]
  rfl

theorem compile_good (nonce : Nat) :
    ∃ u, (Blaming.func ⟨0⟩).compile config.compile nonce = .ok (.ok u, nonce + 1) :=
  ⟨_, Function.compile_of_sites (Blaming.validate ⟨0⟩) (Blaming.deoptSites ⟨0⟩) rfl rfl⟩

theorem asAlone_broken {e : Engine} {result : Except EngineError UnitId}
    (h : e.AsAlone config.compile broken result) :
    result = .error (.compile (.validation (.missingTerminator ⟨0⟩))) := by
  obtain ⟨alone, last, hcompile, hresult⟩ := h 0
  obtain ⟨rfl, -⟩ := Prod.mk.inj (Except.ok.inj ((compile_broken 0).symm.trans hcompile))
  exact hresult

theorem asAlone_good {e : Engine} {result : Except EngineError UnitId}
    (h : e.AsAlone config.compile (Blaming.func ⟨0⟩) result) : ∃ id, result = .ok id := by
  obtain ⟨u, hu⟩ := compile_good 0
  obtain ⟨alone, last, hcompile, hresult⟩ := h 0
  obtain ⟨rfl, -⟩ := Prod.mk.inj (Except.ok.inj (hu.symm.trans hcompile))
  obtain ⟨id, hid, -⟩ := hresult
  exact ⟨id, hid⟩

end Mixed

theorem compileAll_together_mixed :
    ∃ t results e', Trace.run { engine := { config := Mixed.config } } [.install Replacing.good] = .ok t ∧
      t.engine.compileAllBy ([1, 0, 1, 1] ++ roundRobin Mixed.funcs t.engine.config.compile) Mixed.funcs =
        .ok (results, e') ∧
      t.engine.CompiledTogether Mixed.funcs results e' ∧
      ∃ id id', id ≠ id' ∧
        results = [.ok id, .error (.compile (.validation (.missingTerminator ⟨0⟩))), .ok id'] := by
  obtain ⟨t, ht, hconfig⟩ : ∃ t, Trace.run { engine := { config := Mixed.config } }
      [.install Replacing.good] = .ok t ∧ t.engine.config = Mixed.config := ⟨_, rfl, rfl⟩
  have hclean : ∀ f ∈ Mixed.funcs,
      ∃ outcome, f.compile t.engine.config.compile t.engine.nonce = .ok outcome := by
    obtain ⟨u, hu⟩ := Mixed.compile_good t.engine.nonce
    rw [hconfig]
    simp [Mixed.funcs, hu, Mixed.compile_broken]
  obtain ⟨hfinishes, hany, -⟩ := compileAll_together ht hclean
  obtain ⟨results, e', hrun, htogether⟩ := hany _ (hfinishes [1, 0, 1, 1])
  refine ⟨t, results, e', ht, hrun, htogether, ?_⟩
  have heach := htogether.each
  have hids := htogether.units_distinct
  rw [hconfig] at heach
  obtain ⟨_, _, hfirst, htail, rfl⟩ := List.forall₂_cons_left_iff.1 heach
  obtain ⟨_, _, hsecond, hlast, rfl⟩ := List.forall₂_cons_left_iff.1 htail
  obtain ⟨_, _, hthird, hnil, rfl⟩ := List.forall₂_cons_left_iff.1 hlast
  obtain rfl := List.forall₂_nil_left_iff.1 hnil
  obtain ⟨id, rfl⟩ := Mixed.asAlone_good hfirst
  obtain rfl := Mixed.asAlone_broken hsecond
  obtain ⟨id', rfl⟩ := Mixed.asAlone_good hthird
  have hne : [id, id'].Nodup := hids
  exact ⟨id, id', by simpa using hne, rfl⟩

end Engine

end Bailout
