import Bailout.Proofs.Compile.Outcome
import Bailout.Proofs.Compile.Workers
import Mathlib.Algebra.Order.BigOperators.Group.Multiset
import Mathlib.Algebra.Order.Ring.Nat
import Mathlib.Data.Multiset.Bind

/-!
# Jobs, stage by stage

Whoever acts, one action moves one job one stage on (`Pool.step_moves`): from the queue to its first site,
from site to site, and at last to its result. A stage knows what its job will give, and no action changes
that (`Stage.Step.outcome_eq`); each action makes the work that is left less. So the workers finish if
they act often enough, and in whatever order they do, each job gives what its function alone gives.
-/

namespace Bailout

/-- The nonces of a unit's records; a function that failed has none. -/
def resultNonces : Except CompileError CompiledUnit → List Nat
  | .ok u => u.records.map (·.nonce)
  | .error _ => []

/-- How far a job has come. -/
inductive Stage where
  | queued (job : Job)
  | building (job : Job) (todo : List Site) (done : List Record)
  | finished (job : Job) (result : Except CompileError CompiledUnit)

namespace Stage

variable {settings : Settings} {s s' : Stage} {nonce nonce' : Nat}

def job : Stage → Job
  | queued job | building job _ _ | finished job _ => job

/-- What the job will give, without nonces. -/
def outcome (settings : Settings) : Stage → Except Fault (Except CompileError CompiledUnit)
  | queued job => job.func.outcome settings
  | building job todo done => job.func.rest settings todo done
  | finished _ result => .ok (result.map CompiledUnit.anonymous)

/-- The nonces of the records that the job has. -/
def nonces : Stage → List Nat
  | queued _ => []
  | building _ _ done => done.map (·.nonce)
  | finished _ result => resultNonces result

/-- Actions that suffice to finish the job. -/
def remaining : Stage → Nat
  | queued job => job.actions
  | building _ todo _ => todo.length + 1
  | finished _ _ => 0

/-- One action on a job, with the next nonce before and after it. -/
inductive Step (settings : Settings) : Stage → Nat → Stage → Nat → Prop where
  | refuse {job : Job} {e : CompileError} {nonce : Nat} (h : job.func.precheck settings = .error e) :
      Step settings (queued job) nonce (finished job (.error e)) nonce
  | begin {job : Job} {nonce : Nat} (h : job.func.precheck settings = .ok ()) :
      Step settings (queued job) nonce (building job job.func.deoptSites []) nonce
  | record {job : Job} {site : Site} {todo : List Site} {done : List Record} {nonce : Nat} {i : Instr}
      {r : Record} (hi : job.func.instr site = .ok i) (h : job.func.buildRecord i nonce = .ok (.ok r)) :
      Step settings (building job (site :: todo) done) nonce (building job todo (done ++ [r])) (nonce + 1)
  | fail {job : Job} {site : Site} {todo : List Site} {done : List Record} {nonce : Nat} {i : Instr}
      {e : CompileError} (hi : job.func.instr site = .ok i)
      (h : job.func.buildRecord i nonce = .ok (.error e)) :
      Step settings (building job (site :: todo) done) nonce (finished job (.error e)) nonce
  | finish {job : Job} {done : List Record} {nonce : Nat} {result : Except CompileError CompiledUnit}
      (h : job.func.finish settings done = .ok result) :
      Step settings (building job [] done) nonce (finished job result) nonce

theorem Step.job_eq (h : Step settings s nonce s' nonce') : s'.job = s.job := by
  cases h <;> rfl

theorem Step.outcome_eq (h : Step settings s nonce s' nonce') :
    s'.outcome settings = s.outcome settings := by
  cases h with
  | refuse h => simp only [outcome, Function.outcome, h, Except.map]
  | begin h => simp only [outcome, Function.outcome, h]
  | record hi h => exact (Function.rest_cons_ok hi h _ _).symm
  | fail hi h => exact (Function.rest_cons_error hi h _ _).symm
  | finish h =>
    simp only [outcome, Function.rest, h]
    rfl

theorem Step.remaining_lt (h : Step settings s nonce s' nonce') : s'.remaining < s.remaining := by
  cases h with
  | refuse _ | begin _ =>
    simp only [remaining, Job.actions]
    omega
  | record _ _ | fail _ _ | finish _ => simp [remaining]

/-- An action draws the next nonce for a new record, or leaves the nonce alone and adds none. -/
theorem Step.nonces_eq (h : Step settings s nonce s' nonce') :
    (nonce' = nonce ∧ s'.nonces.Sublist s.nonces) ∨
      (nonce' = nonce + 1 ∧ s'.nonces = s.nonces ++ [nonce]) := by
  cases h with
  | refuse _ | begin _ | fail _ _ => exact .inl ⟨rfl, List.nil_sublist _⟩
  | @record job site todo done _ i r _ h =>
    obtain ⟨_, _, -, -, -, -, -, -, -, hnonce⟩ := Function.buildRecord_eq_ok h
    exact .inr ⟨rfl, by simp [nonces, hnonce]⟩
  | @finish job done _ result h =>
    refine .inl ⟨rfl, ?_⟩
    cases result with
    | error e => exact List.nil_sublist _
    | ok u =>
      obtain ⟨-, hrecords, -⟩ := Function.finish_eq_ok h
      have hsame : u.records.map (·.nonce) = done.map (·.nonce) := by
        rw [hrecords, List.map_map]
        rfl
      show (u.records.map (·.nonce)).Sublist (done.map (·.nonce))
      rw [hsame]

theorem Step.nonce_le (h : Step settings s nonce s' nonce') : nonce ≤ nonce' := by
  rcases h.nonces_eq with ⟨hsame, -⟩ | ⟨hnext, -⟩ <;> omega

theorem Step.drawn {first : Nat} (h : Step settings s nonce s' nonce') (hfirst : first ≤ nonce)
    (hdrawn : ∀ n ∈ s.nonces, first ≤ n ∧ n < nonce) : ∀ n ∈ s'.nonces, first ≤ n ∧ n < nonce' := by
  intro n hn
  rcases h.nonces_eq with ⟨rfl, hsub⟩ | ⟨rfl, hnew⟩
  · exact hdrawn n (hsub.subset hn)
  · rw [hnew] at hn
    rcases List.mem_append.1 hn with hn | hn
    · have := hdrawn n hn
      omega
    · have := List.mem_singleton.1 hn
      omega

/-- A new nonce is none of those in use, by this job or another. -/
theorem Step.nonces_nodup {others : Multiset Nat} (h : Step settings s nonce s' nonce')
    (hdistinct : ((s.nonces : Multiset Nat) + others).Nodup) (hold : ∀ n ∈ s.nonces, n < nonce)
    (hothers : ∀ n ∈ others, n < nonce) : ((s'.nonces : Multiset Nat) + others).Nodup := by
  rcases h.nonces_eq with ⟨-, hsub⟩ | ⟨-, hnew⟩
  · exact Multiset.nodup_of_le (add_le_add_left (Multiset.coe_le.2 hsub.subperm) _) hdistinct
  · have hfresh : nonce ∉ (s.nonces : Multiset Nat) + others := by
      intro hmem
      rcases Multiset.mem_add.1 hmem with hmem | hmem
      · exact Nat.lt_irrefl _ (hold _ hmem)
      · exact Nat.lt_irrefl _ (hothers _ hmem)
    rw [hnew, ← Multiset.coe_add, Multiset.coe_singleton, add_right_comm, add_comm,
      Multiset.singleton_add]
    exact Multiset.nodup_cons.2 ⟨hfresh, hdistinct⟩

end Stage

/-- The stage of the job that a worker has, if any. -/
def Task.stages : Task → List Stage
  | .idle => []
  | .building job todo done => [.building job todo done]

/-- A job and what became of it. -/
abbrev Finished := Job × Except CompileError CompiledUnit

def Finished.stage (r : Finished) : Stage := .finished r.1 r.2

namespace Pool

variable {σ ρ : Type} {settings : Settings} {publish : CompiledUnit → σ → ρ × σ} {p p' : Pool σ ρ}
  {w : Nat} {finished : List Finished}

/-- The stages of all jobs, given what the finished ones came to. -/
def stages (p : Pool σ ρ) (finished : List Finished) : Multiset Stage :=
  ↑(p.queue.map Stage.queued) + ↑(p.tasks.flatMap Task.stages) + ↑(finished.map Finished.stage)

/-- The worker has something to do. -/
def CanAct (p : Pool σ ρ) (w : Nat) : Prop :=
  (∃ job todo done, p.tasks[w]? = some (.building job todo done)) ∨
    (p.tasks[w]? = some .idle ∧ p.queue ≠ [])

theorem stages_cons (p : Pool σ ρ) (r : Finished) (finished : List Finished) :
    p.stages (r :: finished) = r.stage ::ₘ p.stages finished := by
  rw [stages, List.map_cons, ← Multiset.cons_coe, Multiset.add_cons]
  rfl

/-- The jobs apart from one worker's: they stay as they are when it gets another task, or reports. -/
theorem stages_split {t : Task} (h : p.tasks[w]? = some t) (finished : List Finished) :
    ∃ rest : Multiset Stage, p.stages finished = t.stages + rest ∧
      (∀ t' : Task, (p.setTask w t').stages finished = t'.stages + rest) ∧
      ∀ job result x, (p.report w job x).stages ((job, result) :: finished) =
        .finished job result ::ₘ rest := by
  obtain ⟨hw, rfl⟩ := List.getElem?_eq_some_iff.1 h
  have hset : ∀ t' : Task, (↑((p.tasks.set w t').flatMap Task.stages) : Multiset Stage) =
      t'.stages + (↑((p.tasks.take w).flatMap Task.stages) +
        ↑((p.tasks.drop (w + 1)).flatMap Task.stages)) := by
    intro t'
    rw [List.set_eq_take_append_cons_drop, if_pos hw, List.flatMap_append, List.flatMap_cons,
      ← Multiset.coe_add, ← Multiset.coe_add, add_left_comm]
  have hsetTask : ∀ t' : Task, (p.setTask w t').stages finished = t'.stages +
      (↑(p.queue.map Stage.queued) + (↑((p.tasks.take w).flatMap Task.stages) +
        ↑((p.tasks.drop (w + 1)).flatMap Task.stages)) + ↑(finished.map Finished.stage)) := by
    intro t'
    have hsplit : (p.setTask w t').stages finished = ↑(p.queue.map Stage.queued) +
      ↑((p.tasks.set w t').flatMap Task.stages) + ↑(finished.map Finished.stage) := rfl
    rw [hsplit, hset, add_left_comm, add_assoc]
  refine ⟨_, ?_, hsetTask, fun job result x => ?_⟩
  · rw [← hsetTask p.tasks[w], setTask, List.set_getElem_self]
  · show (p.setTask w .idle).stages ((job, result) :: finished) = _
    rw [stages_cons, hsetTask .idle, Task.stages, Multiset.coe_nil, zero_add]
    rfl

end Pool

/-! ## Publication -/

section Publication

variable {σ ρ : Type}

/-- What is asked of publication: it keeps the shared value good, and a finished unit that it takes from
a good value is published from then on. -/
structure Publishes (settings : Settings) (publish : CompiledUnit → σ → ρ × σ) (Good : σ → Prop)
    (Pub : σ → CompiledUnit → ρ → Prop) : Prop where
  good : ∀ u {s}, Good s → Good (publish u s).2
  new : ∀ {f : Function} {records u s}, f.finish settings records = .ok (.ok u) → Good s →
    Pub (publish u s).2 u (publish u s).1
  old : ∀ u {s u' a}, Good s → Pub s u' a → Pub (publish u s).2 u' a

/-- What is answered for a result: an error as it is, a unit as publication answered it. -/
inductive Answers (Pub : CompiledUnit → ρ → Prop) :
    Except CompileError CompiledUnit → Except CompileError ρ → Prop where
  | error (e : CompileError) : Answers Pub (.error e) (.error e)
  | ok {u : CompiledUnit} {a : ρ} (h : Pub u a) : Answers Pub (.ok u) (.ok a)

theorem Answers.mono {Pub Pub' : CompiledUnit → ρ → Prop} (hpub : ∀ u a, Pub u a → Pub' u a)
    {result : Except CompileError CompiledUnit} {answer : Except CompileError ρ}
    (h : Answers Pub result answer) : Answers Pub' result answer := by
  cases h with
  | error e => exact .error e
  | ok h => exact .ok (hpub _ _ h)

/-- A finished job as it is reported, under its place. -/
def Reports (Pub : CompiledUnit → ρ → Prop) (r : Finished) (x : Nat × Except CompileError ρ) : Prop :=
  x.1 = r.1.place ∧ Answers Pub r.2 x.2

end Publication

namespace Pool

variable {σ ρ : Type} {settings : Settings} {publish : CompiledUnit → σ → ρ × σ} {Good : σ → Prop}
  {Pub : σ → CompiledUnit → ρ → Prop} {p p' : Pool σ ρ} {w : Nat} {finished : List Finished}

/-- One job moves one stage on; what is reported is published. -/
def Moves (settings : Settings) (Good : σ → Prop) (Pub : σ → CompiledUnit → ρ → Prop) (p : Pool σ ρ)
    (finished : List Finished) (p' : Pool σ ρ) : Prop :=
  ∃ s s' rest finished', s.Step settings p.nonce s' p'.nonce ∧
    p.stages finished = s ::ₘ rest ∧ p'.stages finished' = s' ::ₘ rest ∧
    p'.tasks.length = p.tasks.length ∧ Good p'.shared.value ∧
    List.Forall₂ (Reports (Pub p'.shared.value)) finished' p'.results

section Moves

variable (hpub : Publishes settings publish Good Pub) (hgood : Good p.shared.value)
  (hreported : List.Forall₂ (Reports (Pub p.shared.value)) finished p.results)

include hgood hreported

theorem take_moves (h : p.tasks[w]? = some .idle) :
    (¬ p.CanAct w ∧ p.take settings w = p) ∨ p.Moves settings Good Pub finished (p.take settings w) := by
  unfold take
  split
  · next hqueue => exact .inl ⟨by simp [CanAct, h, hqueue], rfl⟩
  · next job queue hqueue =>
    obtain ⟨rest, hrest, hset, hreport⟩ := stages_split (p := { p with queue }) h finished
    have hstages : p.stages finished = .queued job ::ₘ rest := by
      rw [← zero_add rest, ← Multiset.coe_nil]
      rw [stages, hqueue, List.map_cons, ← Multiset.cons_coe, Multiset.cons_add, Multiset.cons_add]
      exact congrArg (_ ::ₘ ·) hrest
    refine .inr ⟨.queued job, ?_⟩
    dsimp only
    split
    · next e hcheck =>
      exact ⟨_, rest, (job, .error e) :: finished, .refuse hcheck, hstages, hreport _ _ _,
        List.length_set, hgood, .cons ⟨rfl, .error e⟩ hreported⟩
    · next hcheck =>
      exact ⟨_, rest, finished, .begin hcheck, hstages, hset _, List.length_set, hgood, hreported⟩

include hpub

theorem publishUnit_moves {job : Job} {done : List Record} (h : p.tasks[w]? = some (.building job [] done))
    (hp : p.publishUnit settings publish w job done = .ok p') : p.Moves settings Good Pub finished p' := by
  obtain ⟨rest, hrest, -, hreport⟩ := stages_split h finished
  obtain ⟨result, hfinish, hp⟩ := bind_eq_ok.1 hp
  refine ⟨.building job [] done, .finished job result, rest, (job, result) :: finished, ?_⟩
  split at hp
  · next e =>
    obtain rfl := Except.ok.inj hp
    exact ⟨.finish hfinish, hrest, hreport _ _ _, List.length_set, hgood,
      .cons ⟨rfl, .error e⟩ hreported⟩
  · next u =>
    obtain rfl := Except.ok.inj hp
    refine ⟨.finish hfinish, hrest, hreport job _ (.ok (publish u p.shared.value).1),
      List.length_set, hpub.good u hgood, .cons ⟨rfl, .ok (hpub.new hfinish hgood)⟩ ?_⟩
    exact hreported.imp fun _ _ ⟨hplace, hr⟩ => ⟨hplace, hr.mono fun _ _ => hpub.old u hgood⟩

/-- One action moves one job one stage on, or the worker has nothing to do. -/
theorem step_moves (h : p.step settings publish w = .ok p') :
    (¬ p.CanAct w ∧ p' = p) ∨ p.Moves settings Good Pub finished p' := by
  unfold step at h
  split at h
  · next hnone =>
    obtain rfl : p = p' := by simpa using h
    exact .inl ⟨by simp [CanAct, hnone], rfl⟩
  · next hidle =>
    obtain rfl : p.take settings w = p' := by simpa using h
    exact take_moves hgood hreported hidle
  · next job done hbuilding => exact .inr (publishUnit_moves hpub hgood hreported hbuilding h)
  · next job site todo done hbuilding =>
    obtain ⟨rest, hrest, hset, hreport⟩ := stages_split hbuilding finished
    obtain ⟨i, hi, h⟩ := bind_eq_ok.1 h
    obtain ⟨built, hbuilt, h⟩ := bind_eq_ok.1 h
    refine .inr ⟨.building job (site :: todo) done, ?_⟩
    split at h
    · next e =>
      obtain rfl := Except.ok.inj h
      exact ⟨_, rest, (job, .error e) :: finished, .fail hi hbuilt, hrest, hreport _ _ _,
        List.length_set, hgood, .cons ⟨rfl, .error e⟩ hreported⟩
    · next r =>
      obtain rfl := Except.ok.inj h
      exact ⟨_, rest, finished, .record hi hbuilt, hrest, hset _, List.length_set, hgood, hreported⟩

end Moves

/-! ## What every order of actions keeps -/

/-- The books of a pool: which jobs there are, what they came to, and which nonces are in use. -/
structure Tally (settings : Settings) (jobs : List Job) (first : Nat) (Good : σ → Prop)
    (Pub : σ → CompiledUnit → ρ → Prop) (p : Pool σ ρ) (finished : List Finished) : Prop where
  good : Good p.shared.value
  reported : List.Forall₂ (Reports (Pub p.shared.value)) finished p.results
  jobs : (p.stages finished).map Stage.job = jobs
  outcomes : ∀ s ∈ p.stages finished, s.outcome settings = s.job.func.outcome settings
  distinct : ((p.stages finished).bind fun s => (s.nonces : Multiset Nat)).Nodup
  drawn : ∀ s ∈ p.stages finished, ∀ n ∈ s.nonces, first ≤ n ∧ n < p.nonce
  first_le : first ≤ p.nonce

/-- Actions that are left. -/
def remaining (p : Pool σ ρ) : Nat := ((p.stages []).map Stage.remaining).sum

theorem remaining_eq (p : Pool σ ρ) (finished : List Finished) :
    ((p.stages finished).map Stage.remaining).sum = p.remaining := by
  induction finished with
  | nil => rfl
  | cons r finished ih =>
    rw [stages_cons, Multiset.map_cons, Multiset.sum_cons, ih]
    exact Nat.zero_add _

variable {jobs : List Job} {first : Nat}

theorem Tally.move (ht : Tally settings jobs first Good Pub p finished) {s s' : Stage}
    {rest : Multiset Stage} {finished' : List Finished} (hstep : s.Step settings p.nonce s' p'.nonce)
    (hstages : p.stages finished = s ::ₘ rest) (hstages' : p'.stages finished' = s' ::ₘ rest)
    (hgood : Good p'.shared.value)
    (hreported : List.Forall₂ (Reports (Pub p'.shared.value)) finished' p'.results) :
    Tally settings jobs first Good Pub p' finished' := by
  obtain ⟨-, -, hjobs, houtcomes, hdistinct, hdrawn, hfirst⟩ := ht
  rw [hstages] at hjobs houtcomes hdistinct hdrawn
  rw [Multiset.forall_mem_cons] at houtcomes hdrawn
  rw [Multiset.cons_bind] at hdistinct
  constructor
  case good => exact hgood
  case reported => exact hreported
  case jobs => rw [hstages', Multiset.map_cons, hstep.job_eq, ← hjobs, Multiset.map_cons]
  case outcomes =>
    rw [hstages', Multiset.forall_mem_cons, hstep.outcome_eq, hstep.job_eq]
    exact houtcomes
  case distinct =>
    rw [hstages', Multiset.cons_bind]
    refine hstep.nonces_nodup hdistinct (fun n hn => (hdrawn.1 n hn).2) fun n hn => ?_
    obtain ⟨t, ht, hn⟩ := Multiset.mem_bind.1 hn
    exact (hdrawn.2 t ht n hn).2
  case drawn =>
    rw [hstages', Multiset.forall_mem_cons]
    refine ⟨hstep.drawn hfirst hdrawn.1, fun t ht n hn => ?_⟩
    have hn := hdrawn.2 t ht n hn
    have hle := hstep.nonce_le
    omega
  case first_le => exact hfirst.trans hstep.nonce_le

/-- The books stay in order, and the worker has nothing to do or makes the work that is left less. -/
theorem Tally.step (hpub : Publishes settings publish Good Pub)
    (ht : Tally settings jobs first Good Pub p finished) (h : p.step settings publish w = .ok p') :
    ∃ finished', Tally settings jobs first Good Pub p' finished' ∧
      p'.tasks.length = p.tasks.length ∧
      ((¬ p.CanAct w ∧ p' = p) ∨ p'.remaining < p.remaining) := by
  rcases step_moves hpub ht.good ht.reported h with ⟨hact, rfl⟩ |
    ⟨s, s', rest, finished', hstep, hstages, hstages', hlen, hgood, hreported⟩
  · exact ⟨finished, ht, rfl, .inl ⟨hact, rfl⟩⟩
  · refine ⟨finished', ht.move hstep hstages hstages' hgood hreported, hlen, .inr ?_⟩
    rw [← p.remaining_eq finished, ← p'.remaining_eq finished', hstages, hstages', Multiset.map_cons,
      Multiset.map_cons, Multiset.sum_cons, Multiset.sum_cons]
    have := hstep.remaining_lt
    omega

theorem mem_stages_of_task {job : Job} {todo : List Site} {done : List Record}
    (h : p.tasks[w]? = some (.building job todo done)) (finished : List Finished) :
    Stage.building job todo done ∈ p.stages finished := by
  obtain ⟨rest, hrest, -⟩ := stages_split h finished
  rw [hrest]
  exact Multiset.mem_add.2 (.inl List.mem_cons_self)

theorem Tally.step_ok (hclean : ∀ job ∈ jobs, ∃ o, job.func.outcome settings = .ok o)
    (ht : Tally settings jobs first Good Pub p finished) (publish : CompiledUnit → σ → ρ × σ) (w : Nat) :
    ∃ p', p.step settings publish w = .ok p' := by
  have hrest : ∀ job todo done, p.tasks[w]? = some (.building job todo done) →
      ∃ o, job.func.rest settings todo done = .ok o := by
    intro job todo done htask
    have hmem := mem_stages_of_task htask finished
    have hjob : job ∈ jobs := by
      rw [← Multiset.mem_coe, ← ht.jobs]
      exact Multiset.mem_map_of_mem Stage.job hmem
    obtain ⟨o, ho⟩ := hclean job hjob
    exact ⟨o, (ht.outcomes _ hmem).trans ho⟩
  unfold Pool.step
  match htask : p.tasks[w]? with
  | none => exact ⟨_, rfl⟩
  | some .idle => exact ⟨_, rfl⟩
  | some (.building job [] done) =>
    obtain ⟨o, ho⟩ := hrest job [] done htask
    obtain ⟨result, hfinish, -⟩ := map_eq_ok.1 ho
    unfold publishUnit
    dsimp only
    rw [hfinish]
    cases result with
    | error e => exact ⟨_, rfl⟩
    | ok u => exact ⟨_, rfl⟩
  | some (.building job (site :: todo) done) =>
    obtain ⟨o, ho⟩ := hrest job _ done htask
    cases hsite : (job.func.instr site >>= fun i => job.func.buildRecord i p.nonce) with
    | error fault =>
      rw [Function.rest_cons_fault p.nonce hsite] at ho
      cases ho
    | ok built =>
      obtain ⟨i, hi, hbuilt⟩ := bind_eq_ok.1 hsite
      dsimp only
      rw [hi, ok_bind, hbuilt]
      cases built with
      | error e => exact ⟨_, rfl⟩
      | ok r => exact ⟨_, rfl⟩

/-- Any order of actions can be run, and keeps the books in order. -/
theorem Tally.run (hpub : Publishes settings publish Good Pub)
    (hclean : ∀ job ∈ jobs, ∃ o, job.func.outcome settings = .ok o)
    (ht : Tally settings jobs first Good Pub p finished) (schedule : List Nat) :
    ∃ p' finished', p.run settings publish schedule = .ok p' ∧
      Tally settings jobs first Good Pub p' finished' ∧ p'.tasks.length = p.tasks.length ∧
      p'.remaining ≤ p.remaining := by
  induction schedule generalizing p finished with
  | nil => exact ⟨p, finished, rfl, ht, rfl, Nat.le_refl _⟩
  | cons w schedule ih =>
    obtain ⟨p₁, h₁⟩ := ht.step_ok hclean publish w
    obtain ⟨finished₁, ht₁, hlen₁, hless⟩ := ht.step hpub h₁
    obtain ⟨p', finished', h', ht', hlen', hle⟩ := ih ht₁
    refine ⟨p', finished', foldlM_cons_eq_ok.2 ⟨p₁, h₁, h'⟩, ht', hlen'.trans hlen₁, ?_⟩
    rcases hless with ⟨-, rfl⟩ | hlt
    · exact hle
    · omega

/-! ## Enough turns finish -/

/-- The queue is empty and all workers are idle. -/
def Done (p : Pool σ ρ) : Prop := p.queue = [] ∧ ∀ t ∈ p.tasks, t = .idle

theorem Done.stages_eq (h : p.Done) (finished : List Finished) :
    p.stages finished = ↑(finished.map Finished.stage) := by
  have htasks : p.tasks.flatMap Task.stages = [] := by
    refine List.flatMap_eq_nil_iff.2 fun t ht => ?_
    rw [h.2 t ht]
    rfl
  rw [stages, h.1, htasks]
  exact zero_add _

theorem done_of_remaining (h : p.remaining = 0) : p.Done := by
  have hzero : ∀ s ∈ p.stages [], s.remaining = 0 := fun s hs =>
    Nat.le_zero.1 (h ▸ Multiset.single_le_sum (fun _ _ => Nat.zero_le _) _ (Multiset.mem_map_of_mem _ hs))
  constructor
  · cases hqueue : p.queue with
    | nil => rfl
    | cons job queue =>
      have := hzero (.queued job) (by simp [stages, hqueue])
      simp [Stage.remaining, Job.actions] at this
  · intro t ht
    cases t with
    | idle => rfl
    | building job todo done =>
      obtain ⟨w, hw⟩ := List.getElem?_of_mem ht
      have := hzero _ (mem_stages_of_task hw [])
      simp [Stage.remaining] at this

theorem exists_canAct (h : p.remaining ≠ 0) (htasks : p.tasks ≠ []) :
    ∃ w < p.tasks.length, p.CanAct w := by
  by_contra hnone
  push Not at hnone
  apply h
  have hidle : ∀ t ∈ p.tasks, t = .idle := by
    intro t ht
    cases t with
    | idle => rfl
    | building job todo done =>
      obtain ⟨w, hw, hget⟩ := List.getElem_of_mem ht
      exact absurd (.inl ⟨job, todo, done, by rw [List.getElem?_eq_getElem hw, hget]⟩) (hnone w hw)
  have hqueue : p.queue = [] := by
    by_contra hqueue
    have hpos : 0 < p.tasks.length := List.length_pos_iff.2 htasks
    refine hnone 0 hpos (.inr ⟨?_, hqueue⟩)
    rw [List.getElem?_eq_getElem hpos, hidle _ (List.getElem_mem hpos)]
  rw [remaining, Done.stages_eq ⟨hqueue, hidle⟩]
  rfl

/-- A round in which some worker can act makes the work that is left less. -/
theorem Tally.round (hpub : Publishes settings publish Good Pub)
    (hclean : ∀ job ∈ jobs, ∃ o, job.func.outcome settings = .ok o)
    (ht : Tally settings jobs first Good Pub p finished) {workers : List Nat} (hw : w ∈ workers)
    (hact : p.CanAct w) (h : p.run settings publish workers = .ok p') : p'.remaining < p.remaining := by
  induction workers generalizing p finished with
  | nil => simp at hw
  | cons v workers ih =>
    obtain ⟨p₁, h₁, hrest⟩ := foldlM_cons_eq_ok.1 h
    obtain ⟨finished₁, ht₁, -, hless⟩ := ht.step hpub h₁
    rcases hless with ⟨hidle, rfl⟩ | hlt
    · rcases List.mem_cons.1 hw with rfl | hw
      · exact absurd hact hidle
      · exact ih ht₁ hw hact hrest
    · obtain ⟨q, -, hq, -, -, hle⟩ := ht₁.run hpub hclean workers
      obtain rfl : q = p' := Except.ok.inj (hq.symm.trans hrest)
      omega

/-- As many rounds as actions are left finish all jobs. -/
theorem Tally.rounds (hpub : Publishes settings publish Good Pub)
    (hclean : ∀ job ∈ jobs, ∃ o, job.func.outcome settings = .ok o)
    (ht : Tally settings jobs first Good Pub p finished) (htasks : p.tasks ≠ []) {k : Nat}
    (hk : p.remaining ≤ k)
    (h : p.run settings publish (List.replicate k (List.range p.tasks.length)).flatten = .ok p') :
    p'.remaining = 0 := by
  induction k generalizing p finished with
  | zero =>
    obtain rfl : p = p' := by simpa [Pool.run] using h
    omega
  | succ k ih =>
    rw [List.replicate_succ, List.flatten_cons, Pool.run, List.foldlM_append] at h
    obtain ⟨p₁, h₁, h⟩ := bind_eq_ok.1 h
    obtain ⟨q, finished₁, hq, ht₁, hlen, hle⟩ := ht.run hpub hclean (List.range p.tasks.length)
    obtain rfl : q = p₁ := Except.ok.inj (hq.symm.trans h₁)
    have htasks₁ : q.tasks ≠ [] := by
      rw [← List.length_pos_iff] at htasks ⊢
      omega
    refine ih ht₁ htasks₁ ?_ (hlen ▸ h)
    by_cases hzero : p.remaining = 0
    · omega
    · obtain ⟨w, hw, hact⟩ := exists_canAct hzero htasks
      have := ht.round hpub hclean (List.mem_range.2 hw) hact h₁
      omega

end Pool

/-! ## Whole compilations -/

/-- What functions compiled together come to: each gives what it gives alone, apart from nonces, and is
answered in its place; the nonces of all records are different, and were drawn on the way. -/
structure Together {ρ : Type} (funcs : List Function) (settings : Settings) (first last : Nat)
    (Pub : CompiledUnit → ρ → Prop) (answers : List (Except CompileError ρ))
    (results : List (Except CompileError CompiledUnit)) : Prop where
  outcomes : List.Forall₂ (fun f result =>
    f.outcome settings = .ok (result.map CompiledUnit.anonymous)) funcs results
  answers : List.Forall₂ (Answers Pub) results answers
  distinct : (results.flatMap resultNonces).Nodup
  drawn : ∀ result ∈ results, ∀ n ∈ resultNonces result, first ≤ n ∧ n < last

theorem func_jobsOf (funcs : List Function) : (jobsOf funcs).map Job.func = funcs := by
  simp [jobsOf, Function.comp_def]

theorem place_jobsOf (funcs : List Function) :
    (jobsOf funcs).map Job.place = List.range funcs.length := by
  simp [jobsOf, Function.comp_def, List.range_eq_range']

namespace Pool

variable {σ ρ : Type} {settings : Settings} {publish : CompiledUnit → σ → ρ × σ} {Good : σ → Prop}
  {Pub : σ → CompiledUnit → ρ → Prop} {p : Pool σ ρ} {finished : List Finished} {funcs : List Function}
  {workers nonce : Nat} {shared : Section σ}

/-- If every place is reported once, then the results in order are the reports in order. -/
theorem inOrder_eq {reports : List (Nat × Except CompileError ρ)} {n : Nat}
    (hperm : reports.Perm p.results) (hplaces : reports.map (·.1) = List.range n) :
    p.inOrder n = reports.map (·.2) := by
  have hnodup : (p.results.map (·.1)).Nodup := by
    rw [← (hperm.map (·.1)).nodup_iff, hplaces]
    exact List.nodup_range
  have hfind : ∀ x ∈ reports, p.results.find? (fun r => r.1 == x.1) = some x := by
    intro x hx
    have hmem := hperm.subset hx
    cases hfound : p.results.find? (fun r => r.1 == x.1) with
    | none => simpa using List.find?_eq_none.1 hfound x hmem
    | some y =>
      have hplace : y.1 = x.1 := by simpa using List.find?_some hfound
      rw [List.inj_on_of_nodup_map hnodup (List.mem_of_find?_eq_some hfound) hmem hplace]
  unfold inOrder
  rw [← hplaces, List.filterMap_map, ← List.filterMap_eq_map]
  refine List.filterMap_congr fun x hx => ?_
  rw [Function.comp_apply, hfind x hx]
  rfl

/-- Finished jobs and their reports can be put in the order of the jobs, both at once. -/
theorem exists_sorted {Pub : CompiledUnit → ρ → Prop} {jobs : List Job}
    {reports : List (Nat × Except CompileError ρ)} (hjobs : jobs.Perm (finished.map (·.1)))
    (hreported : List.Forall₂ (Reports Pub) finished reports) :
    ∃ finished' reports', finished'.Perm finished ∧ reports'.Perm reports ∧
      finished'.map (·.1) = jobs ∧ List.Forall₂ (Reports Pub) finished' reports' := by
  have hfirst : List.Forall₂ (fun job (r : Finished) => job = r.1) (finished.map (·.1)) finished := by
    rw [List.forall₂_map_left_iff]
    exact List.forall₂_same.2 fun _ _ => rfl
  obtain ⟨finished', hsorted, hfinished⟩ := List.perm_comp_forall₂ hjobs hfirst
  obtain ⟨reports', hreports, hresults⟩ := List.perm_comp_forall₂ hfinished hreported
  refine ⟨finished', reports', hfinished, hresults, ?_, hreports⟩
  rw [← List.forall₂_map_right_iff, List.forall₂_eq_eq_eq] at hsorted
  exact hsorted.symm

theorem places_of_reports {Pub : CompiledUnit → ρ → Prop} {reports : List (Nat × Except CompileError ρ)}
    (h : List.Forall₂ (Reports Pub) finished reports) :
    reports.map (·.1) = finished.map fun r => r.1.place := by
  induction h with
  | nil => rfl
  | cons hr _ ih => rw [List.map_cons, List.map_cons, hr.1, ih]

theorem Tally.together (ht : Tally settings (jobsOf funcs) nonce Good Pub p finished) (hdone : p.Done) :
    ∃ results, Together funcs settings nonce p.nonce (Pub p.shared.value) (p.inOrder funcs.length)
      results := by
  obtain ⟨-, hreported, hjobs, houtcomes, hdistinct, hdrawn, -⟩ := ht
  rw [hdone.stages_eq] at hjobs houtcomes hdistinct hdrawn
  rw [Multiset.map_coe, Multiset.coe_eq_coe, List.map_map] at hjobs
  obtain ⟨sorted, reports, hfinished, hresults, hsorted, hreports⟩ := exists_sorted hjobs.symm hreported
  have hplaces : reports.map (·.1) = List.range funcs.length := by
    rw [places_of_reports hreports, ← place_jobsOf, ← hsorted, List.map_map]
    rfl
  refine ⟨sorted.map (·.2), ?_⟩
  constructor
  case outcomes =>
    have hfuncs : sorted.map (fun r => r.1.func) = funcs := by
      conv_rhs => rw [← func_jobsOf funcs, ← hsorted, List.map_map]
      rfl
    rw [← hfuncs, List.forall₂_map_left_iff, List.forall₂_map_right_iff]
    refine List.forall₂_same.2 fun r hr => ?_
    exact (houtcomes r.stage (List.mem_map_of_mem (hfinished.subset hr))).symm
  case answers =>
    rw [inOrder_eq hresults hplaces, List.forall₂_map_left_iff, List.forall₂_map_right_iff]
    exact hreports.imp fun _ _ h => h.2
  case distinct =>
    rw [Multiset.coe_bind, Multiset.coe_nodup, List.flatMap_map] at hdistinct
    rw [List.flatMap_map]
    exact (hfinished.flatMap_right _).nodup_iff.2 hdistinct
  case drawn =>
    intro result hresult n hn
    obtain ⟨r, hr, rfl⟩ := List.mem_map.1 hresult
    exact hdrawn r.stage (List.mem_map_of_mem (hfinished.subset hr)) n hn

theorem stages_start :
    (start funcs workers nonce shared : Pool σ ρ).stages [] = ↑((jobsOf funcs).map Stage.queued) := by
  have hidle : (List.replicate workers Task.idle).flatMap Task.stages = [] :=
    List.flatMap_eq_nil_iff.2 fun t ht => by rw [List.eq_of_mem_replicate ht]; rfl
  unfold stages start
  rw [hidle]
  exact (add_zero _).trans (add_zero _)

theorem tally_start (hgood : Good shared.value) :
    Tally settings (jobsOf funcs) nonce Good Pub (start funcs workers nonce shared : Pool σ ρ) [] := by
  have hqueued : ∀ s ∈ (start funcs workers nonce shared : Pool σ ρ).stages [],
      ∃ job, s = .queued job := by
    intro s hs
    rw [stages_start] at hs
    obtain ⟨job, -, rfl⟩ := List.mem_map.1 hs
    exact ⟨job, rfl⟩
  constructor
  case good => exact hgood
  case reported => exact .nil
  case jobs =>
    rw [stages_start, Multiset.map_coe, List.map_map]
    exact congrArg _ (List.map_id _)
  case outcomes =>
    intro s hs
    obtain ⟨job, rfl⟩ := hqueued s hs
    rfl
  case distinct =>
    have hnone : ((start funcs workers nonce shared : Pool σ ρ).stages []).bind
        (fun s => (s.nonces : Multiset Nat)) = 0 := by
      refine Multiset.eq_zero_of_forall_notMem fun n hn => ?_
      obtain ⟨s, hs, hn⟩ := Multiset.mem_bind.1 hn
      obtain ⟨job, rfl⟩ := hqueued s hs
      simp [Stage.nonces] at hn
    rw [hnone]
    exact Multiset.nodup_zero
  case drawn =>
    intro s hs n hn
    obtain ⟨job, rfl⟩ := hqueued s hs
    simp [Stage.nonces] at hn
  case first_le => exact Nat.le_refl _

theorem remaining_start : (start funcs workers nonce shared : Pool σ ρ).remaining =
    (jobsOf funcs).foldr (fun job n => job.actions + n) 0 := by
  rw [remaining, stages_start, Multiset.map_coe, Multiset.sum_coe, List.map_map, List.sum_eq_foldr,
    List.foldr_map]
  rfl

theorem clean_jobsOf (hclean : ∀ f ∈ funcs, ∃ o, f.outcome settings = .ok o) :
    ∀ job ∈ jobsOf funcs, ∃ o, job.func.outcome settings = .ok o := by
  intro job hjob
  refine hclean job.func ?_
  rw [← func_jobsOf funcs]
  exact List.mem_map_of_mem hjob

theorem done_roundRobin (hpub : Publishes settings publish Good Pub) (hgood : Good shared.value)
    (hclean : ∀ f ∈ funcs, ∃ o, f.outcome settings = .ok o) {schedule : List Nat}
    (h : (start funcs (settings.workersFor funcs) nonce shared).run settings publish
      (schedule ++ roundRobin funcs settings) = .ok p) : p.Done := by
  rw [Pool.run, List.foldlM_append] at h
  obtain ⟨q, hq, h⟩ := bind_eq_ok.1 h
  obtain ⟨q', finished, hq', ht, hlen, hle⟩ :=
    (tally_start hgood).run hpub (clean_jobsOf hclean) schedule
  obtain rfl : q' = q := Except.ok.inj (hq'.symm.trans hq)
  have hworkers : q'.tasks.length = settings.workersFor funcs := hlen.trans List.length_replicate
  have htasks : q'.tasks ≠ [] := by
    rw [← List.length_pos_iff, hworkers]
    exact Nat.lt_of_lt_of_le Nat.one_pos (Nat.le_max_left _ _)
  apply done_of_remaining
  refine ht.rounds hpub (clean_jobsOf hclean) htasks hle ?_
  rw [remaining_start, hworkers]
  exact h

end Pool

variable {σ ρ : Type} {settings : Settings} {publish : CompiledUnit → σ → ρ × σ} {Good : σ → Prop}
  {Pub : σ → CompiledUnit → ρ → Prop} {funcs : List Function} {nonce : Nat} {shared : Section σ}
  {schedule : List Nat}

/-- **Functions compiled together**, by workers in any order that finishes: if none faults alone, the
compilation gives a result, and every function comes to what it comes to alone. -/
theorem compileAllBy_together (hpub : Publishes settings publish Good Pub) (hgood : Good shared.value)
    (hclean : ∀ f ∈ funcs, ∃ o, f.outcome settings = .ok o)
    (hdone : ∀ p, (Pool.start funcs (settings.workersFor funcs) nonce shared).run
      settings publish schedule = .ok p → p.Done) :
    ∃ answers last shared' results,
      compileAllBy schedule funcs settings nonce shared publish = .ok (answers, last, shared') ∧
      Good shared'.value ∧
      Together funcs settings nonce last (Pub shared'.value) answers results := by
  obtain ⟨p, finished, hrun, ht, -⟩ :=
    (Pool.tally_start hgood).run hpub (Pool.clean_jobsOf hclean) schedule
  obtain ⟨results, htogether⟩ := ht.together (hdone p hrun)
  unfold compileAllBy
  split
  · next hempty =>
    obtain rfl := List.isEmpty_iff.1 hempty
    exact ⟨[], nonce, shared, [], rfl, hgood, .nil, .nil, List.nodup_nil, by simp⟩
  · refine ⟨_, _, p.shared.endEpisode, results, ?_, ht.good, htogether⟩
    dsimp only
    rw [hrun]
    rfl

end Bailout
