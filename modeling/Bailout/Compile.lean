import Bailout.Layout
import Bailout.Record
import Bailout.Validation

/-!
# Compilation

A function is validated, a record is built for every reachable place where its code can be left, and
locations are assigned. Several functions are compiled by workers that take them from a queue.
-/

namespace Bailout

/-! ## One function

Each record draws the next nonce; nonces drawn before a failure are used up.
-/

structure CompiledUnit where
  name : String
  code : CodeUnit
  /-- One record for each site, in the order of the sites. -/
  records : List Record
  /-- The instruction each record was built from, in reverse post-order. -/
  sites : List Site
  layout : Layout
deriving DecidableEq, Repr

namespace CompiledUnit

def frameSize (u : CompiledUnit) : Nat := u.layout.frameSize

/-- Position of the record built for a site. -/
def recordIndex? (u : CompiledUnit) (s : Site) : Option Nat := u.sites.idxOf? s

end CompiledUnit

namespace Function

/-- Builds the records of some sites, and returns the next nonce. -/
def buildRecords (f : Function) : List Site → Nat → Except Fault (Except CompileError (List Record) × Nat)
  | [], nonce => .ok (.ok [], nonce)
  | s :: rest, nonce => do
    match ← f.buildRecord (← f.instr s) nonce with
    | .error e => return (.error e, nonce)
    | .ok r =>
      let (rs, nonce) ← f.buildRecords rest (nonce + 1)
      return (rs.map (r :: ·), nonce)

/-- The checks that come before any record, if the settings ask for them. -/
def precheck (f : Function) (settings : Settings) : Except CompileError Unit :=
  if settings.validate then f.validate.mapError .validation else .ok ()

/-- Turns the records of all sites into a unit. -/
def finish (f : Function) (settings : Settings) (records : List Record) :
    Except Fault (Except CompileError CompiledUnit) := do
  match ← Layout.assign records settings f.code.isGeneratorLike with
  | .error e => return .error e
  | .ok (layout, records) =>
    return .ok { name := f.name, code := f.code, records, sites := f.deoptSites, layout }

/-- Compiles a function, drawing nonces from `nonce` on, and returns the next nonce. -/
def compile (f : Function) (settings : Settings) (nonce : Nat) :
    Except Fault (Except CompileError CompiledUnit × Nat) := do
  match f.precheck settings with
  | .error e => return (.error e, nonce)
  | .ok () =>
    match ← f.buildRecords f.deoptSites nonce with
    | (.error e, nonce) => return (.error e, nonce)
    | (.ok records, nonce) => return (← f.finish settings records, nonce)

end Function

/-! ## Serialised sections

A value that several compilations share. A holder may enter again while inside. Episodes record that
several workers may be contending; they nest.
-/

structure Section (α : Type) where
  value : α
  /-- Episodes that have begun and not ended. -/
  episodes : Nat := 0
  /-- Times the holder is inside. -/
  entered : Nat := 0
deriving DecidableEq, Repr

namespace Section

variable {α β : Type}

def isThreaded (s : Section α) : Bool := 0 < s.episodes

def beginEpisode (s : Section α) : Section α := { s with episodes := s.episodes + 1 }

def endEpisode (s : Section α) : Section α := { s with episodes := s.episodes - 1 }

def enter (s : Section α) : Section α := { s with entered := s.entered + 1 }

def leave (s : Section α) : Section α := { s with entered := s.entered - 1 }

/-- Runs `f` on the value from inside the section. -/
def update (s : Section α) (f : α → β × α) : β × Section α :=
  let (b, value) := f s.value
  (b, { s with value })

/-- The value, once nobody is inside and no episode runs. -/
def close (s : Section α) : Section α := { s with episodes := 0, entered := 0 }

def summary (s : Section α) : String :=
  s!"CompileSection \x7b threaded: {s.isThreaded}, .. \x7d"

end Section

/-! ## Several workers

Workers take functions from a queue, draw nonces from one source and publish finished units inside a
shared section. A schedule says which worker acts next; what the results are does not depend on it, up
to nonces and the order of publication. Each action of a worker is one of: take a function, build the
record of one site, publish.
-/

/-- A function in the queue, with its place in the input. -/
structure Job where
  place : Nat
  func : Function
deriving DecidableEq, Repr

/-- What a worker is doing. -/
inductive Task where
  | idle
  /-- Building the records of a job: the sites to go, and the records so far. -/
  | building (job : Job) (todo : List Site) (done : List Record)
deriving DecidableEq, Repr

/-- The workers and what they share. -/
structure Pool (σ ρ : Type) where
  queue : List Job
  tasks : List Task
  nonce : Nat
  shared : Section σ
  /-- Finished jobs, by place in the input. -/
  results : List (Nat × Except CompileError ρ) := []

namespace Pool

variable {σ ρ : Type}

def setTask (p : Pool σ ρ) (w : Nat) (t : Task) : Pool σ ρ := { p with tasks := p.tasks.set w t }

/-- Records the result of a job and frees its worker. -/
def report (p : Pool σ ρ) (w : Nat) (job : Job) (result : Except CompileError ρ) : Pool σ ρ :=
  { p.setTask w .idle with results := (job.place, result) :: p.results }

/-- An idle worker takes the next job. -/
def take (settings : Settings) (p : Pool σ ρ) (w : Nat) : Pool σ ρ :=
  match p.queue with
  | [] => p
  | job :: queue =>
    let p := { p with queue }
    match job.func.precheck settings with
    | .error e => p.report w job (.error e)
    | .ok () => p.setTask w (.building job job.func.deoptSites [])

/-- Publishes the unit of a job whose records are all built. -/
def publishUnit (settings : Settings) (publish : CompiledUnit → σ → ρ × σ) (p : Pool σ ρ) (w : Nat)
    (job : Job) (records : List Record) : Except Fault (Pool σ ρ) := do
  match ← job.func.finish settings records with
  | .error e => return p.report w job (.error e)
  | .ok unit =>
    let (result, shared) := p.shared.update (publish unit)
    return { p with shared }.report w job (.ok result)

/-- The next action of one worker. -/
def step (settings : Settings) (publish : CompiledUnit → σ → ρ × σ) (p : Pool σ ρ) (w : Nat) :
    Except Fault (Pool σ ρ) := do
  match p.tasks[w]? with
  | none => return p
  | some .idle => return p.take settings w
  | some (.building job [] done) => p.publishUnit settings publish w job done
  | some (.building job (s :: todo) done) =>
    match ← job.func.buildRecord (← job.func.instr s) p.nonce with
    | .error e => return p.report w job (.error e)
    | .ok r => return { p with nonce := p.nonce + 1 }.setTask w (.building job todo (done ++ [r]))

/-- Lets workers act in the given order. -/
def run (settings : Settings) (publish : CompiledUnit → σ → ρ × σ) (p : Pool σ ρ)
    (schedule : List Nat) : Except Fault (Pool σ ρ) :=
  schedule.foldlM (step settings publish) p

/-- The results that are there, in input order. -/
def inOrder (p : Pool σ ρ) (jobs : Nat) : List (Except CompileError ρ) :=
  (List.range jobs).filterMap fun i => (p.results.find? fun r => r.1 == i).map (·.2)

end Pool

/-- Actions that suffice for a job, whatever becomes of it. -/
def Job.actions (job : Job) : Nat := job.func.deoptSites.length + 2

/-- A fault of a worker shows only as such. -/
def asWorkerFault {α : Type} : Except Fault α → Except Fault α
  | .ok a => .ok a
  | .error _ => .error .worker

section Compilation

variable {σ ρ : Type}

/-- The jobs of some functions, in input order. -/
def jobsOf (funcs : List Function) : List Job := funcs.zipIdx.map fun (f, i) => Job.mk i f

/-- At least one worker, and no more than there are functions. -/
def Settings.workersFor (settings : Settings) (funcs : List Function) : Nat :=
  max 1 (min settings.workers funcs.length)

/-- The workers before the first acts. -/
def Pool.start (funcs : List Function) (workers nonce : Nat) (shared : Section σ) : Pool σ ρ :=
  { queue := jobsOf funcs
    tasks := List.replicate workers .idle
    nonce
    shared := shared.beginEpisode }

/-- Compiles functions by workers that act in the order of the schedule, and publishes the units that
succeed. Results are in input order, followed by the next nonce and the section. -/
def compileAllBy (schedule : List Nat) (funcs : List Function) (settings : Settings) (nonce : Nat)
    (shared : Section σ) (publish : CompiledUnit → σ → ρ × σ) :
    Except Fault (List (Except CompileError ρ) × Nat × Section σ) := do
  if funcs.isEmpty then return ([], nonce, shared)
  let start := Pool.start funcs (settings.workersFor funcs) nonce shared
  let p ← asWorkerFault (start.run settings publish schedule)
  return (p.inOrder funcs.length, p.nonce, p.shared.endEpisode)

/-- Enough turns for every job, each worker acting once a turn. -/
def roundRobin (funcs : List Function) (settings : Settings) : List Nat :=
  let turns := (jobsOf funcs).foldr (fun job n => job.actions + n) 0
  (List.replicate turns (List.range (settings.workersFor funcs))).flatten

/-- Compiles functions by workers that take turns. -/
def compileAll (funcs : List Function) (settings : Settings) (nonce : Nat) (shared : Section σ)
    (publish : CompiledUnit → σ → ρ × σ) :
    Except Fault (List (Except CompileError ρ) × Nat × Section σ) :=
  compileAllBy (roundRobin funcs settings) funcs settings nonce shared publish

end Compilation

end Bailout
