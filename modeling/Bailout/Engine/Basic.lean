import Bailout.Compile
import Bailout.Config
import Bailout.Engine.Registry
import Bailout.Exit

/-!
# The engine

What compiled code needs while it runs: the registry, behind a section shared by compilations, the saved
state of suspended generators, and counters.
-/

namespace Bailout

/-! ## Statistics

Counters of exits from compiled code, and their text.
-/

structure Stats where
  deopts : Nat := 0
  framesMaterialized : Nat := 0
  suspendedGenerators : Nat := 0
  /-- Reasons that occurred, each with its count. -/
  byReason : List (Reason × Nat) := []
deriving DecidableEq, Repr

namespace Stats

def count (s : Stats) (reason : Reason) : Nat :=
  ((s.byReason.find? (·.1 == reason)).map (·.2)).getD 0

/-- Counts one exit. -/
def record (s : Stats) (reason : Reason) : Stats :=
  { s with
    deopts := s.deopts + 1
    byReason := (reason, s.count reason + 1) :: s.byReason.filter (·.1 != reason) }

/-- Compact JSON text, reasons in order of their names. -/
def json (s : Stats) : String :=
  let pair (name : String) (n : Nat) : String := "\"" ++ name ++ "\":" ++ Nat.repr n
  let reasons := (s.byReason.map fun r => (r.1.name, r.2)).mergeSort fun a b => a.1 ≤ b.1
  "\x7b" ++ pair "deopts" s.deopts ++ "," ++ pair "frames_materialized" s.framesMaterialized ++ "," ++
    pair "suspended_generators" s.suspendedGenerators ++ ",\"by_reason\":\x7b" ++
    String.intercalate "," (reasons.map fun r => pair r.1 r.2) ++ "\x7d\x7d"

end Stats

/-! ## Engines -/

/-- Native state of a compiled generator between suspensions. -/
structure Footer where
  unit : UnitId
  /-- The generator object; the footer owns no share of it. -/
  gen : Handle
  /-- The yield it is suspended at, or was last resumed from. -/
  site : DeoptId
  record : Record
  /-- The saved spill area: the owned references while suspended, empty while running. -/
  spill : List Word
  status : GenStatus
deriving DecidableEq, Repr

def Footer.isSuspended (f : Footer) : Bool := f.status == .suspended

/-- What native code needs to go on with a suspended generator. -/
structure Resume where
  unit : UnitId
  site : DeoptId
  spill : List Word
deriving DecidableEq, Repr

structure Engine where
  config : Config := {}
  /-- The next nonce. -/
  nonce : Nat := 0
  registry : Section Registry := { value := {} }
  footers : List (Handle × Footer) := []
  stats : Stats := {}
deriving DecidableEq, Repr

namespace Engine

/-! ## Units and records -/

def record? (e : Engine) (id : DeoptId) : Option Record := e.registry.value.record? id

def record (e : Engine) (id : DeoptId) : Except EngineError Record :=
  match e.record? id with
  | some r => .ok r
  | none => .error (.unknownDeopt id)

/-- Runs an operation of the registry inside the section. -/
def inRegistry {α : Type} (e : Engine) (f : Registry → α × Registry) : α × Engine :=
  let (a, registry) := e.registry.update f
  (a, { e with registry })

def addRecord (e : Engine) (r : Record) : Except EngineError DeoptId × Engine :=
  e.inRegistry (·.publish r)

def install (e : Engine) (u : CompiledUnit) : Except EngineError UnitId × Engine :=
  e.inRegistry (·.install u)

def discard (e : Engine) (id : UnitId) : Except EngineError Unit × Engine :=
  e.inRegistry (·.discard id)

def unit? (e : Engine) (id : UnitId) : Option InstalledUnit := e.registry.value.unit? id

def unitName? (e : Engine) (id : UnitId) : Option String := e.registry.value.unitName? id

/-- Number of installed units. -/
def outstanding (e : Engine) : Nat := e.registry.value.units.length

/-! ## Compilation -/

/-- Compiles a function and installs the unit. -/
def compile (e : Engine) (f : Function) : Except Fault (Except EngineError UnitId × Engine) := do
  let (result, nonce) ← f.compile e.config.compile e.nonce
  let e := { e with nonce }
  match result with
  | .error err => return (.error (.compile err), e)
  | .ok u => return e.install u

/-- What became of one function: it could not be compiled, or its unit was handed to the registry. -/
def asResult : Except CompileError (Except EngineError UnitId) → Except EngineError UnitId
  | .error err => .error (.compile err)
  | .ok installed => installed

/-- Compiles functions by workers that act in the order of the schedule, and installs the units that
succeed. Results are in input order. -/
def compileAllBy (e : Engine) (schedule : List Nat) (fs : List Function) :
    Except Fault (List (Except EngineError UnitId) × Engine) := do
  let (results, nonce, registry) ←
    Bailout.compileAllBy schedule fs e.config.compile e.nonce e.registry fun u r => r.install u
  return (results.map asResult, { e with nonce, registry })

/-- Compiles functions by the configured workers, which take turns. -/
def compileAll (e : Engine) (fs : List Function) :
    Except Fault (List (Except EngineError UnitId) × Engine) :=
  e.compileAllBy (roundRobin fs e.config.compile) fs

/-! ## Footers -/

def footer? (e : Engine) (gen : Handle) : Option Footer :=
  (e.footers.find? (·.1 == gen)).map (·.2)

def eraseFooter (e : Engine) (gen : Handle) : Engine :=
  { e with footers := e.footers.filter (·.1 != gen) }

def setFooter (e : Engine) (gen : Handle) (footer : Footer) : Engine :=
  { e with footers := (gen, footer) :: (e.eraseFooter gen).footers }

/-! ## Counters -/

/-- Changes the counters, if they are collected. -/
def count (e : Engine) (f : Stats → Stats) : Engine :=
  if e.config.deopt.collectStats then { e with stats := f e.stats } else e

/-- Counts an exit and reports it. The report names the innermost frame, which must be there. -/
def recordDeopt (e : Engine) (r : Record) (fresh : Nat) : Except Fault Engine := do
  let e := e.count fun s =>
    let s := s.record r.reason
    { s with framesMaterialized := s.framesMaterialized + fresh }
  if e.config.deopt.logDeopts then
    let _ ← r.innermost
  return e

/-- One line: the configuration, the section and the number of footers. -/
def summary (e : Engine) : String :=
  let c := e.config.compile
  let d := e.config.deopt
  "Runtime \x7b config: JitConfig \x7b compile: CodegenSettings \x7b " ++
    s!"register_budget: {c.registerBudget}, validate_ir: {c.validate}, workers: {c.workers}, " ++
    s!"stack_slot_size: {c.slotSize} \x7d, " ++
    s!"deopt: DeoptSettings \x7b log_deopts: {d.logDeopts}, collect_stats: {d.collectStats} \x7d, " ++
    s!"log: LogSettings \x7b filter: {e.config.log.filter.quote} \x7d \x7d, " ++
    s!"registry: {e.registry.summary}, generators: {e.footers.length}, .. \x7d"

end Engine

end Bailout
