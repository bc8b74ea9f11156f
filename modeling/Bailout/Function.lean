import Bailout.Fault
import Bailout.Graph

/-!
# Functions

The intermediate form of one unit: its code unit, registers and graph.
-/

namespace Bailout

/-! ## Registers

A register is known by its number; the environment records the type inferred for each. Registers are
never removed.
-/

structure Env where
  types : List Ty := []
deriving DecidableEq, Repr

namespace Env

def contains (e : Env) (r : Reg) : Bool := r.index < e.types.length

/-- A new register, of which nothing is known yet. -/
def alloc (e : Env) : Reg × Env := (⟨e.types.length⟩, ⟨e.types ++ [.top]⟩)

def typeOf? (e : Env) (r : Reg) : Option Ty := e.types[r.index]?

def typeOf (e : Env) (r : Reg) : Except Fault Ty :=
  match e.typeOf? r with
  | some ty => .ok ty
  | none => .error (.unknownRegister r)

def setType (e : Env) (r : Reg) (ty : Ty) : Except Fault Env :=
  if e.contains r then .ok ⟨e.types.set r.index ty⟩ else .error (.unknownRegister r)

/-- Every register with its type, in order. -/
def entries (e : Env) : List (Reg × Ty) := e.types.zipIdx.map fun (ty, i) => (⟨i⟩, ty)

end Env

/-! ## Functions -/

/-- The place of an instruction in a graph. -/
structure Site where
  block : BlockId
  index : Nat
deriving DecidableEq, Repr

structure Function where
  name : String
  code : CodeUnit
  env : Env := {}
  graph : Graph := .new
deriving DecidableEq, Repr

namespace Function

def new (code : CodeUnit) : Function := { name := code.qualname, code }

def copy (f : Function) : Function :=
  { f with graph := { f.graph with blocks := f.graph.blocks.map (Option.map Block.copy) } }

/-- The type an instruction gives to its output, when its kind names one. -/
def outputType? : InstrKind → Option Ty
  | .loadConst ty | .guardType ty => some ty
  | _ => none

/-- Appends an instruction to a block, with a new register for its output if the opcode has one. An
instruction with a frame state takes its offset from there. -/
def emit (f : Function) (block : BlockId) (kind : InstrKind) (operands : List Reg)
    (fs : Option FrameState) : Except Fault (Option Reg × Function) := do
  let (output, env) ←
    if kind.opcode.hasOutput then do
      let (r, env) := f.env.alloc
      let env ←
        match outputType? kind with
        | some ty => env.setType r ty
        | none => pure env
      pure (some r, env)
    else pure (none, f.env)
  let i ← Instr.new kind operands output
  let i ←
    match fs with
    | some fs => do
      let i ← i.setFrameState fs
      pure { i with offset := some fs.frame.offset }
    | none => pure i
  let (_, graph) ← f.graph.update block (·.push i)
  return (output, { f with env, graph })

def instr (f : Function) (s : Site) : Except Fault Instr := do (← f.graph.block s.block).instr s.index

/-- Changes the instruction at a place, without linking or unlinking. -/
def modifyInstr {α : Type} (f : Function) (s : Site) (g : Instr → Except Fault (α × Instr)) :
    Except Fault (α × Function) := do
  let (a, graph) ← f.graph.update s.block fun b => do
    let (a, i) ← g (← b.instr s.index)
    return (a, ← b.set s.index i)
  return (a, { f with graph })

/-- The place of the last instruction of a block. -/
def lastSite (f : Function) (block : BlockId) : Except Fault Site := do
  let b ← f.graph.block block
  if b.instrs.isEmpty then throw (.emptyBlock block)
  return ⟨block, b.instrs.length - 1⟩

/-- Adds live registers to the last instruction of a block. -/
def addLive (f : Function) (block : BlockId) : List LiveReg → Except Fault Function
  | [] => .ok f
  | l :: rest => do
    let (_, f) ← f.modifyInstr (← f.lastSite block) fun i => do return ((), ← i.addLive l)
    f.addLive block rest

/-- A live register, described by the type inferred for it. -/
def liveReg (f : Function) (r : Reg) (refKind : RefKind) : Except Fault LiveReg :=
  (f.env.typeOf r).map (LiveReg.ofTy r refKind)

/-- Every instruction, in order of block numbers. -/
def instrs (f : Function) : List Instr := f.graph.toList.flatMap (·.instrs)

/-- The instruction that defines a register: the last one, should there be several. -/
def definition? (f : Function) (r : Reg) : Option Instr :=
  f.instrs.reverse.find? fun i => i.output == some r

/-- The registers that some instruction defines, in order of their numbers. -/
def definedRegs (f : Function) : List Reg :=
  (f.instrs.filterMap (·.output)).eraseDups.mergeSort fun a b => a.index ≤ b.index

/-- The opcode of the first instruction that defines a register. -/
def definingOpcode? (f : Function) (r : Reg) : Option Opcode :=
  (f.instrs.find? fun i => i.output == some r).map Instr.opcode

/-- The places of the instructions of a block that can leave compiled code. -/
def blockSites (f : Function) (id : BlockId) : List Site :=
  match f.graph.block? id with
  | some b =>
    b.instrs.zipIdx.filterMap fun (i, n) => if i.opcode.hasDeoptData then some ⟨id, n⟩ else none
  | none => []

/-- The places where reachable code can be left, in reverse post-order. -/
def deoptSites (f : Function) : List Site := f.graph.order.flatMap f.blockSites

def text (f : Function) : String :=
  "fun " ++ f.name ++ " \x7b\n" ++ String.join (f.graph.toList.map Block.text) ++ "\x7d"

instance : ToString Function := ⟨text⟩

end Function

end Bailout
