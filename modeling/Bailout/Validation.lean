import Bailout.FrameState
import Bailout.Function

/-!
# Validation

What later stages rely on, checked block by block in reverse post-order and instruction by instruction.
-/

namespace Bailout

/-! ## Structure

Blocks end in a terminator, branches lead to blocks, registers exist and are defined once, phis name
predecessors, and frame states are there where code can be left and fit their code units.
-/

namespace Function

/-- Checks that do not depend on other instructions: placement, targets, registers read. -/
def checkReads (f : Function) (id : BlockId) (last : Bool) (index : Nat) (i : Instr) :
    Except IrError Unit := do
  if i.opcode.isTerminator && !last then throw (.misplacedTerminator id index i.opcode)
  if let some target := i.successors.find? fun t => !f.graph.contains t then
    throw (.unknownBlock id target)
  if let some r := i.uses.find? fun r => !f.env.contains r then
    throw (.unknownRegister id i.opcode r)

/-- Checks the output against the registers defined so far, and adds it to them. -/
def checkOutput (f : Function) (id : BlockId) (defined : List Reg) (i : Instr) :
    Except IrError (List Reg) :=
  match i.output, i.opcode.hasOutput with
  | none, true => .error (.missingOutput id i.opcode)
  | some _, false => .error (.unexpectedOutput id i.opcode)
  | some r, true =>
    if !f.env.contains r then .error (.unknownRegister id i.opcode r)
    else if defined.contains r then .error (.multipleDefinitions r)
    else .ok (r :: defined)
  | none, false => .ok defined

/-- A phi has as many inputs as the block has predecessors, and each from one of them. -/
def checkPhi (f : Function) (id : BlockId) (i : Instr) : Except IrError Unit :=
  match i.kind with
  | .phi blocks =>
    let preds := f.graph.predecessors id
    if blocks.length ≠ preds.length then .error (.phiArity id preds.length blocks.length)
    else
      match blocks.find? fun b => !preds.contains b with
      | some pred => .error (.phiPredecessor id pred)
      | none => .ok ()
  | _ => .ok ()

/-- A frame state fits; it is missing only where code cannot be left and no inlining begins. -/
def checkFrameState (id : BlockId) (i : Instr) : Except IrError Unit :=
  match i.frameState with
  | some fs => fs.checkShape
  | none =>
    if i.opcode.hasDeoptData || i.opcode == .beginInlinedFunction then
      .error (.missingFrameState id i.opcode)
    else .ok ()

/-- Checks one instruction, given the registers defined before it. -/
def checkInstr (f : Function) (id : BlockId) (length : Nat) (defined : List Reg) (at_ : Instr × Nat) :
    Except IrError (List Reg) := do
  let (i, index) := at_
  f.checkReads id (index + 1 == length) index i
  let defined ← f.checkOutput id defined i
  f.checkPhi id i
  checkFrameState id i
  return defined

/-- Checks one block, given the registers defined before it. -/
def checkBlock (f : Function) (defined : List Reg) (id : BlockId) : Except IrError (List Reg) :=
  match f.graph.block? id with
  | none => .ok defined
  | some b =>
    if b.terminator?.isNone then .error (.missingTerminator id)
    else b.instrs.zipIdx.foldlM (f.checkInstr id b.instrs.length) defined

/-- Checks every reachable block. -/
def checkStructure (f : Function) : Except IrError Unit := do
  let _ ← f.graph.order.foldlM f.checkBlock []

/-! ## Inline depth

Every path to a block agrees on how many inlined calls are open there, and every frame state has as many
callers as calls are open at its place.
-/

/-- The depth at which each block met so far begins. -/
abbrev Depths := List (BlockId × Nat)

def Depths.find? (ds : Depths) (id : BlockId) : Option Nat :=
  (List.find? (fun d => d.1 == id) ds).map (·.2)

def expectDepth (id : BlockId) (depth : Nat) (fs : Option FrameState) : Except IrError Unit :=
  match fs with
  | some fs => if fs.inlineDepth = depth then .ok () else .error (.inlineDepth id depth fs.inlineDepth)
  | none => .ok ()

/-- The depth after an instruction, given the depth before it. -/
def depthAfter (id : BlockId) (depth : Nat) (i : Instr) : Except IrError Nat :=
  match i.opcode with
  | .beginInlinedFunction => do
    expectDepth id depth i.frameState
    return depth + 1
  | .endInlinedFunction => if depth = 0 then .error (.unbalancedInline id) else .ok (depth - 1)
  | _ => do
    expectDepth id depth i.frameState
    return depth

/-- Passes the depth at the end of a block on to a successor. -/
def passDepth (depth : Nat) (ds : Depths) (succ : BlockId) : Except IrError Depths :=
  match ds.find? succ with
  | some expected =>
    if expected = depth then .ok ds else .error (.inlineDepth succ expected depth)
  | none => .ok ((succ, depth) :: ds)

/-- Checks one block; a forward predecessor has fixed its depth. -/
def checkBlockDepth (f : Function) (ds : Depths) (id : BlockId) : Except IrError Depths :=
  match f.graph.block? id with
  | none => .ok ds
  | some b => do
    let depth ← b.instrs.foldlM (depthAfter id) ((ds.find? id).getD 0)
    b.successors.foldlM (passDepth depth) ds

def checkInlineDepth (f : Function) : Except IrError Unit := do
  let _ ← f.graph.order.foldlM f.checkBlockDepth [(f.graph.entry, 0)]

/-- All checks: structure first, then inline depth. -/
def validate (f : Function) : Except IrError Unit := do
  f.checkStructure
  f.checkInlineDepth

end Function

end Bailout
