import Bailout.Code
import Bailout.Error

/-!
# Frame states

What the interpreter's frames would hold if execution were handed back at a point of compiled code, in
terms of registers. An `Activation` is one frame; a `FrameState` is the frame at hand together with the
callers it is inlined into, the nearest first.
-/

namespace Bailout

/-- Kinds of entries on the interpreter's handler stack. -/
inductive HandlerKind where
  | setupFinally
  | setupWith
  | setupAsyncWith
  | exceptHandler
  | loop
deriving DecidableEq, Repr

namespace HandlerKind

def all : List HandlerKind := [setupFinally, setupWith, setupAsyncWith, exceptHandler, loop]

def name : HandlerKind → String
  | setupFinally => "SetupFinally"
  | setupWith => "SetupWith"
  | setupAsyncWith => "SetupAsyncWith"
  | exceptHandler => "ExceptHandler"
  | loop => "Loop"

def ofName? (s : String) : Option HandlerKind := all.find? (fun k => k.name == s)

instance : ToString HandlerKind := ⟨name⟩

end HandlerKind

/-- One entry of the handler stack. It names no register. -/
structure Handler where
  kind : HandlerKind
  target : Offset
  /-- Depth to which the operand stack unwinds when the handler runs. -/
  level : Nat
deriving DecidableEq, Repr

def Handler.text (h : Handler) : String := s!"{h.kind}<{h.target}, {h.level}>"

instance : ToString Handler := ⟨Handler.text⟩

/-- One interpreter frame. Stacks are listed bottom first. -/
structure Activation where
  code : CodeUnit
  /-- Offset of the instruction being executed. -/
  offset : Offset := .start
  /-- Plain locals; a dead or unbound slot has no register. -/
  locals : List (Option Reg) := List.replicate code.locals.length none
  /-- Cell slots, then free variable slots. -/
  cells : List (Option Reg) := List.replicate code.cellSlots none
  stack : List Reg := []
  handlers : List Handler := []
deriving DecidableEq, Repr

structure FrameState where
  frame : Activation
  /-- The callers it is inlined into, nearest first. -/
  callers : List Activation := []
deriving DecidableEq, Repr

namespace Activation

/-- Locals, then cells: the interpreter's slot order. -/
def slots (a : Activation) : List (Option Reg) := a.locals ++ a.cells

/-- Every register the frame refers to, slots first. -/
def uses (a : Activation) : List Reg := a.slots.filterMap id ++ a.stack

def mapRegs (f : Reg → Reg) (a : Activation) : Activation :=
  { a with
    locals := a.locals.map (·.map f)
    cells := a.cells.map (·.map f)
    stack := a.stack.map f }

def text (a : Activation) : String :=
  let slot : Option Reg → String := fun
    | some r => toString r
    | none => "_"
  let group (label : String) (items : List String) : String :=
    if items.isEmpty then "" else s!" {label}=<" ++ String.intercalate " " items ++ ">"
  "\x7b " ++ a.code.qualname ++ "@" ++ toString a.offset ++ group "Locals" (a.locals.map slot) ++
    group "Cells" (a.cells.map slot) ++ group "Stack" (a.stack.map toString) ++
    group "BlockStack" (a.handlers.map toString) ++ " \x7d"

end Activation

namespace FrameState

/-- Number of callers. -/
def inlineDepth (fs : FrameState) : Nat := fs.callers.length

/-- Every frame, innermost first. -/
def chain (fs : FrameState) : List Activation := fs.frame :: fs.callers

/-- Every frame, outermost first. -/
def frames (fs : FrameState) : List Activation := fs.chain.reverse

/-- Every register referred to, innermost frame first. -/
def uses (fs : FrameState) : List Reg := fs.chain.flatMap Activation.uses

def mapRegs (f : Reg → Reg) (fs : FrameState) : FrameState :=
  ⟨fs.frame.mapRegs f, fs.callers.map (·.mapRegs f)⟩

/-- The state of the nearest caller. -/
def parent? (fs : FrameState) : Option FrameState :=
  match fs.callers with
  | [] => none
  | a :: rest => some ⟨a, rest⟩

def text (fs : FrameState) : String := String.intercalate " => " (fs.frames.map Activation.text)

instance : ToString FrameState := ⟨text⟩

end FrameState

/-- Replaces one register by another and keeps all others. -/
def Reg.rename (old new : Reg) (r : Reg) : Reg := if r = old then new else r

/-! ## Editing

The operations by which a frame state is built up.
-/

/-- The value `n` places from the top of a stack listed bottom first; the top is one. -/
def peek? {α : Type} (stack : List α) (n : Nat) : Option α :=
  if n ≤ stack.length then stack[stack.length - n]? else none

namespace FrameState

def push (fs : FrameState) (r : Reg) : FrameState :=
  { fs with frame := { fs.frame with stack := fs.frame.stack ++ [r] } }

/-- Removes the top of the operand stack. -/
def pop (fs : FrameState) : Option Reg × FrameState :=
  (fs.frame.stack.getLast?, { fs with frame := { fs.frame with stack := fs.frame.stack.dropLast } })

def pushHandler (fs : FrameState) (h : Handler) : FrameState :=
  { fs with frame := { fs.frame with handlers := fs.frame.handlers ++ [h] } }

def popHandler (fs : FrameState) : Option Handler × FrameState :=
  (fs.frame.handlers.getLast?,
    { fs with frame := { fs.frame with handlers := fs.frame.handlers.dropLast } })

/-- Binds or clears a local slot. -/
def setLocal (fs : FrameState) (i : Nat) (r : Option Reg) : Except Fault FrameState :=
  if i < fs.frame.locals.length then
    .ok { fs with frame := { fs.frame with locals := fs.frame.locals.set i r } }
  else .error (.index fs.frame.locals.length i)

def rename (old new : Reg) (fs : FrameState) : FrameState := fs.mapRegs (Reg.rename old new)

def dropCallers (fs : FrameState) : FrameState := { fs with callers := [] }

end FrameState

/-! ## Shape

A frame state fits when every frame of it has the slots that its code unit declares, a stack within the
declared bound, and handlers that unwind to a depth the stack has.
-/

/-- The first disagreement of one frame with its code unit. -/
def Activation.shapeError? (a : Activation) : Option ShapeError :=
  if a.locals.length ≠ a.code.locals.length then
    some (.locals a.locals.length a.code.locals.length)
  else if a.cells.length ≠ a.code.cellSlots then some (.cells a.cells.length a.code.cellSlots)
  else if a.code.stackSize < a.stack.length then some (.stack a.stack.length a.code.stackSize)
  else
    (a.handlers.find? fun h => a.stack.length < h.level).map fun h =>
      .handler h.text h.level a.stack.length

/-- Checks every frame, the innermost first. -/
def FrameState.checkShape (fs : FrameState) : Except IrError Unit :=
  fs.chain.forM fun a =>
    match a.shapeError? with
    | some detail => .error (.frameShape a.code.qualname detail)
    | none => .ok ()

end Bailout
