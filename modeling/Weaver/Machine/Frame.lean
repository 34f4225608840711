import Weaver.Body.Depth
import Weaver.Machine.Fault

/-!
# Frames

A frame executes one body.  It keeps the operand stack, the top slot first, and the locals; both are
held to the bounds that the body declares.  A wide value is a value slot with a `top` above it.
-/

namespace Weaver.Machine

/-- The state of an execution of one body. -/
structure Frame where
  body : Body
  code : Array Instr
  labels : List (Label × Nat)
  /-- The index of the next instruction. -/
  pc : Nat
  /-- The operand stack, the top slot first. -/
  stack : List Slot
  locals : Array Slot

namespace Frame

/-- A fault of this frame. -/
def corrupt (frame : Frame) (cause : FrameFault) : Fault := .frame frame.body.ref cause

/-- Push a value, as far as the declared stack goes. -/
def push (frame : Frame) (value : Value) : Except Fault Frame :=
  let depth := frame.stack.length + value.slots
  if frame.body.maxStack < depth then
    .error (.stackOverflow frame.body.ref depth frame.body.maxStack)
  else
    let filled := if value.slots = 2 then [.top, .value value] else [.value value]
    .ok { frame with stack := filled ++ frame.stack }

/-- Push a result, if there is one. -/
def pushResult (frame : Frame) : Option Value → Except Fault Frame
  | some value => frame.push value
  | none => .ok frame

/-- Pop one slot, whatever it holds. -/
def popSlot (frame : Frame) : Except Fault (Slot × Frame) :=
  match frame.stack with
  | [] => .error (frame.corrupt .underflow)
  | slot :: rest => .ok (slot, { frame with stack := rest })

/-- Pop a value with all of its slots. -/
def pop (frame : Frame) : Except Fault (Value × Frame) :=
  match frame.popSlot with
  | .error fault => .error fault
  | .ok (.top, below) =>
      match below.popSlot with
      | .error fault => .error fault
      | .ok (slot, rest) =>
          match slot with
          | .value value =>
              if value.slots = 2 then .ok (value, rest)
              else .error (frame.corrupt (.splitWide slot))
          | _ => .error (frame.corrupt (.splitWide slot))
  | .ok (slot, rest) =>
      match slot with
      | .value value =>
          if value.slots = 1 then .ok (value, rest)
          else .error (frame.corrupt (.unexpectedSlot slot))
      | _ => .error (frame.corrupt (.unexpectedSlot slot))

/-- Pop a value of a kind. -/
def popKind (frame : Frame) (kind : Kind) : Except Fault (Value × Frame) :=
  match frame.pop with
  | .error fault => .error fault
  | .ok (value, rest) =>
      if value.kind = kind then .ok (value, rest)
      else .error (frame.corrupt (.wrongKind kind value))

/-- Pop an int. -/
def popInt (frame : Frame) : Except Fault (Int32 × Frame) :=
  match frame.popKind .int with
  | .error fault => .error fault
  | .ok (.int value, rest) => .ok (value, rest)
  | .ok (value, _) => .error (frame.corrupt (.wrongKind .int value))

/-- Pop values of the given types, the last one first, and put them before those popped so far. -/
def popTypes (frame : Frame) : List Ty → List Value → Except Fault (List Value × Frame)
  | [], popped => .ok (popped, frame)
  | ty :: rest, popped =>
      match ty.kind? with
      | none => .error (frame.corrupt .voidParameter)
      | some kind =>
          match frame.popKind kind with
          | .error fault => .error fault
          | .ok (value, below) => below.popTypes rest (value :: popped)

/-- Pop the arguments of a method, and the receiver below them if there is one. -/
def popArgs (frame : Frame) (method : MethodRef) (hasReceiver : Bool) :
    Except Fault (List Value × Frame) :=
  match frame.popTypes method.signature.params.reverse [] with
  | .error fault => .error fault
  | .ok (args, below) =>
      if hasReceiver then
        match below.popKind .reference with
        | .error fault => .error fault
        | .ok (receiver, rest) => .ok (receiver :: args, rest)
      else .ok (args, below)

/-- Check that a local of a kind lies within the declared locals. -/
def checkLocal (frame : Frame) (kind : Kind) (index : Nat) : Except Fault Unit :=
  if frame.body.maxLocals < index + kind.slots then
    .error (frame.corrupt (.localOutOfRange index frame.body.maxLocals))
  else .ok ()

/-- Read a local, which must hold a value of the given kind. -/
def loadLocal (frame : Frame) (kind : Kind) (index : Nat) : Except Fault Value :=
  match frame.checkLocal kind index with
  | .error fault => .error fault
  | .ok () =>
      let slot := frame.locals[index]?.getD .empty
      match slot with
      | .value value =>
          if value.kind = kind then .ok value
          else .error (frame.corrupt (.localMismatch index slot kind))
      | _ => .error (frame.corrupt (.localMismatch index slot kind))

/-- Write a local.  A wide value also takes the slot above. -/
def storeLocal (frame : Frame) (index : Nat) (value : Value) : Except Fault Frame :=
  match frame.checkLocal value.kind index with
  | .error fault => .error fault
  | .ok () =>
      let locals := frame.locals.setIfInBounds index (.value value)
      if value.slots = 2 then
        .ok { frame with locals := locals.setIfInBounds (index + 1) .top }
      else .ok { frame with locals }

/-- Write values to consecutive locals. -/
def storeAll (frame : Frame) : Nat → List Value → Except Fault Frame
  | _, [] => .ok frame
  | index, value :: rest =>
      match frame.storeLocal index value with
      | .error fault => .error fault
      | .ok next => next.storeAll (index + value.slots) rest

/-- Go to a label. -/
def goto (frame : Frame) (label : Label) : Except Fault Frame :=
  match frame.labels.lookup label with
  | some position => .ok { frame with pc := position }
  | none => .error (frame.corrupt (.undefinedLabel label))

/-- The frame of a body before its first instruction, with the arguments in the locals. -/
def enter (body : Body) (args : List Value) : Except Fault Frame :=
  let expected := body.signature.params.length + body.firstArgSlot
  if args.length ≠ expected then .error (.arguments body.ref expected args.length)
  else
    match body.code.labelPositions with
    | .error fault => .error (.labels fault)
    | .ok labels =>
        storeAll
          { body
            code := body.code.instrs.toArray
            labels
            pc := 0
            stack := []
            locals := Array.replicate body.maxLocals .empty }
          0 args

end Frame

end Weaver.Machine
