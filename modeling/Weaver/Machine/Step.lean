import Weaver.Machine.Frame
import Weaver.Machine.World

/-!
# Instructions at work

`Frame.act` carries out one instruction on a frame and the world, as far as that needs no other
method.  Where it does, the instruction asks for a call: the arguments are off the stack by then, and
the frame waits for the result.
-/

namespace Weaver.ArithOp

/-- Carry out an operator on two ints. -/
def onInt (op : ArithOp) (x y : Int32) : Int32 :=
  match op with
  | .add => x + y
  | .sub => x - y
  | .mul => x * y

/-- Carry out an operator on two longs. -/
def onLong (op : ArithOp) (x y : Int64) : Int64 :=
  match op with
  | .add => x + y
  | .sub => x - y
  | .mul => x * y

/-- Carry out an operator on two floats. -/
def onFloat (op : ArithOp) (x y : Binary32) : Binary32 :=
  match op with
  | .add => x + y
  | .sub => x - y
  | .mul => x * y

/-- Carry out an operator on two doubles. -/
def onDouble (op : ArithOp) (x y : Binary64) : Binary64 :=
  match op with
  | .add => x + y
  | .sub => x - y
  | .mul => x * y

end Weaver.ArithOp

namespace Weaver.Machine

/-- What an instruction leads to. -/
inductive Action where
  /-- The frame goes on. -/
  | proceed (frame : Frame)
  /-- The frame waits for the result of a call. -/
  | call (frame : Frame) (method : MethodRef) (args : List Value)
  /-- The frame waits for the result of a call whose target may be missing. -/
  | guarded (frame : Frame) (call : GuardedCall) (args : List Value)
  /-- The method returns. -/
  | leave (result : Option Value)

/-- Carry out an operator on two numbers of one kind.  Integers wrap around. -/
def arith? (op : ArithOp) : Value → Value → Option Value
  | .int x, .int y => some (.int (op.onInt x y))
  | .long x, .long y => some (.long (op.onLong x y))
  | .float x, .float y => some (.float (op.onFloat x y))
  | .double x, .double y => some (.double (op.onDouble x y))
  | _, _ => none

namespace Frame

/-- Pop the operands of a condition, and tell whether the branch is taken. -/
def test (frame : Frame) (cond : Cond) : Except Fault (Bool × Frame) := do
  match cond with
  | .always => return (true, frame)
  | .ifZero => let (x, frame) ← frame.popInt; return (x == 0, frame)
  | .ifNonZero => let (x, frame) ← frame.popInt; return (x != 0, frame)
  | .ifNegative => let (x, frame) ← frame.popInt; return (decide (x < 0), frame)
  | .ifNull => let (x, frame) ← frame.popKind .reference; return (x.isNull, frame)
  | .ifNonNull => let (x, frame) ← frame.popKind .reference; return (!x.isNull, frame)
  | .ifIntEqual =>
      let (y, frame) ← frame.popInt
      let (x, frame) ← frame.popInt
      return (x == y, frame)
  | .ifIntNotEqual =>
      let (y, frame) ← frame.popInt
      let (x, frame) ← frame.popInt
      return (x != y, frame)
  | .ifIntLess =>
      let (y, frame) ← frame.popInt
      let (x, frame) ← frame.popInt
      return (decide (x < y), frame)

/-- Push a new object. -/
def pushNew (frame : Frame) (world : World) (object : HeapObject) : Except Fault Action × World :=
  match world.alloc object with
  | (.error fault, world) => (.error fault, world)
  | (.ok value, world) => ((frame.push value).map .proceed, world)

/-- Replace two numbers by what an operator makes of them. -/
def calculate (frame : Frame) (op : ArithOp) (kind : Kind) : Except Fault Frame := do
  let (y, frame) ← frame.popKind kind
  let (x, frame) ← frame.popKind kind
  match arith? op x y with
  | some value => frame.push value
  | none => throw (frame.corrupt .operandMismatch)

/-- Push the value of the top slot again, which must be a value of one slot. -/
def duplicate (frame : Frame) : Except Fault Frame :=
  match frame.stack.head? with
  | some (.value value) =>
      if value.slots = 1 then frame.push value else .error (frame.corrupt .wideDuplicate)
  | _ => .error (frame.corrupt .wideDuplicate)

/-- Check the class of the reference on top of the stack. -/
def cast (frame : Frame) (heap : Heap) (className : String) : Except Fault Frame := do
  let (value, below) ← frame.popKind .reference
  heap.checkCast value className
  below.push value

/-- Read a static field, the zero value of its kind if nothing was written yet. -/
def readStatic (frame : Frame) (world : World) (field : FieldRef) (kind : Kind) :
    Except Fault Frame :=
  frame.push ((world.statics.lookup (field.owner, field.name)).getD (.zero kind))

/-- Write a static field. -/
def writeStatic (frame : Frame) (world : World) (field : FieldRef) (kind : Kind) :
    Except Fault (Frame × World) := do
  let (value, frame) ← frame.popKind kind
  return (frame,
    { world with statics := world.statics.assign (field.owner, field.name) value })

/-- Read a field of the instance on the stack, the zero value of its kind if nothing was written. -/
def readField (frame : Frame) (world : World) (field : FieldRef) (kind : Kind) :
    Except Fault Frame := do
  let (receiver, frame) ← frame.popKind .reference
  let (_, _, fields) ← world.heap.instance? receiver
  frame.push ((fields.lookup field.name).getD (.zero kind))

/-- Write a field of the instance below the value on the stack. -/
def writeField (frame : Frame) (world : World) (field : FieldRef) (kind : Kind) :
    Except Fault (Frame × World) := do
  let (value, frame) ← frame.popKind kind
  let (receiver, frame) ← frame.popKind .reference
  let (handle, className, fields) ← world.heap.instance? receiver
  let object := HeapObject.plain className (fields.assign field.name value)
  return (frame, { world with heap := world.heap.put handle object })

/-- Carry on with a frame and a world, or stop with a fault and the world as it was. -/
def proceedWith (world : World) : Except Fault (Frame × World) → Except Fault Action × World
  | .error fault => (.error fault, world)
  | .ok (frame, world) => (.ok (.proceed frame), world)

/-- Access a field. -/
def access (frame : Frame) (world : World) (op : FieldOp) (field : FieldRef) :
    Except Fault Action × World :=
  match field.type.kind? with
  | none => (.error (frame.corrupt .voidField), world)
  | some kind =>
      match op with
      | .getStatic => ((frame.readStatic world field kind).map .proceed, world)
      | .putStatic => proceedWith world (frame.writeStatic world field kind)
      | .getField => ((frame.readField world field kind).map .proceed, world)
      | .putField => proceedWith world (frame.writeField world field kind)

/-- Take the arguments of a call off the stack; the receiver must not be null. -/
def prepareCall (frame : Frame) (mode : CallMode) (method : MethodRef) : Except Fault Action := do
  let (args, frame) ← frame.popArgs method mode.hasReceiver
  if mode.hasReceiver && args.head?.any Value.isNull then
    throw (frame.corrupt (.nullReceiver method))
  return .call frame method args

/-- Carry out an instruction; the frame already stands at the one behind it. -/
def act (frame : Frame) (world : World) (instr : Instr) : Except Fault Action × World :=
  match instr with
  | .nop | .label _ => (.ok (.proceed frame), world)
  | .const (.string text) => frame.pushNew world (.string text)
  | .const constant => ((frame.pushResult (Value.ofConst? constant)).map .proceed, world)
  | .load kind index => ((do frame.push (← frame.loadLocal kind index)).map .proceed, world)
  | .store kind index =>
      ((do
          let (value, below) ← frame.popKind kind
          below.storeLocal index value).map .proceed,
        world)
  | .pop => ((frame.popSlot.map Prod.snd).map .proceed, world)
  | .dup => (frame.duplicate.map .proceed, world)
  | .arith op kind => ((frame.calculate op kind).map .proceed, world)
  | .new className => frame.pushNew world (.ofClass className)
  | .checkCast className => ((frame.cast world.heap className).map .proceed, world)
  | .field op field => frame.access world op field
  | .call mode method => (frame.prepareCall mode method, world)
  | .guardedCall call =>
      ((frame.popArgs call.target false).map fun (args, below) => .guarded below call args, world)
  | .jump cond target =>
      ((do
          let (taken, below) ← frame.test cond
          if taken then below.goto target else pure below).map .proceed,
        world)
  | .ret none => (.ok (.leave none), world)
  | .ret (some kind) =>
      ((frame.popKind kind).map fun (value, _) => .leave (some value), world)
  | .throw =>
      (do
          let (value, below) ← frame.popKind .reference
          throw (below.corrupt (.uncaughtThrow value)),
        world)

end Frame

end Weaver.Machine
