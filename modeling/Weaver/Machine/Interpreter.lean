import Weaver.Machine.Intrinsic
import Weaver.Machine.Program
import Weaver.Machine.Step

/-!
# The interpreter

`Interpreter.invoke` calls a method and `Interpreter.execute` a body.  Both end for every program:
the instructions of a frame are bounded by what is left of the budget, and open frames by the call
depth.  How a call is answered is a parameter of the step of a frame, so that one method can be
studied for any behaviour of those that it calls.
-/

namespace Weaver.Machine

/-- What a method does when it is called. -/
abbrev Behaviour := MethodRef → List Value → World → CallResult

/-- A frame after one instruction. -/
inductive Progress where
  | running (frame : Frame)
  | left (result : Option Value)

/-- A program with the bounds of its executions. -/
structure Interpreter where
  program : Program
  limits : Limits

namespace Interpreter

/-- Let a frame go on with the result of a call. -/
def resume (frame : Frame) : CallResult → Except Fault Progress × World
  | (.error fault, world) => (.error fault, world)
  | (.ok result, world) => ((frame.pushResult result).map .running, world)

/-- Call the fallback for a missing method with the context, owner and name of the target.  The
result is the zero value of the target's result type. -/
def callFallback (behaviour : Behaviour) (call : GuardedCall) (fallback : MethodRef)
    (world : World) : CallResult :=
  match world.allocStrings [call.context, call.target.owner, call.target.name] with
  | (.error fault, world) => (.error fault, world)
  | (.ok report, world) =>
      match behaviour fallback report world with
      | (.error fault, world) => (.error fault, world)
      | (.ok _, world) => (.ok (Value.zeroOf? call.target.signature.ret), world)

/-- Make a call whose target may be missing. -/
def callGuarded (program : Program) (behaviour : Behaviour) (call : GuardedCall)
    (args : List Value) (world : World) : CallResult :=
  if !program.hasClass call.target.owner then
    callFallback behaviour call call.onMissingClass world
  else if (program.resolve? call.target).isNone then
    callFallback behaviour call call.onMissingMethod world
  else behaviour call.target args world

/-- Count an instruction. -/
def begin (limits : Limits) (world : World) : Except Fault Unit × World :=
  let counted := { world with executed := world.executed + 1 }
  if limits.budget < counted.executed then (.error (.instructionLimit limits.budget), counted)
  else (.ok (), counted)

/-- Carry out the next instruction of a frame. -/
def step (interpreter : Interpreter) (behaviour : Behaviour) (frame : Frame) (world : World) :
    Except Fault Progress × World :=
  match frame.code[frame.pc]? with
  | none => (.error (frame.corrupt .fellOffEnd), world)
  | some instr =>
      match begin interpreter.limits world with
      | (.error fault, world) => (.error fault, world)
      | (.ok (), world) =>
          match Frame.act { frame with pc := frame.pc + 1 } world instr with
          | (.error fault, world) => (.error fault, world)
          | (.ok (.proceed frame), world) => (.ok (.running frame), world)
          | (.ok (.leave result), world) => (.ok (.left result), world)
          | (.ok (.call frame method args), world) => resume frame (behaviour method args world)
          | (.ok (.guarded frame call args), world) =>
              resume frame (callGuarded interpreter.program behaviour call args world)

/-- Carry out instructions until the method returns.  The number of steps is taken to be large
enough for the budget to run out first. -/
def run (interpreter : Interpreter) (behaviour : Behaviour) : Nat → Frame → World → CallResult
  | 0, _, world => (.error (.instructionLimit interpreter.limits.budget), world)
  | steps + 1, frame, world =>
      match interpreter.step behaviour frame world with
      | (.error fault, world) => (.error fault, world)
      | (.ok (.left result), world) => (.ok result, world)
      | (.ok (.running frame), world) => run interpreter behaviour steps frame world

/-- The steps after which the budget has run out for certain. -/
def patience (interpreter : Interpreter) (world : World) : Nat :=
  interpreter.limits.budget - world.executed + 1

/-- What calls do in a program whose bodies are executed by the given function. -/
def behaviour (program : Program) (execute : Body → List Value → World → CallResult) :
    Behaviour := fun method args world =>
  match Intrinsic.call? method args world with
  | some result => result
  | none =>
      match program.resolve? method with
      | some (.body body) => execute body args world
      | some (.native native) =>
          let (result, state) := native method args ⟨world.heap, world.trace⟩
          (result, { world with heap := state.heap, trace := state.trace })
      | none =>
          if method.name = Wrapper.constructorName then (.ok none, world)
          else (.error (.missingMethod method), world)

/-- Execute a body while at most `depth` more frames may be opened. -/
def executeWithin (interpreter : Interpreter) : Nat → Body → List Value → World → CallResult
  | 0, _, _, world => (.error (.callDepthLimit interpreter.limits.callDepth), world)
  | depth + 1, body, args, world =>
      match Frame.enter body args with
      | .error fault => (.error fault, world)
      | .ok frame =>
          run interpreter (behaviour interpreter.program (executeWithin interpreter depth))
            (interpreter.patience world) frame world

/-- Execute a body with its arguments, the receiver first. -/
def execute (interpreter : Interpreter) (body : Body) (args : List Value) (world : World) :
    CallResult :=
  interpreter.executeWithin interpreter.limits.callDepth body args world

/-- Call a method with its arguments, the receiver first. -/
def invoke (interpreter : Interpreter) : Behaviour :=
  behaviour interpreter.program interpreter.execute

end Interpreter

end Weaver.Machine
