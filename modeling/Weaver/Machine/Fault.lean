import Weaver.Code.Fault
import Weaver.Machine.Value

/-!
# Faults of the machine

The causes for which an execution stops without a result.  `FrameFault` holds those that concern one
frame; its wording ends with the method that the frame executes.
-/

namespace Weaver.Machine

/-- What is wrong in a frame. -/
inductive FrameFault where
  | splitWide (found : Slot)
  | unexpectedSlot (found : Slot)
  | wrongKind (expected : Kind) (found : Value)
  | voidParameter
  | localMismatch (index : Nat) (found : Slot) (expected : Kind)
  | localOutOfRange (index maxLocals : Nat)
  | undefinedLabel (label : Label)
  | fellOffEnd
  | wideDuplicate
  | operandMismatch
  | voidField
  | nullReceiver (method : MethodRef)
  | uncaughtThrow (value : Value)
  | underflow
  deriving DecidableEq

/-- The wording of a fault in a frame, without its method. -/
def FrameFault.message : FrameFault → String
  | .splitWide found => s!"split wide value {found.dump}"
  | .unexpectedSlot found => s!"unexpected stack slot {found.dump}"
  | .wrongKind expected found => s!"expected {expected.letter} value, found {found.text}"
  | .voidParameter => "void parameter"
  | .localMismatch index found expected =>
      s!"local {index} holds {found.dump}, not {expected.letter}"
  | .localOutOfRange index maxLocals => s!"local {index} exceeds max_locals {maxLocals}"
  | .undefinedLabel label => s!"undefined label {label.text}"
  | .fellOffEnd => "execution fell off the end"
  | .wideDuplicate => "dup of a non single-slot value"
  | .operandMismatch => "mismatched arithmetic operands"
  | .voidField => "void field"
  | .nullReceiver method => s!"null receiver calling {method.text}"
  | .uncaughtThrow value => s!"uncaught throw of {value.text}"
  | .underflow => "Stack underflow"

/-- Why an execution stopped without a result. -/
inductive Fault where
  | frame (method : MethodRef) (cause : FrameFault)
  | stackOverflow (method : MethodRef) (depth maxStack : Nat)
  | arguments (method : MethodRef) (expected found : Nat)
  | labels (cause : Code.Fault)
  | instructionLimit (limit : Nat)
  | callDepthLimit (limit : Nat)
  | heapLimit (limit : Nat)
  | heapExhausted
  | missingMethod (method : MethodRef)
  | notWrapper (value : Value)
  | notCancellable (event : String)
  | returnsVoid (method : MethodRef)
  | overrideMismatch (value : Value) (method : MethodRef)
  | danglingReference (handle : Handle)
  | failedCast (actual expected : String)
  | notInstance (receiver : Value)
  /-- A native method gave up with a message of its own. -/
  | native (message : String)
  deriving DecidableEq

/-- The wording of a fault, without the heading of its class. -/
def Fault.message : Fault → String
  | .frame method cause => s!"{cause.message} in {method.text}"
  | .stackOverflow method depth maxStack =>
      s!"Stack overflow in {method.text}: depth {depth} exceeds max_stack {maxStack}"
  | .arguments method expected found =>
      s!"{method.text} expects {expected} argument(s), got {found}"
  | .labels cause => cause.message
  | .instructionLimit limit => s!"Instruction limit of {limit} reached"
  | .callDepthLimit limit => s!"Call depth limit of {limit} reached"
  | .heapLimit limit => s!"heap limit of {limit} objects reached"
  | .heapExhausted => "heap exhausted"
  | .missingMethod method => s!"Unable to resolve {method.text}"
  | .notWrapper value => s!"{value.text} is not an event wrapper"
  | .notCancellable event => s!"Event '{event}' is not cancellable"
  | .returnsVoid method => s!"{method.text} returns void"
  | .overrideMismatch value method =>
      s!"Override value {value.text} does not fit {method.signature.ret.text} of {method.text}"
  | .danglingReference handle => s!"dangling reference {handle.text}"
  | .failedCast actual expected =>
      s!"ClassCastException: {actual} cannot be cast to {expected}"
  | .notInstance receiver => s!"field access on {receiver.text}, which is not an instance"
  | .native message => message

end Weaver.Machine
