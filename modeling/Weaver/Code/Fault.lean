import Weaver.Instr.Text

/-!
# Faults of code

The causes for which an instruction sequence, or a step of building one, is refused.
-/

namespace Weaver.Code

/-- Why code was refused. -/
inductive Fault where
  | labelsExhausted
  | insertionOutOfBounds (index length : Nat)
  | duplicateLabel (label : Label)
  | undefinedLabel (label : Label) (method : MethodRef)
  | fallsOffEnd (method : MethodRef)
  | inconsistentDepth (index : Nat) (method : MethodRef) (known depth : Nat)
  | underflow (index : Nat) (instr : Instr) (method : MethodRef)
  /-- An instruction of a run would pop what the run did not push. -/
  | popsBelowRun (instr : Instr) (depth : Nat)
  deriving DecidableEq

/-- The wording of a fault. -/
def Fault.message : Fault → String
  | .labelsExhausted => "Label ids are exhausted"
  | .insertionOutOfBounds index length =>
      s!"Insertion index {index} is out of bounds (len {length})"
  | .duplicateLabel label => s!"Label {label.text} is defined twice"
  | .undefinedLabel label method => s!"Branch to undefined label {label.text} in {method.text}"
  | .fallsOffEnd method => s!"Execution falls off the end of {method.text}"
  | .inconsistentDepth index method known depth =>
      s!"Inconsistent stack depth at {index} in {method.text}: {known} vs {depth}"
  | .underflow index instr method => s!"Stack underflow at {index} ({instr.text}) in {method.text}"
  | .popsBelowRun instr depth =>
      s!"'{instr.text}' pops {instr.effect.pops} slot(s) at relative depth {depth}"

end Weaver.Code
