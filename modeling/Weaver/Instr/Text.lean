import Weaver.Instr.Basic

/-!
# Instruction listings

The mnemonic of an instruction and its line in a listing, and the names of the ways in which control
leaves an instruction.
-/

namespace Weaver

/-- The name of a way in which control leaves an instruction. -/
def Flow.text : Flow → String
  | .sequential => "Sequential"
  | .conditionalBranch => "ConditionalBranch"
  | .unconditionalBranch => "UnconditionalBranch"
  | .call => "Call"
  | .leave => "Return"
  | .throw => "Throw"

namespace Instr

/-- The mnemonic of an instruction. -/
def mnemonic : Instr → String
  | .nop => "nop"
  | .label _ => "label"
  | .const _ => "ldc"
  | .load kind _ => kind.letter ++ "load"
  | .store kind _ => kind.letter ++ "store"
  | .pop => "pop"
  | .dup => "dup"
  | .arith op kind => kind.letter ++ op.text
  | .new _ => "new"
  | .checkCast _ => "checkcast"
  | .field op _ => op.text
  | .call mode _ => mode.text
  | .guardedCall _ => "invokeguarded"
  | .jump cond _ => cond.text
  | .ret (some kind) => kind.letter ++ "return"
  | .ret none => "return"
  | .throw => "athrow"

/-- The line of an instruction in a listing: its mnemonic and its operand. -/
def text (instr : Instr) : String :=
  let withOperand (operand : String) : String := instr.mnemonic ++ " " ++ operand
  match instr with
  | .label defined => defined.text ++ ":"
  | .const value => withOperand value.text
  | .load _ index | .store _ index => withOperand (toString index)
  | .new className | .checkCast className => withOperand className
  | .field _ member => withOperand member.text
  | .call _ method => withOperand method.text
  | .guardedCall guarded => withOperand guarded.target.text
  | .jump _ target => withOperand target.text
  | .nop | .pop | .dup | .arith .. | .ret _ | .throw => instr.mnemonic

end Instr

end Weaver
