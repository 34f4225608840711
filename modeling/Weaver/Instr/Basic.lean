import Weaver.Instr.Operand

/-!
# Instructions

The instructions of the stack machine, with what an analysis needs to know of each: how control
leaves it (`Instr.flow`) and how many slots it pops and pushes (`Instr.effect`).  A label is an
instruction that does nothing, so that code can be inserted anywhere without touching a branch.
-/

namespace Weaver

/-- An instruction. -/
inductive Instr where
  | nop
  | label (label : Label)
  | const (value : Const)
  | load (kind : Kind) (index : Nat)
  | store (kind : Kind) (index : Nat)
  | pop
  | dup
  | arith (op : ArithOp) (kind : Kind)
  | new (className : String)
  | checkCast (className : String)
  | field (op : FieldOp) (field : FieldRef)
  | call (mode : CallMode) (method : MethodRef)
  | guardedCall (call : GuardedCall)
  | jump (cond : Cond) (target : Label)
  | ret (kind : Option Kind)
  | throw
  deriving DecidableEq

/-- How control leaves an instruction. -/
inductive Flow where
  | sequential
  | conditionalBranch
  | unconditionalBranch
  | call
  | leave
  | throw
  deriving DecidableEq, Repr

/-- The numbers of slots that an instruction pops and then pushes. -/
structure Effect where
  pops : Nat
  pushes : Nat
  deriving DecidableEq, Repr

namespace Effect

/-- The slots on the stack behind an instruction that starts with the given number of them. -/
def slotsAfter (effect : Effect) (slots : Nat) : Nat := slots - effect.pops + effect.pushes

/-- The depth that is counted behind an instruction that starts at the given depth. -/
def after (effect : Effect) (depth : Nat) : Nat := wrapSlots (effect.slotsAfter depth)

theorem after_le (effect : Effect) (depth : Nat) : effect.after depth ≤ slotLimit :=
  wrapSlots_le _

/-- Within the limit the depth is the number of slots. -/
theorem after_eq {effect : Effect} {depth : Nat} (fits : effect.slotsAfter depth ≤ slotLimit) :
    effect.after depth = effect.slotsAfter depth :=
  wrapSlots_of_le fits

end Effect

namespace Instr

/-- How control leaves an instruction. -/
def flow : Instr → Flow
  | .call .. | .guardedCall _ => .call
  | .jump .always _ => .unconditionalBranch
  | .jump .. => .conditionalBranch
  | .ret _ => .leave
  | .throw => .throw
  | _ => .sequential

/-- Whether control can go on to the instruction that follows. -/
def fallsThrough (instr : Instr) : Bool :=
  match instr.flow with
  | .unconditionalBranch | .leave | .throw => false
  | .sequential | .conditionalBranch | .call => true

/-- The label that an instruction branches to. -/
def target? : Instr → Option Label
  | .jump _ target => some target
  | _ => none

/-- The label that an instruction defines. -/
def definition? : Instr → Option Label
  | .label defined => some defined
  | _ => none

/-- Whether an instruction returns from the method. -/
def isReturn : Instr → Bool
  | .ret _ => true
  | _ => false

/-- Whether an instruction is a label. -/
def isLabel : Instr → Bool
  | .label _ => true
  | _ => false

/-- The slots that a call pops: its arguments and, if it takes one, its receiver. -/
def callPops (signature : Signature) (hasReceiver : Bool) : Nat :=
  addSlots signature.argsSize hasReceiver.toNat

/-- The slots that an instruction pops and then pushes. -/
def effect : Instr → Effect
  | .nop | .label _ => ⟨0, 0⟩
  | .const value => ⟨0, value.kind.slots⟩
  | .load kind _ => ⟨0, kind.slots⟩
  | .store kind _ => ⟨kind.slots, 0⟩
  | .pop => ⟨1, 0⟩
  | .dup => ⟨1, 2⟩
  | .arith _ kind => ⟨kind.slots * 2, kind.slots⟩
  | .new _ => ⟨0, 1⟩
  | .checkCast _ => ⟨1, 1⟩
  | .field .getStatic member => ⟨0, member.type.slots⟩
  | .field .putStatic member => ⟨member.type.slots, 0⟩
  | .field .getField member => ⟨1, member.type.slots⟩
  | .field .putField member => ⟨1 + member.type.slots, 0⟩
  | .call mode method =>
      ⟨callPops method.signature mode.hasReceiver, method.signature.ret.slots⟩
  | .guardedCall guarded => ⟨guarded.target.signature.argsSize, guarded.target.signature.ret.slots⟩
  | .jump cond _ => ⟨cond.pops, 0⟩
  | .ret kind => ⟨(kind.map Kind.slots).getD 0, 0⟩
  | .throw => ⟨1, 0⟩

/-- An instruction pushes one value at most, or a narrow one twice. -/
theorem pushes_le_two (instr : Instr) : instr.effect.pushes ≤ 2 := by
  cases instr with
  | const value => exact value.kind.slots_le_two
  | load kind _ => exact kind.slots_le_two
  | arith _ kind => exact kind.slots_le_two
  | field op member => cases op <;> simp [effect, member.type.slots_le_two]
  | call _ method => exact method.signature.ret.slots_le_two
  | guardedCall guarded => exact guarded.target.signature.ret.slots_le_two
  | _ => simp [effect]

/-- Only a branch without a condition, a return and a throw end a path. -/
theorem fallsThrough_eq_false_iff {instr : Instr} :
    instr.fallsThrough = false ↔
      (∃ target, instr = .jump .always target) ∨ (∃ kind, instr = .ret kind) ∨ instr = .throw := by
  cases instr with
  | jump cond target => cases cond <;> simp [fallsThrough, flow]
  | _ => simp [fallsThrough, flow]

end Instr

end Weaver
