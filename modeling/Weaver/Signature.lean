import Weaver.Ty

/-!
# Method signatures

A signature is a parameter list, the receiver apart, and a result type.  `Signature.argsSize` counts
the slots of the parameters and `Signature.parameterSlots` lays them out in consecutive local slots;
both stop at `slotLimit`.
-/

namespace Weaver

/-- The parameters and the result of a method. -/
structure Signature where
  params : List Ty
  ret : Ty
  deriving DecidableEq, Repr, Inhabited

namespace Signature

/-- The largest number of parameter slots of a signature that is read from a descriptor. -/
def maxParameterSlots : Nat := 255

/-- The descriptor of a signature. -/
def text (signature : Signature) : String :=
  "(" ++ String.join (signature.params.map Ty.text) ++ ")" ++ signature.ret.text

/-- The slots of all parameters together. -/
def totalSlots (signature : Signature) : Nat :=
  signature.params.foldr (fun ty slots => ty.slots + slots) 0

/-- The slots of all parameters together, at most `slotLimit`. -/
def argsSize (signature : Signature) : Nat := min signature.totalSlots slotLimit

theorem argsSize_le (signature : Signature) : signature.argsSize ≤ slotLimit :=
  Nat.min_le_right _ _

/-- Consecutive local slots for a list of parameters, from `first` on.  Void takes no slot. -/
def layout (first : Nat) : List Ty → List (Nat × Kind)
  | [] => []
  | ty :: rest =>
      match ty.kind? with
      | some kind => (first, kind) :: layout (addSlots first kind.slots) rest
      | none => layout first rest

/-- The local slot and the kind of every parameter, the first one in slot `first`. -/
def parameterSlots (signature : Signature) (first : Nat) : List (Nat × Kind) :=
  layout first signature.params

/-- The signatures that have a descriptor of their own. -/
def WellFormed (signature : Signature) : Prop :=
  (∀ ty ∈ signature.params, ty.WellFormed ∧ ty ≠ .void) ∧
    signature.totalSlots ≤ maxParameterSlots ∧
    signature.ret.WellFormed

end Signature

end Weaver
