import Weaver.Kind
import Weaver.Text.Name

/-!
# Types of fields, parameters and results

`Ty` is the tree of a type and `Ty.text` its descriptor.  `Ty.WellFormed` is the grammar of
descriptors, stated on trees: an object has a name, that name holds no semicolon, and an array has
one to `Ty.maxDimensions` dimensions over something that is neither an array nor void.
-/

namespace Weaver

/-- A type.  `void` is the type of a result that is not there. -/
inductive Ty where
  | void
  | boolean
  | byte
  | char
  | short
  | int
  | long
  | float
  | double
  | object (name : String)
  | array (element : Ty)
  deriving DecidableEq, Repr, Inhabited

namespace Ty

/-- The class of all objects. -/
def objectClass : String := "java/lang/Object"

/-- The class of strings. -/
def stringClass : String := "java/lang/String"

/-- The object type of a class whose name may be spelled with dots. -/
def ofClass (name : String) : Ty := .object (Text.slashed name)

/-- The descriptor of a type. -/
def text : Ty → String
  | .void => "V"
  | .boolean => "Z"
  | .byte => "B"
  | .char => "C"
  | .short => "S"
  | .int => "I"
  | .long => "J"
  | .float => "F"
  | .double => "D"
  | .object name => "L" ++ name ++ ";"
  | .array element => "[" ++ element.text

/-- The kind of the values of a type; void has none. -/
def kind? : Ty → Option Kind
  | .void => none
  | .boolean | .byte | .char | .short | .int => some .int
  | .long => some .long
  | .float => some .float
  | .double => some .double
  | .object _ | .array _ => some .reference

/-- The number of slots a value of the type takes, none for void. -/
def slots (ty : Ty) : Nat := (ty.kind?.map Kind.slots).getD 0

/-- Whether the type is void. -/
def isVoid : Ty → Bool
  | .void => true
  | _ => false

/-- Whether the values of the type are references. -/
def isReference : Ty → Bool
  | .object _ | .array _ => true
  | _ => false

/-- The name by which the type is cast to: the class of an object, the descriptor of an array. -/
def castName? : Ty → Option String
  | .object name => some name
  | .array element => some (Ty.array element).text
  | _ => none

@[simp]
theorem slots_eq_zero_iff {ty : Ty} : ty.slots = 0 ↔ ty = .void := by
  cases ty <;> simp [slots, kind?, Kind.slots]

theorem slots_le_two (ty : Ty) : ty.slots ≤ 2 := by
  cases ty <;> simp [slots, kind?, Kind.slots]

@[simp]
theorem isVoid_iff {ty : Ty} : ty.isVoid = true ↔ ty = .void := by
  cases ty <;> simp [isVoid]

/-- The number of array dimensions around the innermost element. -/
def dimensions : Ty → Nat
  | .array element => element.dimensions + 1
  | _ => 0

/-- The innermost element of an array, and any other type itself. -/
def innermost : Ty → Ty
  | .array element => element.innermost
  | ty => ty

/-- A type wrapped in a number of array dimensions. -/
def wrap (ty : Ty) : Nat → Ty
  | 0 => ty
  | n + 1 => .array (ty.wrap n)

/-- The largest number of array dimensions of a descriptor. -/
def maxDimensions : Nat := 255

/-- The types that have a descriptor of their own. -/
def WellFormed (ty : Ty) : Prop :=
  ty.dimensions ≤ maxDimensions ∧
    (0 < ty.dimensions → ty.innermost ≠ .void) ∧
    ∀ name, ty.innermost = .object name → name ≠ "" ∧ ';' ∉ name.toList

end Ty

end Weaver
