import Weaver.Instr.Operand

/-!
# Values of the machine

A value is a number, the null reference or the handle of an object on the heap.  A `Slot` is one
cell of the operand stack or of the locals; a wide value takes the slot it is in and a `top` above.
-/

namespace Weaver.Machine

/-- The handle of an object on the heap: its position in the order of allocation. -/
structure Handle where
  id : Nat
  deriving DecidableEq, Repr, Inhabited

/-- The text of a handle. -/
def Handle.text (handle : Handle) : String := "@" ++ toString handle.id

/-- A value on the operand stack, in a local or in a field. -/
inductive Value where
  | int (value : Int32)
  | long (value : Int64)
  | float (value : Binary32)
  | double (value : Binary64)
  | null
  | ref (handle : Handle)
  deriving DecidableEq, Inhabited

namespace Value

/-- The value of a boolean. -/
def ofBool (value : Bool) : Value := .int (if value then 1 else 0)

/-- The kind of a value. -/
def kind : Value → Kind
  | .int _ => .int
  | .long _ => .long
  | .float _ => .float
  | .double _ => .double
  | .null | .ref _ => .reference

/-- The number of slots a value takes. -/
def slots (value : Value) : Nat := value.kind.slots

/-- The zero value of a kind. -/
def zero : Kind → Value
  | .int => .int 0
  | .long => .long 0
  | .float => .float .zero
  | .double => .double .zero
  | .reference => .null

@[simp]
theorem kind_zero (kind : Kind) : (zero kind).kind = kind := by
  cases kind <;> rfl

/-- The zero value of a type; void has none. -/
def zeroOf? (ty : Ty) : Option Value := ty.kind?.map zero

/-- The value of a constant that is no string. -/
def ofConst? : Const → Option Value
  | .null => some .null
  | .int value => some (.int value)
  | .long value => some (.long value)
  | .float value => some (.float value)
  | .double value => some (.double value)
  | .string _ => none

/-- The number of an int value. -/
def int? : Value → Option Int32
  | .int value => some value
  | _ => none

/-- The truth value of an int value: everything but zero is true. -/
def bool? (value : Value) : Option Bool := value.int?.map (· != 0)

/-- The handle of a value that refers to an object. -/
def handle? : Value → Option Handle
  | .ref handle => some handle
  | _ => none

/-- Whether a value is the null reference. -/
def isNull : Value → Bool
  | .null => true
  | _ => false

/-- The text of a value: a letter tells the wide and floating-point kinds apart. -/
def text : Value → String
  | .int value => toString value.toInt
  | .long value => toString value.toInt ++ "L"
  | .float value => value.write .plain ++ "F"
  | .double value => value.write .plain ++ "D"
  | .null => "null"
  | .ref handle => handle.text

/-- The text of a value in a dump of a slot, which names its case. -/
def dump : Value → String
  | .int value => s!"Int({value.toInt})"
  | .long value => s!"Long({value.toInt})"
  | .float value => "Float(" ++ value.write .marked ++ ")"
  | .double value => "Double(" ++ value.write .marked ++ ")"
  | .null => "Null"
  | .ref handle => s!"Ref(HeapRef({handle.id}))"

end Value

/-- One cell of the operand stack or of the locals. -/
inductive Slot where
  | value (value : Value)
  /-- The upper half of a wide value. -/
  | top
  | empty
  deriving DecidableEq, Inhabited

/-- The dump of a slot. -/
def Slot.dump : Slot → String
  | .value held => "Value(" ++ held.dump ++ ")"
  | .top => "Top"
  | .empty => "Empty"

end Weaver.Machine
