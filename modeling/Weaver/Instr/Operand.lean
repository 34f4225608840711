import Weaver.Number.Layout
import Weaver.Text.Quoted
import Weaver.Signature

/-!
# Operands of instructions

Labels, constants and references to methods and fields, together with their texts.
-/

namespace Weaver

/-- The symbolic target of a branch. -/
structure Label where
  id : UInt32
  deriving DecidableEq, Repr, Inhabited

/-- The text of a label. -/
def Label.text (label : Label) : String := "L" ++ toString label.id.toNat

/-- A constant that an instruction pushes. -/
inductive Const where
  | null
  | int (value : Int32)
  | long (value : Int64)
  | float (value : Binary32)
  | double (value : Binary64)
  | string (value : String)
  deriving DecidableEq

namespace Const

/-- The kind of a constant. -/
def kind : Const → Kind
  | .null | .string _ => .reference
  | .int _ => .int
  | .long _ => .long
  | .float _ => .float
  | .double _ => .double

/-- The text of a constant: a letter tells the wide and floating-point kinds apart. -/
def text : Const → String
  | .null => "null"
  | .int value => toString value.toInt
  | .long value => toString value.toInt ++ "L"
  | .float value => value.write .plain ++ "F"
  | .double value => value.write .plain ++ "D"
  | .string value => Text.quote value

/-- Whether two constants are equal as values: floating-point numbers are compared as numbers. -/
def same : Const → Const → Bool
  | .float x, .float y => x.same y
  | .double x, .double y => x.same y
  | x, y => x = y

end Const

/-- How a call picks its target, named as in instruction listings. -/
inductive CallMode where
  | static
  | virtual
  | special
  | interface
  deriving DecidableEq, Repr

/-- The mnemonic of a call mode. -/
def CallMode.text : CallMode → String
  | .static => "invokestatic"
  | .virtual => "invokevirtual"
  | .special => "invokespecial"
  | .interface => "invokeinterface"

/-- Whether the call takes a receiver below its arguments. -/
def CallMode.hasReceiver : CallMode → Bool
  | .static => false
  | .virtual | .special | .interface => true

/-- How a field is accessed. -/
inductive FieldOp where
  | getStatic
  | putStatic
  | getField
  | putField
  deriving DecidableEq, Repr

/-- The mnemonic of a field access. -/
def FieldOp.text : FieldOp → String
  | .getStatic => "getstatic"
  | .putStatic => "putstatic"
  | .getField => "getfield"
  | .putField => "putfield"

/-- Whether the access reads the field. -/
def FieldOp.isRead : FieldOp → Bool
  | .getStatic | .getField => true
  | .putStatic | .putField => false

/-- The condition of a branch, named for the values for which it is taken. -/
inductive Cond where
  | always
  | ifZero
  | ifNonZero
  | ifNegative
  | ifNull
  | ifNonNull
  | ifIntEqual
  | ifIntNotEqual
  | ifIntLess
  deriving DecidableEq, Repr

/-- The mnemonic of a condition. -/
def Cond.text : Cond → String
  | .always => "goto"
  | .ifZero => "ifeq"
  | .ifNonZero => "ifne"
  | .ifNegative => "iflt"
  | .ifNull => "ifnull"
  | .ifNonNull => "ifnonnull"
  | .ifIntEqual => "if_icmpeq"
  | .ifIntNotEqual => "if_icmpne"
  | .ifIntLess => "if_icmplt"

/-- The number of slots that a condition pops. -/
def Cond.pops : Cond → Nat
  | .always => 0
  | .ifZero | .ifNonZero | .ifNegative | .ifNull | .ifNonNull => 1
  | .ifIntEqual | .ifIntNotEqual | .ifIntLess => 2

/-- A binary arithmetic operator. -/
inductive ArithOp where
  | add
  | sub
  | mul
  deriving DecidableEq, Repr

/-- The mnemonic of an operator, without the letter of its kind. -/
def ArithOp.text : ArithOp → String
  | .add => "add"
  | .sub => "sub"
  | .mul => "mul"

/-- A reference to a method by the class that declares it, its name and its signature. -/
structure MethodRef where
  owner : String
  name : String
  signature : Signature
  deriving DecidableEq, Repr, Inhabited

/-- A reference whose owner may be spelled with dots. -/
def MethodRef.ofNames (owner name : String) (signature : Signature) : MethodRef :=
  ⟨Text.slashed owner, name, signature⟩

/-- The text of a method reference. -/
def MethodRef.text (method : MethodRef) : String :=
  method.owner ++ "." ++ method.name ++ method.signature.text

/-- A reference to a field by the class that declares it, its name and its type. -/
structure FieldRef where
  owner : String
  name : String
  type : Ty
  deriving DecidableEq, Repr, Inhabited

/-- The text of a field reference. -/
def FieldRef.text (field : FieldRef) : String :=
  field.owner ++ "." ++ field.name ++ ":" ++ field.type.text

/-- A static call whose target may be missing when it is executed.  If the class is missing then
`onMissingClass` is called in its place, and if only the method is missing then `onMissingMethod`;
both get the context, the owner and the name of the target as strings. -/
structure GuardedCall where
  target : MethodRef
  context : String
  onMissingClass : MethodRef
  onMissingMethod : MethodRef
  deriving DecidableEq, Repr, Inhabited

end Weaver
