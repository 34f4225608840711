import Weaver.Kind

/-!
# Faults of descriptors

The causes for which a text is no descriptor, with the text itself and, where it helps, the byte at
which the offending part starts.
-/

namespace Weaver.Descriptor

/-- Why a descriptor was refused. -/
inductive Fault where
  | endOfInput (source : String)
  | unterminatedClass (source : String) (position : Nat)
  | emptyClass (source : String) (position : Nat)
  | tooManyDimensions (source : String)
  | invalidTag (tag : UInt8) (source : String) (position : Nat)
  | arrayOfVoid (source : String)
  | missingParenthesis (source : String)
  | voidParameter (source : String)
  | tooManySlots (source : String)
  | afterType (source : String) (position : Nat)
  | afterMethod (source : String) (position : Nat)
  deriving DecidableEq, Repr

/-- The wording of a fault.  A byte that is no tag is shown as the character of that number. -/
def Fault.message : Fault → String
  | .endOfInput source => s!"Unexpected end of descriptor '{source}'"
  | .unterminatedClass source position => s!"Unterminated class name in '{source}' at {position}"
  | .emptyClass source position => s!"Empty class name in '{source}' at {position}"
  | .tooManyDimensions source => s!"Too many array dimensions in '{source}'"
  | .invalidTag tag source position =>
      let shown := Char.ofNat tag.toNat
      s!"Invalid descriptor tag '{shown}' in '{source}' at {position}"
  | .arrayOfVoid source => s!"Array of void in '{source}'"
  | .missingParenthesis source => s!"Method descriptor '{source}' must start with '('"
  | .voidParameter source => s!"Void parameter in method descriptor '{source}'"
  | .tooManySlots source => s!"Method descriptor '{source}' exceeds 255 parameter slots"
  | .afterType source position => s!"Trailing data in type descriptor '{source}' at {position}"
  | .afterMethod source position => s!"Trailing data in method descriptor '{source}' at {position}"

end Weaver.Descriptor
