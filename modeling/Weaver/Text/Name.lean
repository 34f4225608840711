/-!
# Names of classes and events

Class names are written with slashes between their parts; dotted spellings are accepted on input and
turned into slashed ones.  Event names are compared without regard to the case of ASCII letters, and
none of them may be blank.
-/

namespace Weaver.Text

/-- A class name with every dot turned into a slash. -/
def slashed (name : String) : String :=
  name.map fun c => if c = '.' then '/' else c

/-- The key under which a name is compared: ASCII capitals are made small, all else is kept. -/
def folded (name : String) : String := name.map Char.toLower

/-- Whether a character has the property `White_Space`. -/
def isBlankChar (c : Char) : Bool :=
  let n := c.toNat
  (9 ≤ n && n ≤ 13) || n == 0x20 || n == 0x85 || n == 0xa0 || n == 0x1680 ||
    (0x2000 ≤ n && n ≤ 0x200a) || n == 0x2028 || n == 0x2029 || n == 0x202f || n == 0x205f ||
    n == 0x3000

/-- Whether a text holds nothing but white space. -/
def isBlank (text : String) : Bool := text.toList.all isBlankChar

end Weaver.Text
