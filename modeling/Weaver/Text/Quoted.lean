import Weaver.Text.CodePoints

/-!
# Quoted text

String constants and heap strings are shown between double quotes.  A character that could not be
told apart in the output is written as an escape: the quote, the backslash, the usual control
characters by name, and every other unprintable or grapheme-extending character by its code point.
-/

namespace Weaver.Text

/-- The lower-case hexadecimal digits of a number. -/
def hex (n : Nat) : String := String.ofList (Nat.toDigits 16 n)

/-- The Hangul fillers: letters that are drawn as nothing. -/
def hangulFillers : List Nat := [0x115f, 0x1160, 0x3164, 0xffa0]

/-- The halfwidth voicing marks: they extend a grapheme but are drawn in a cell of their own. -/
def halfwidthMarks : List Nat := [0xff9e, 0xff9f]

/-- Whether a character joins the character before it when drawn. -/
def combines (point : Nat) : Bool :=
  graphemeExtend.contains point && !halfwidthMarks.contains point

/-- Whether a character is drawn as nothing. -/
def isInvisible (point : Nat) : Bool :=
  unprintable.contains point || hangulFillers.contains point

/-- Whether a character is shown by its code point. -/
def shownByCode (c : Char) : Bool :=
  if c.toNat < 0x7f then c.toNat < 0x20
  else combines c.toNat || isInvisible c.toNat

/-- The written form of one character between quotes. -/
def escape (c : Char) : String :=
  match c with
  | '\x00' => "\\0"
  | '\t' => "\\t"
  | '\n' => "\\n"
  | '\r' => "\\r"
  | '\\' => "\\\\"
  | '"' => "\\\""
  | c => if shownByCode c then "\\u\x7b" ++ hex c.toNat ++ "\x7d" else c.toString

/-- The text between double quotes, with escapes. -/
def quote (text : String) : String :=
  "\"" ++ String.join (text.toList.map escape) ++ "\""

end Weaver.Text
