import Weaver.Number.Shortest

/-!
# Written forms of floating-point numbers

A `Layout` holds the layout decisions that the digits leave open: whether a whole number keeps a
`.0`, and between which places of the first digit a number is written without an exponent.  The two
forms in use are `Layout.plain`, which instruction listings and values use, and
`Layout.marked`, which slot dumps use.
-/

namespace Weaver.Number

/-- The layout decisions of a written form. -/
structure Layout where
  /-- Whether a whole number ends in `.0`. -/
  keepsPoint : Bool
  /-- The places of the first digit, from the first up to but not including the second, that are
  written without an exponent; `none` writes every number so. -/
  positional : Option (Int × Int)

/-- Never an exponent, and no `.0`. -/
def Layout.plain : Layout := ⟨false, none⟩

/-- Always a fraction, and an exponent below `10 ^ -4` and from `10 ^ 16` on. -/
def Layout.marked : Layout := ⟨true, some (-4, 16)⟩

/-- The decimal `d * 10 ^ place` without an exponent. -/
def withoutExponent (keepsPoint : Bool) (d : Nat) (place : Int) : String :=
  let text := toString d
  let whole : Int := text.length + place
  if 0 ≤ place then
    text ++ String.ofList (List.replicate place.toNat '0') ++ (if keepsPoint then ".0" else "")
  else if 0 < whole then
    String.ofList (text.toList.take whole.toNat) ++ "." ++ String.ofList (text.toList.drop whole.toNat)
  else
    "0." ++ String.ofList (List.replicate (-whole).toNat '0') ++ text

/-- The decimal `d * 10 ^ place` with one digit before the point and an exponent. -/
def withExponent (d : Nat) (place : Int) : String :=
  let text := (toString d).toList
  let lead := String.ofList (text.take 1)
  let rest := String.ofList (text.drop 1)
  lead ++ (if rest.isEmpty then "" else "." ++ rest) ++ "e" ++
    toString ((text.length : Int) - 1 + place)

/-- The text of a positive number with the digits `d` and the place `place`. -/
def Layout.decimal (form : Layout) (d : Nat) (place : Int) : String :=
  let first : Int := ((toString d).length : Int) - 1 + place
  match form.positional with
  | none => withoutExponent form.keepsPoint d place
  | some (least, bound) =>
      if least ≤ first && first < bound then withoutExponent form.keepsPoint d place
      else withExponent d place

/-- The text of a number given by its sign and magnitude. -/
def Layout.write (form : Layout) (negative : Bool) (magnitude : Magnitude) : String :=
  let signed (text : String) : String := if negative then "-" ++ text else text
  match magnitude with
  | .nan => "NaN"
  | .infinite => signed "inf"
  | .zero => signed (if form.keepsPoint then "0.0" else "0")
  | .finite mantissa exponent narrowBelow =>
      let (d, place) := Shortest.digits mantissa exponent narrowBelow
      signed (form.decimal d place)

end Weaver.Number

namespace Weaver

/-- The text of a single-precision number. -/
def Binary32.write (form : Number.Layout) (x : Binary32) : String :=
  form.write x.decode.1 x.decode.2

/-- The text of a double-precision number. -/
def Binary64.write (form : Number.Layout) (x : Binary64) : String :=
  form.write x.decode.1 x.decode.2

end Weaver
