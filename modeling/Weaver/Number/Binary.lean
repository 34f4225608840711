/-!
# Binary floating-point numbers as bit patterns

`Binary32` and `Binary64` are the two floating-point kinds of the instruction set.  A number is its
bit pattern, so equality of values is equality of bits and every fact about the text of a number is
a fact about natural numbers.  `Format.decode` reads a pattern as a sign and a magnitude
`mantissa * 2 ^ exponent`; `Magnitude.low`, `centre` and `high` give the interval of reals that
round to it, in quarter units of the last place.

Arithmetic and comparison follow IEEE 754 and are those of the built-in floating-point types.
-/

namespace Weaver

/-- A single-precision number, given by its bits. -/
structure Binary32 where
  bits : UInt32
  deriving DecidableEq, Inhabited

/-- A double-precision number, given by its bits. -/
structure Binary64 where
  bits : UInt64
  deriving DecidableEq, Inhabited

namespace Number

/-- The widths of the fraction and exponent fields of a binary interchange format. -/
structure Format where
  fractionBits : Nat
  exponentBits : Nat

/-- Single precision: 23 fraction bits and 8 exponent bits. -/
def Format.single : Format := ⟨23, 8⟩

/-- Double precision: 52 fraction bits and 11 exponent bits. -/
def Format.double : Format := ⟨52, 11⟩

/-- What a bit pattern stands for, its sign apart. -/
inductive Magnitude where
  | nan
  | infinite
  | zero
  /-- The value `mantissa * 2 ^ exponent`.  `narrowBelow` says that the next smaller number is only
  half as far away as the next larger one, which is so at powers of two. -/
  | finite (mantissa : Nat) (exponent : Int) (narrowBelow : Bool)
  deriving DecidableEq

/-- The exponent of the last place of the smallest numbers of the format. -/
def Format.lowestExponent (format : Format) : Int :=
  2 - (Nat.pow 2 (format.exponentBits - 1) : Nat) - format.fractionBits

/-- Read a bit pattern as a sign (`true` for negative) and a magnitude. -/
def Format.decode (format : Format) (bits : Nat) : Bool × Magnitude :=
  let hidden := Nat.pow 2 format.fractionBits
  let patterns := Nat.pow 2 format.exponentBits
  let fraction := bits % hidden
  let exponent := bits / hidden % patterns
  let negative := bits / hidden / patterns % 2 == 1
  let magnitude :=
    if exponent = patterns - 1 then
      if fraction = 0 then .infinite else .nan
    else if exponent = 0 then
      if fraction = 0 then .zero else .finite fraction format.lowestExponent false
    else
      .finite (hidden + fraction) (format.lowestExponent + (exponent - 1))
        (fraction = 0 && 1 < exponent)
  (negative, magnitude)

end Number

namespace Binary32

/-- The positive zero. -/
def zero : Binary32 := ⟨0⟩

/-- The number as a value of the built-in type. -/
def toFloat (x : Binary32) : Float32 := Float32.ofBits x.bits

/-- The bit pattern of a value of the built-in type. -/
def ofFloat (x : Float32) : Binary32 := ⟨x.toBits⟩

/-- Numeric equality: a NaN equals nothing and the two zeros are equal. -/
def same (x y : Binary32) : Bool := x.toFloat == y.toFloat

/-- The sign and magnitude of a number. -/
def decode (x : Binary32) : Bool × Number.Magnitude :=
  Number.Format.single.decode x.bits.toNat

/-- Whether the pattern stands for no number. -/
def isNaN (x : Binary32) : Bool := x.decode.2 == .nan

instance : Add Binary32 := ⟨fun x y => ofFloat (x.toFloat + y.toFloat)⟩
instance : Sub Binary32 := ⟨fun x y => ofFloat (x.toFloat - y.toFloat)⟩
instance : Mul Binary32 := ⟨fun x y => ofFloat (x.toFloat * y.toFloat)⟩

end Binary32

namespace Binary64

/-- The positive zero. -/
def zero : Binary64 := ⟨0⟩

/-- The number as a value of the built-in type. -/
def toFloat (x : Binary64) : Float := Float.ofBits x.bits

/-- The bit pattern of a value of the built-in type. -/
def ofFloat (x : Float) : Binary64 := ⟨x.toBits⟩

/-- Numeric equality: a NaN equals nothing and the two zeros are equal. -/
def same (x y : Binary64) : Bool := x.toFloat == y.toFloat

/-- The sign and magnitude of a number. -/
def decode (x : Binary64) : Bool × Number.Magnitude :=
  Number.Format.double.decode x.bits.toNat

/-- Whether the pattern stands for no number. -/
def isNaN (x : Binary64) : Bool := x.decode.2 == .nan

instance : Add Binary64 := ⟨fun x y => ofFloat (x.toFloat + y.toFloat)⟩
instance : Sub Binary64 := ⟨fun x y => ofFloat (x.toFloat - y.toFloat)⟩
instance : Mul Binary64 := ⟨fun x y => ofFloat (x.toFloat * y.toFloat)⟩

end Binary64

end Weaver
