import Weaver.Number.Binary

/-!
# The shortest decimal that reads back

A positive number `mantissa * 2 ^ exponent` is the rounding of every real in an interval around it.
`Shortest.digits` walks the decimal grids `10 ^ k` from the coarsest to finer ones and stops at the
first grid with a point in that interval; of two such points it takes the nearer, and the larger one
on a tie.  All tests are on natural numbers.
-/

namespace Weaver.Number.Shortest

/-- The interval of reals that round to a number, in units of a quarter of its last place: lower
end, number and upper end.  The ends belong to it when the mantissa is even. -/
structure Interval where
  low : Nat
  centre : Nat
  high : Nat
  closed : Bool
  /-- The exponent of two of the quarter unit. -/
  scale : Int

/-- The rounding interval of `mantissa * 2 ^ exponent`. -/
def Interval.around (mantissa : Nat) (exponent : Int) (narrowBelow : Bool) : Interval :=
  { low := 4 * mantissa - (if narrowBelow then 1 else 2)
    centre := 4 * mantissa
    high := 4 * mantissa + 2
    closed := mantissa % 2 == 0
    scale := exponent - 2 }

/-- The factor and the grid step that turn a comparison of `x * 2 ^ scale` with `d * 10 ^ place`
into a comparison of `x * factor` with `d * step`. -/
def ratio (scale place : Int) : Nat × Nat :=
  (Nat.pow 2 scale.toNat * Nat.pow 10 (-place).toNat,
    Nat.pow 2 (-scale).toNat * Nat.pow 10 place.toNat)

/-- Whether the grid point `d * step` lies in the scaled interval. -/
def Interval.holds (interval : Interval) (factor step d : Nat) : Bool :=
  if interval.closed then
    interval.low * factor ≤ d * step && d * step ≤ interval.high * factor
  else
    interval.low * factor < d * step && d * step < interval.high * factor

/-- The grid point of `10 ^ place` that stands for the interval, if the grid has one in it: the
nearer of the two neighbours of the centre, and the upper one when both are equally near. -/
def Interval.pick (interval : Interval) (place : Int) : Option Nat :=
  let (factor, step) := ratio interval.scale place
  let below := interval.centre * factor / step
  let rest := interval.centre * factor % step
  match interval.holds factor step below, interval.holds factor step (below + 1) with
  | true, true => some (if 2 * rest < step then below else below + 1)
  | true, false => some below
  | false, true => some (below + 1)
  | false, false => none

/-- The first of `count` grids, from `10 ^ place` downwards, that has a point in the interval. -/
def search (interval : Interval) : Nat → Int → Nat × Int
  | 0, place => (0, place)
  | count + 1, place =>
      match interval.pick place with
      | some d => (d, place)
      | none => search interval count (place - 1)

/-- A place above the first digit of every number below `2 ^ bits`. -/
def coarsest (bits : Int) : Int :=
  if 0 ≤ bits then bits / 3 + 1 else 3 * bits / 10 + 1

/-- The digits `d` and the place `k` of the shortest decimal `d * 10 ^ k` that rounds to
`mantissa * 2 ^ exponent`.  The number itself lies on the grid of place `min 0 exponent`, so the
search ends there at the latest. -/
def digits (mantissa : Nat) (exponent : Int) (narrowBelow : Bool) : Nat × Int :=
  let place := coarsest (exponent + (mantissa.log2 + 1 : Nat))
  search (.around mantissa exponent narrowBelow) ((place - min 0 exponent).toNat + 1) place

end Weaver.Number.Shortest
