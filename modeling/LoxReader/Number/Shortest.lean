import LoxReader.Number.Decimal

/-!
# The shortest text of a double

The reals that round to a double form an interval.  Of the grids `10 ^ p` the coarsest one with a
point in that interval is taken, and on it the point nearest to the value; a tie goes up.
-/

namespace LoxReader.Double

open Decimal (tenTo)

/-- Compares `a * 10 ^ i` with `b * 2 ^ j`. -/
def compareScaled (a : Nat) (i : Int) (b : Nat) (j : Int) : Ordering :=
  compare ((a * tenTo i.toNat) <<< (-j).toNat) ((b * tenTo (-i).toNat) <<< j.toNat)

/-- The decimal lies among the reals that round to the value; the two ends do if the mantissa is
even. -/
def Parts.readsBack (x : Parts) (d : Decimal) : Bool :=
  let low := compareScaled d.digits d.exponent
    (if x.narrowBelow then 4 * x.mantissa - 1 else 4 * x.mantissa - 2) (x.exponent - 2)
  let high := compareScaled d.digits d.exponent (4 * x.mantissa + 2) (x.exponent - 2)
  let ends := x.mantissa % 2 == 0
  (low == .gt || ends && low == .eq) && (high == .lt || ends && high == .eq)

/-- The multiple of `10 ^ p` just below the value, in units of `10 ^ p`. -/
def Parts.floorOn (x : Parts) (p : Int) : Nat :=
  ((x.mantissa * tenTo (-p).toNat) <<< x.exponent.toNat) / (tenTo p.toNat <<< (-x.exponent).toNat)

/-- The point of the grid `10 ^ p` that reads back, the nearer one if both neighbours do. -/
def Parts.pointOn (x : Parts) (p : Int) : Option Decimal :=
  let k := x.floorOn p
  let below : Decimal := ⟨k, p⟩
  let above : Decimal := ⟨k + 1, p⟩
  match x.readsBack below, x.readsBack above with
  | true, false => some below
  | false, true => some above
  | false, false => none
  | true, true =>
    -- the middle of the two is `(2k + 1) / 2 * 10 ^ p`
    if compareScaled (2 * k + 1) p x.mantissa (x.exponent + 1) == .gt then some below else some above

/-- A power of ten above the value. -/
def Parts.topExponent (x : Parts) : Int :=
  (x.exponent + (x.mantissa.log2 : Int) + 1) * 30103 / 100000 + 1

/-- The decimal value itself. -/
def Parts.exactly (x : Parts) : Decimal :=
  ⟨(x.mantissa * Nat.pow 5 (-x.exponent).toNat) <<< x.exponent.toNat, min x.exponent 0⟩

/-- The shortest decimal that reads back. -/
def Parts.shortest (x : Parts) : Decimal :=
  ((List.range 24).findSome? fun (i : Nat) => x.pointOn (x.topExponent - i)).getD x.exactly

/-- The value, written out with as few digits as identify it. -/
def text (x : Double) : String :=
  if x.isNaN then "NaN"
  else
    let unsigned :=
      if x.isInfinite then "inf"
      else if x.isZero then "0"
      else x.parts.shortest.text
    if x.isNegative then "-" ++ unsigned else unsigned

end LoxReader.Double
