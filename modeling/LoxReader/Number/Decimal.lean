import LoxReader.Number.Double

/-!
# Decimals

Decimals `digits * 10 ^ exponent`, exactly: the double nearest to one, and its positional text.
-/

namespace LoxReader

structure Decimal where
  digits : Nat
  exponent : Int
deriving DecidableEq

namespace Decimal

/-- A power of ten. -/
def tenTo (exponent : Nat) : Nat := Nat.pow 10 exponent

/-- The magnitude of the nearest double.  An exponent that is out of all proportion is decided
from the length of the digits, so that no huge power of ten is ever formed. -/
def magnitude (x : Decimal) : Nat :=
  if x.digits = 0 then 0
  else if 310 ≤ x.exponent + (x.digits.log2 / 4 : Nat) then Double.infinityMagnitude
  else if x.exponent + (x.digits.log2 / 3 + 1 : Nat) < -330 then 0
  else Double.magnitudeOfRatio (x.digits * tenTo x.exponent.toNat) (tenTo (-x.exponent).toNat)

/-- Written out without an exponent: `120`, `1.2`, `0.012`. -/
def text (x : Decimal) : String :=
  let ds := Nat.toDigits 10 x.digits
  let places := (-x.exponent).toNat
  if places = 0 then
    String.ofList (ds ++ List.replicate x.exponent.toNat '0')
  else if places < ds.length then
    String.ofList (ds.take (ds.length - places) ++ '.' :: ds.drop (ds.length - places))
  else
    String.ofList ('0' :: '.' :: List.replicate (places - ds.length) '0' ++ ds)

end Decimal
end LoxReader
