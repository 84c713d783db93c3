/-!
# Doubles

A double is a word of 64 bits: a sign, eleven bits of exponent and 52 bits of fraction.  It is kept
as its word, so all that is said about its value is exact arithmetic on natural numbers.
-/

namespace LoxReader

structure Double where
  bits : UInt64
deriving DecidableEq, Inhabited

namespace Double

/-- The bit of the sign. -/
def signBit : Nat := 0x8000000000000000

/-- The lowest bit of the exponent, and the leading bit of a mantissa. -/
def leadingBit : Nat := 0x10000000000000

/-- The magnitude of infinity; every larger one is not a number. -/
def infinityMagnitude : Nat := 0x7ff0000000000000

/-- The word without its sign. -/
def magnitude (x : Double) : Nat := x.bits.toNat % signBit

def isNegative (x : Double) : Bool := signBit ≤ x.bits.toNat

def isNaN (x : Double) : Bool := infinityMagnitude < x.magnitude

def isInfinite (x : Double) : Bool := x.magnitude = infinityMagnitude

def isZero (x : Double) : Bool := x.magnitude = 0

/-- The double of a sign and a magnitude. -/
def ofMagnitude (negative : Bool) (magnitude : Nat) : Double :=
  ⟨(magnitude % signBit + if negative then signBit else 0).toUInt64⟩

/-- Numeric equality: what is not a number differs from everything, and both zeros are equal. -/
def equals (x y : Double) : Bool :=
  !x.isNaN && !y.isNaN && (x.bits == y.bits || x.isZero && y.isZero)

/-- Whole multiples of a power of two: `mantissa * 2 ^ exponent`. -/
structure Parts where
  mantissa : Nat
  exponent : Int
  /-- The next smaller value is only half as far away as the next larger one. -/
  narrowBelow : Bool

/-- The value of a finite double, its sign left out. -/
def parts (x : Double) : Parts :=
  let exponent : Nat := x.magnitude / leadingBit
  let fraction : Nat := x.magnitude % leadingBit
  if exponent = 0 then ⟨fraction, -1074, false⟩
  else ⟨leadingBit + fraction, (exponent : Int) - 1075, fraction = 0 && 1 < exponent⟩

/-! ### Rounding a quotient -/

/-- The natural number nearest to `n / d`; a half goes to the even neighbour. -/
def nearestEven (n d : Nat) : Nat :=
  let q := n / d
  let r := n % d
  if 2 * r < d then q
  else if 2 * r = d && q % 2 = 0 then q
  else q + 1

/-- The quotient `n / d * 2 ^ (-e)`, of natural numbers again. -/
def scaled (n d : Nat) (e : Int) : Nat × Nat :=
  (n <<< (-e).toNat, d <<< e.toNat)

/-- The largest `e` with `2 ^ e ≤ n / d`. -/
def binaryExponent (n d : Nat) : Int :=
  let e : Int := (n.log2 : Int) - (d.log2 : Int)
  let (n', d') := scaled n d e
  if n' < d' then e - 1 else e

/-- The magnitude nearest to `n / d`.  The grid of a value has 53 bits, or the spacing of the
least positive double if that is coarser.  A mantissa that rounds up to the next power of two
carries into the exponent by itself, and what would pass infinity stays there. -/
def magnitudeOfRatio (n d : Nat) : Nat :=
  if n = 0 then 0
  else
    let e := max (-1074) (binaryExponent n d - 52)
    let (n', d') := scaled n d e
    min ((e + 1074).toNat * leadingBit + nearestEven n' d') infinityMagnitude

end Double
end LoxReader
