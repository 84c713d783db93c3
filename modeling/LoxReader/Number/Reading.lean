import LoxReader.Number.Decimal

/-!
# Reading a double

A numeral is an optional sign and then `inf`, `infinity` or `nan` in any case, or digits with an
optional point among, before or after them and an optional exponent.  Nothing else is one: no
blanks, no separators, no other bases.  All digits of the mantissa count; those of an exponent
count until it has reached `exponentBound`.
-/

namespace LoxReader.Double

def digitValue (d : Char) : Nat :=
  d.toNat - '0'.toNat

/-- The value of digits written behind a number. -/
def appendDigits (n : Nat) (ds : List Char) : Nat :=
  ds.foldl (fun n d => 10 * n + digitValue d) n

/-- The value of a list of digits that is halved so many times, and read digit by digit only then:
two large halves meet in one multiplication. -/
def halvedValue : Nat → List Char → Nat
  | 0, ds => appendDigits 0 ds
  | times + 1, ds =>
    let back := ds.drop (ds.length / 2)
    halvedValue times (ds.take (ds.length / 2)) * Decimal.tenTo back.length
      + halvedValue times back

/-- The value of a list of digits. -/
def digitsValue (ds : List Char) : Nat :=
  halvedValue (ds.length / 64).log2 ds

theorem appendDigits_eq (n : Nat) (ds : List Char) :
    appendDigits n ds = n * Decimal.tenTo ds.length + appendDigits 0 ds := by
  induction ds generalizing n with
  | nil => simp [appendDigits, Decimal.tenTo]
  | cons d ds ih =>
    have step (m : Nat) : appendDigits m (d :: ds) = appendDigits (10 * m + digitValue d) ds := rfl
    have power : Decimal.tenTo (d :: ds).length = Decimal.tenTo ds.length * 10 := rfl
    rw [step, step, ih, ih (10 * 0 + digitValue d), power, Nat.mul_zero, Nat.zero_add,
      Nat.add_mul, Nat.mul_comm 10 n, Nat.mul_assoc, Nat.mul_comm 10, Nat.add_assoc]

theorem halvedValue_eq (times : Nat) (ds : List Char) :
    halvedValue times ds = appendDigits 0 ds := by
  induction times generalizing ds with
  | zero => rfl
  | succ times ih =>
    have cut : appendDigits 0 (ds.take (ds.length / 2) ++ ds.drop (ds.length / 2))
        = appendDigits (appendDigits 0 (ds.take (ds.length / 2))) (ds.drop (ds.length / 2)) :=
      List.foldl_append
    rw [List.take_append_drop] at cut
    rw [halvedValue, ih, ih, cut, ← appendDigits_eq]

/-- Each digit takes ten times the value before it and adds its own. -/
theorem digitsValue_eq (ds : List Char) : digitsValue ds = appendDigits 0 ds :=
  halvedValue_eq _ ds

/-- Far more than the exponents of all doubles. -/
def exponentBound : Nat := 0x10000

/-- The value of the digits of an exponent, without those after it has reached its bound. -/
def exponentValue (ds : List Char) : Nat :=
  ds.foldl (fun n d => if n < exponentBound then 10 * n + digitValue d else n) 0

/-- An optional sign in front; `true` stands for a minus. -/
def splitSign : List Char → Bool × List Char
  | '-' :: rest => (true, rest)
  | '+' :: rest => (false, rest)
  | rest => (false, rest)

/-- The exponent behind a mantissa. -/
def readExponent : List Char → Option Int
  | [] => some 0
  | mark :: rest =>
    if mark = 'e' || mark = 'E' then
      let (negative, ds) := splitSign rest
      if ds.isEmpty || !ds.all Char.isDigit then none
      else some (if negative then -(exponentValue ds : Int) else exponentValue ds)
    else none

/-- Digits with an optional point and an optional exponent. -/
def readDecimal (cs : List Char) : Option Decimal :=
  let whole := cs.takeWhile Char.isDigit
  let (fraction, rest) :=
    match cs.dropWhile Char.isDigit with
    | '.' :: rest => (rest.takeWhile Char.isDigit, rest.dropWhile Char.isDigit)
    | rest => ([], rest)
  if whole.isEmpty && fraction.isEmpty then none
  else (readExponent rest).map fun e =>
    ⟨digitsValue (whole ++ fraction), e - (fraction.length : Int)⟩

/-- The magnitudes that have a name. -/
def readName (cs : List Char) : Option Nat :=
  let name := String.ofList (cs.map Char.toLower)
  if name = "inf" || name = "infinity" then some infinityMagnitude
  else if name = "nan" then some (infinityMagnitude + leadingBit / 2)
  else none

/-- The double nearest to a numeral. -/
def read? (text : String) : Option Double :=
  let (negative, cs) := splitSign text.toList
  ((readDecimal cs).map Decimal.magnitude <|> readName cs).map (ofMagnitude negative)

end LoxReader.Double
