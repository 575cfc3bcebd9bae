import FlatDb.Text.Blank

/-! # Decimal numbers read as doubles

A cell is a number when it is a decimal numeral whose value, rounded to the nearest IEEE double
(binary64, ties to even), is finite.

* Every finite double is a whole multiple of the least positive one, 2 ^ -1074.  A double is
  represented by that multiple, so that comparing doubles is comparing integers and the two
  zeros are the same number.
* Rounding is exact arithmetic on natural numbers: `nearest` rounds a quotient to 53 significant
  binary digits.
* `number?` is the reader: white space around the numeral is ignored, and a numeral that rounds
  to infinity is not a number. -/

namespace FlatDb

/-- A decimal numeral: a sign, digits without the point, and the power of ten they are scaled by. -/
structure Numeral where
  negative : Bool
  digits : Text
  exponent : Int
deriving DecidableEq, Repr

namespace Numeral

/-- A sign, if there is one, and what follows it; true stands for minus. -/
def splitSign : Text → Bool × Text
  | '-' :: t => (true, t)
  | '+' :: t => (false, t)
  | t => (false, t)

/-- The fraction digits after a point, if there is one, and what follows them. -/
def splitFraction : Text → Text × Text
  | '.' :: t => (t.takeWhile Char.isDigit, t.dropWhile Char.isDigit)
  | t => ([], t)

/-- The value of what may follow the digits: nothing, or the letter e and a signed integer. -/
def exponent? : Text → Option Int
  | [] => some 0
  | c :: t =>
    let (negative, digits) := splitSign t
    if (c = 'e' ∨ c = 'E') ∧ digits ≠ [] ∧ digits.all Char.isDigit then
      let n : Int := Nat.ofDigitChars 10 digits 0
      some (if negative then -n else n)
    else none

/-- Reads a whole text as a numeral.  The point may stand first or last among the digits, and
there has to be at least one digit. -/
def read? (t : Text) : Option Numeral :=
  let (negative, t) := splitSign t
  let whole := t.takeWhile Char.isDigit
  let (fraction, rest) := splitFraction (t.dropWhile Char.isDigit)
  if whole = [] ∧ fraction = [] then none
  else (exponent? rest).map fun e => ⟨negative, whole ++ fraction, e - fraction.length⟩

/-! ### Rounding -/

/-- A quotient rounded to the nearest whole number, a tie to the even one. -/
def roundEven (num den : Nat) : Nat :=
  let q := num / den
  let r := num % den
  if 2 * r < den then q
  else if den < 2 * r then q + 1
  else q + q % 2

/-- A quotient rounded to at most 53 significant binary digits. -/
def nearest (num den : Nat) : Nat :=
  let spare := Nat.log2 (num / den) - 52
  roundEven num (den * Nat.pow 2 spare) * Nat.pow 2 spare

/-- The least magnitude that is no finite double, in units of 2 ^ -1074. -/
def limit : Nat := Nat.pow 2 (1024 + 1074)

/-- The magnitude of a numeral rounded to a double, in units of 2 ^ -1074; none if it is not
finite.  Magnitudes of 10 ^ 400 and above are not finite and those below 10 ^ -400 round to zero,
so that no large power has to be computed. -/
def magnitude? (n : Numeral) : Option Nat :=
  let c := Nat.ofDigitChars 10 n.digits 0
  if c = 0 then some 0
  else if 400 < n.exponent then none
  else if n.exponent + n.digits.length < -400 then some 0
  else
    let units :=
      nearest (c * Nat.pow 10 n.exponent.toNat * Nat.pow 2 1074) (Nat.pow 10 (-n.exponent).toNat)
    if units < limit then some units else none

/-- The double nearest to a numeral, in units of 2 ^ -1074. -/
def double? (n : Numeral) : Option Int :=
  n.magnitude?.map fun units => if n.negative then -(units : Int) else units

end Numeral

/-- The finite double that a text denotes, in units of 2 ^ -1074. -/
def number? (t : Text) : Option Int := (Numeral.read? t.trim).bind Numeral.double?

end FlatDb
