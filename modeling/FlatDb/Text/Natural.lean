import FlatDb.Text.Basic

/-! # Natural numbers in decimal

`Text.ofNat` writes a number without leading zeros.  `Text.natural?` reads any non-empty run of
digits, and `Text.count?` reads what may stand in a file for an id or a counter: an optional
plus sign, then digits, whose value fits into 64 bits. -/

namespace FlatDb.Text

/-- The decimal digits of a number. -/
def ofNat (n : Nat) : Text := Nat.toDigits 10 n

/-- Zeros in front of the digits of a number do not change its value. -/
theorem ofDigitChars_zeros (k n : Nat) :
    Nat.ofDigitChars 10 (List.replicate k '0' ++ ofNat n) 0 = n := by
  induction k with
  | zero => exact Nat.ofDigitChars_toDigits (by decide) (by decide)
  | succ k ih => simpa [List.replicate_succ, Nat.ofDigitChars_cons] using ih

/-- The value of a non-empty run of digits. -/
def natural? (t : Text) : Option Nat :=
  if t ≠ [] ∧ t.all Char.isDigit then some (Nat.ofDigitChars 10 t 0) else none

/-- A number below 2 ^ 64, written in digits after an optional plus sign. -/
def count? (t : Text) : Option Nat :=
  let digits := match t with
    | '+' :: rest => rest
    | _ => t
  (natural? digits).filter (· < UInt64.size)

end FlatDb.Text
