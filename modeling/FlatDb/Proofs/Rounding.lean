import FlatDb.Proofs.Readable
import Mathlib

/-! # Whole numbers as doubles

A text of digits is read as the double nearest to the number it denotes.  A double has 53 binary digits, so
that larger whole numbers may be rounded.

* `roundEven` picks a nearest multiple (`roundEven_near`) and keeps the order (`roundEven_mono`).
* `rounded n` is the double nearest to `n`: **it is a double, none is nearer** (`isDouble_rounded`,
  `rounded_near`), rounding keeps the order (`rounded_mono`), and up to 2 ^ 53 nothing is rounded
  (`rounded_of_le`).
* `number?_of_digits`: a text of digits is read as that double, or as none if it is not finite; in
  particular **a text that is read as an id is read as the double nearest to the id**
  (`number?_of_count?`). -/

namespace FlatDb

open Text

namespace Numeral

/-! ### Multiples -/

/-- A quotient is rounded down or up, and in either case to a nearest one. -/
theorem roundEven_cases (num den : Nat) :
    (roundEven num den = num / den ∧ 2 * (num % den) ≤ den) ∨
      (roundEven num den = num / den + 1 ∧ den ≤ 2 * (num % den)) := by
  unfold roundEven
  dsimp only
  split
  · exact .inl ⟨rfl, by omega⟩
  · split
    · exact .inr ⟨rfl, by omega⟩
    · rcases Nat.mod_two_eq_zero_or_one (num / den) with h | h
      · exact .inl ⟨by omega, by omega⟩
      · exact .inr ⟨by omega, by omega⟩

theorem roundEven_mul {d : Nat} (hd : 0 < d) (q : Nat) : roundEven (q * d) d = q := by
  have hmod : q * d % d = 0 := Nat.mul_mod_left q d
  have hdiv : q * d / d = q := Nat.mul_div_cancel q hd
  rcases roundEven_cases (q * d) d with ⟨h, -⟩ | ⟨-, h⟩
  · rw [h, hdiv]
  · omega

theorem roundEven_mono {a b : Nat} (h : a ≤ b) (d : Nat) : roundEven a d ≤ roundEven b d := by
  have hquot : a / d ≤ b / d := Nat.div_le_div_right h
  rcases Nat.lt_or_eq_of_le hquot with hlt | heq
  · rcases roundEven_cases a d with ⟨ha, -⟩ | ⟨ha, -⟩ <;>
      rcases roundEven_cases b d with ⟨hb, -⟩ | ⟨hb, -⟩ <;> omega
  · have ha := Nat.div_add_mod a d
    have hb := Nat.div_add_mod b d
    rw [heq] at ha
    have hmod : a % d ≤ b % d := by omega
    unfold roundEven
    dsimp only
    rw [heq]
    split_ifs <;> omega

theorem roundEven_scale {c : Nat} (hc : 0 < c) (a d : Nat) : roundEven (a * c) (d * c) = roundEven a d := by
  have htwice : 2 * (a % d * c) = 2 * (a % d) * c := (Nat.mul_assoc _ _ _).symm
  unfold roundEven
  dsimp only
  rw [Nat.mul_div_mul_right _ _ hc, Nat.mul_mod_mul_right, htwice]
  simp only [Nat.mul_lt_mul_right hc]

/-- No multiple is nearer than the one that is picked. -/
theorem roundEven_near {a d : Nat} (hd : 0 < d) (k : Nat) :
    ((roundEven a d * d : Nat) - a : Int).natAbs ≤ ((k * d : Nat) - a : Int).natAbs := by
  have hdiv := Nat.div_add_mod' a d
  have hmod := Nat.mod_lt a hd
  have hside : k * d ≤ a / d * d ∨ a / d * d + d ≤ k * d := by
    rcases Nat.lt_or_ge (a / d) k with h | h
    · have hk := Nat.mul_le_mul_right d h
      rw [Nat.succ_mul] at hk
      exact .inr hk
    · exact .inl (Nat.mul_le_mul_right d h)
  rcases roundEven_cases a d with ⟨h, hr⟩ | ⟨h, hr⟩
  · rw [h]
    omega
  · rw [h, Nat.succ_mul]
    omega

/-! ### The nearest double -/

/-- The double nearest to a whole number; of two that are equally near, the one whose last binary digit is
even. -/
def rounded (n : Nat) : Nat := nearest n 1

/-- The number of binary digits of a whole number for which a double has no room. -/
def spare (n : Nat) : Nat := Nat.log2 n - 52

theorem rounded_eq (n : Nat) : rounded n = roundEven n (2 ^ spare n) * 2 ^ spare n := by
  unfold rounded nearest
  dsimp only
  rw [Nat.div_one, Nat.one_mul]
  rfl

theorem lt_two_pow_spare (n : Nat) : n < 2 ^ 53 * 2 ^ spare n := by
  have hlog : n < 2 ^ (Nat.log2 n + 1) := Nat.lt_log2_self
  rw [← Nat.pow_add]
  refine hlog.trans_le (Nat.pow_le_pow_right (by decide) ?_)
  unfold spare
  omega

theorem two_pow_spare_le {n : Nat} (h : 0 < spare n) : 2 ^ 52 * 2 ^ spare n ≤ n := by
  have hspare : 52 + spare n = Nat.log2 n := by
    unfold spare at h ⊢
    omega
  rw [← Nat.pow_add, hspare]
  refine Nat.log2_self_le ?_
  rintro rfl
  simp [spare] at h

theorem two_pow_mul_le {a b i j : Nat} (h : a + i ≤ b + j) : 2 ^ a * 2 ^ i ≤ 2 ^ b * 2 ^ j := by
  rw [← Nat.pow_add, ← Nat.pow_add]
  exact Nat.pow_le_pow_right (by decide) h

theorem le_rounded {n q : Nat} (h : q * 2 ^ spare n ≤ n) : q * 2 ^ spare n ≤ rounded n := by
  have hq : q ≤ roundEven n (2 ^ spare n) := by
    have hmono := roundEven_mono h (2 ^ spare n)
    rwa [roundEven_mul (Nat.two_pow_pos _)] at hmono
  rw [rounded_eq]
  exact Nat.mul_le_mul_right _ hq

theorem rounded_le {n q : Nat} (h : n ≤ q * 2 ^ spare n) : rounded n ≤ q * 2 ^ spare n := by
  have hq : roundEven n (2 ^ spare n) ≤ q := by
    have hmono := roundEven_mono h (2 ^ spare n)
    rwa [roundEven_mul (Nat.two_pow_pos _)] at hmono
  rw [rounded_eq]
  exact Nat.mul_le_mul_right _ hq

theorem rounded_eq_self {n q : Nat} (h : n = q * 2 ^ spare n) : rounded n = n :=
  Nat.le_antisymm ((rounded_le h.le).trans h.ge) (h.le.trans (le_rounded h.ge))

/-- Whole numbers up to 2 ^ 53 are doubles. -/
theorem rounded_of_le {n : Nat} (h : n ≤ 2 ^ 53) : rounded n = n := by
  rcases Nat.lt_or_eq_of_le h with hlt | rfl
  · have hspare : spare n = 0 := by
      by_contra hne
      have hle := two_pow_spare_le (Nat.pos_of_ne_zero hne)
      have hpow : 2 ^ 53 * 2 ^ 0 ≤ 2 ^ 52 * 2 ^ spare n := two_pow_mul_le (by omega)
      omega
    exact rounded_eq_self (q := n) (by rw [hspare, Nat.pow_zero, Nat.mul_one])
  · decide

theorem spare_mono {a b : Nat} (h : a ≤ b) : spare a ≤ spare b := by
  by_contra hlt
  have ha := two_pow_spare_le (n := a) (by omega)
  have hb := lt_two_pow_spare b
  have hpow : 2 ^ 53 * 2 ^ spare b ≤ 2 ^ 52 * 2 ^ spare a := two_pow_mul_le (by omega)
  omega

/-- **Rounding keeps the order.**  Numbers of different length are kept apart by a power of two, which is a
double; those of one length are rounded to multiples of the same power. -/
theorem rounded_mono {a b : Nat} (h : a ≤ b) : rounded a ≤ rounded b := by
  rcases Nat.lt_or_eq_of_le (spare_mono h) with hlt | heq
  · calc rounded a ≤ 2 ^ 53 * 2 ^ spare a := rounded_le (lt_two_pow_spare a).le
      _ ≤ 2 ^ 52 * 2 ^ spare b := two_pow_mul_le (by omega)
      _ ≤ rounded b := le_rounded (two_pow_spare_le (by omega))
  · rw [rounded_eq, rounded_eq, heq]
    exact Nat.mul_le_mul_right _ (roundEven_mono h _)

theorem log2_mul_two_pow {n : Nat} (h : n ≠ 0) (k : Nat) : Nat.log2 (n * 2 ^ k) = Nat.log2 n + k := by
  have hpos : n * 2 ^ k ≠ 0 := Nat.mul_ne_zero h (Nat.two_pow_pos k).ne'
  rw [Nat.log2_eq_iff hpos, Nat.pow_add, Nat.add_right_comm, Nat.pow_add]
  exact ⟨Nat.mul_le_mul_right _ (Nat.log2_self_le h),
    Nat.mul_lt_mul_of_pos_right Nat.lt_log2_self (Nat.two_pow_pos k)⟩

/-- Rounding does not depend on the unit. -/
theorem rounded_mul_two_pow (n k : Nat) : rounded (n * 2 ^ k) = rounded n * 2 ^ k := by
  rcases Nat.eq_zero_or_pos n with rfl | hpos
  · rw [Nat.zero_mul, rounded_of_le (Nat.zero_le _), Nat.zero_mul]
  · have hlog := log2_mul_two_pow hpos.ne' k
    rcases Nat.lt_or_ge (Nat.log2 n) 52 with hlt | hge
    · have hsmall : n ≤ 2 ^ 53 := by
        have hn : n < 2 ^ (Nat.log2 n + 1) := Nat.lt_log2_self
        exact hn.le.trans (Nat.pow_le_pow_right (by decide) (by omega))
      have hspare : spare (n * 2 ^ k) ≤ k := by
        unfold spare
        omega
      rw [rounded_of_le hsmall]
      refine rounded_eq_self (q := n * 2 ^ (k - spare (n * 2 ^ k))) ?_
      rw [Nat.mul_assoc, ← Nat.pow_add, Nat.sub_add_cancel hspare]
    · have hspare : spare (n * 2 ^ k) = spare n + k := by
        unfold spare
        omega
      rw [rounded_eq, rounded_eq, hspare, Nat.pow_add, roundEven_scale (Nat.two_pow_pos k), Nat.mul_assoc]

/-- A whole number that is a double: no more than 53 binary digits stand before its final zeros. -/
def IsDouble (m : Nat) : Prop := ∃ q e, q < 2 ^ 53 ∧ m = q * 2 ^ e

theorem isDouble_rounded (n : Nat) : IsDouble (rounded n) := by
  have hle : roundEven n (2 ^ spare n) ≤ 2 ^ 53 := by
    have h := roundEven_mono (lt_two_pow_spare n).le (2 ^ spare n)
    rwa [roundEven_mul (Nat.two_pow_pos _)] at h
  rw [rounded_eq]
  rcases Nat.lt_or_eq_of_le hle with hlt | heq
  · exact ⟨_, _, hlt, rfl⟩
  · refine ⟨2 ^ 52, spare n + 1, by decide, ?_⟩
    rw [heq, ← Nat.pow_add, ← Nat.pow_add]
    congr 1
    omega

/-- **No double is nearer.**  The doubles with fewer digits behind them than the number rounded lie below
a power of two that is itself among the multiples to which it may be rounded. -/
theorem rounded_near (n : Nat) {m : Nat} (hm : IsDouble m) :
    ((rounded n : Int) - n).natAbs ≤ ((m : Int) - n).natAbs := by
  obtain ⟨q, e, hq, rfl⟩ := hm
  have hgrid (k : Nat) := roundEven_near (a := n) (Nat.two_pow_pos (spare n)) k
  rw [← rounded_eq] at hgrid
  rcases Nat.lt_or_ge e (spare n) with hlt | hge
  · have hlow : q * 2 ^ e ≤ 2 ^ 53 * 2 ^ e := Nat.mul_le_mul_right _ hq.le
    have hpow : 2 ^ 53 * 2 ^ e ≤ 2 ^ 52 * 2 ^ spare n := two_pow_mul_le (by omega)
    have hn := two_pow_spare_le (n := n) (by omega)
    have hnear := hgrid (2 ^ 52)
    omega
  · have hnear := hgrid (q * 2 ^ (e - spare n))
    rwa [Nat.mul_assoc, ← Nat.pow_add, Nat.sub_add_cancel hge] at hnear

/-! ### Texts of digits -/

theorem splitSign_digits {t : Text} (h : ∀ c ∈ t, c.isDigit = true) : splitSign t = (false, t) := by
  unfold splitSign
  split
  · exact absurd (h '-' List.mem_cons_self) (by decide)
  · exact absurd (h '+' List.mem_cons_self) (by decide)
  · rfl

theorem read?_digits {t : Text} (hne : t ≠ []) (h : ∀ c ∈ t, c.isDigit = true) :
    read? t = some ⟨false, t, 0⟩ := by
  have htake : t.takeWhile Char.isDigit = t := List.takeWhile_eq_self_iff.mpr h
  have hdrop : t.dropWhile Char.isDigit = [] := List.dropWhile_eq_nil_iff.mpr h
  unfold read?
  rw [splitSign_digits h]
  dsimp only
  rw [htake, hdrop]
  simp [splitFraction, exponent?, hne]

theorem read?_plus_digits {t : Text} (hne : t ≠ []) (h : ∀ c ∈ t, c.isDigit = true) :
    read? ('+' :: t) = some ⟨false, t, 0⟩ := by
  rw [← read?_digits hne h]
  unfold read?
  rw [splitSign_digits h]
  rfl

/-- The number one, in units of 2 ^ -1074. -/
def one : Nat := 2 ^ 1074

theorem one_pos : 0 < one := pow_pos (by decide) 1074

theorem mul_two_pow_lt_iff (m j k : Nat) : m * 2 ^ k < Nat.pow 2 (j + k) ↔ m < 2 ^ j := by
  rw [Nat.pow_eq, Nat.pow_add]
  exact Nat.mul_lt_mul_right (Nat.two_pow_pos k)

theorem mul_one_lt_limit_iff (m : Nat) : m * one < limit ↔ m < 2 ^ 1024 := by
  unfold limit one
  exact mul_two_pow_lt_iff m 1024 1074

theorem nearest_mul (n k : Nat) :
    nearest (n * Nat.pow 10 (0 : Int).toNat * Nat.pow 2 k) (Nat.pow 10 (-0 : Int).toNat) =
      rounded n * 2 ^ k := by
  rw [Int.neg_zero, Int.toNat_zero, Nat.pow_eq, Nat.pow_eq, Nat.pow_zero, Nat.mul_one]
  exact rounded_mul_two_pow n k

theorem nearest_mul_one (n : Nat) :
    nearest (n * Nat.pow 10 (0 : Int).toNat * Nat.pow 2 1074) (Nat.pow 10 (-0 : Int).toNat) =
      rounded n * one := by
  simp only [nearest_mul, one]

theorem magnitude?_digits (t : Text) :
    magnitude? ⟨false, t, 0⟩ =
      if rounded (Nat.ofDigitChars 10 t 0) * one < limit
      then some (rounded (Nat.ofDigitChars 10 t 0) * one) else none := by
  have hpos : ¬ (400 : Int) < 0 := by decide
  have hlen : ¬ (0 : Int) + t.length < -400 := by omega
  have hzero : rounded 0 * one < limit := by
    rw [mul_one_lt_limit_iff, rounded_of_le (Nat.zero_le _)]
    exact pow_pos (by decide) 1024
  unfold magnitude?
  dsimp only
  rw [if_neg hpos, if_neg hlen, nearest_mul_one]
  split
  · next hz => rw [hz, if_pos hzero, rounded_of_le (Nat.zero_le _), Nat.zero_mul]
  · rfl

end Numeral

open Numeral

theorem Text.trim_digits {t : Text} (h : ∀ c ∈ t, c.isDigit = true) :
    trim t = t ∧ trim ('+' :: t) = '+' :: t := by
  have hblank : ∀ c ∈ t, isBlank c = false := by
    intro c hc
    exact isBlank_of_isAlphanum (by simp [Char.isAlphanum, h c hc])
  exact ⟨trim_eq_self hblank, trim_eq_self (List.forall_mem_cons.mpr ⟨by decide, hblank⟩)⟩

/-- Digits, after a plus sign or none, are read as the nearest double. -/
theorem number?_of_digits {t digits : Text} {n : Nat} (h : natural? digits = some n)
    (ht : t = digits ∨ t = '+' :: digits) :
    number? t = if rounded n * one < limit then some ((rounded n * one : Nat) : Int) else none := by
  obtain ⟨hne, hdigits, rfl⟩ := natural?_eq_some_iff.mp h
  have hread : read? t.trim = some ⟨false, digits, 0⟩ := by
    obtain ⟨htrim, htrim'⟩ := trim_digits hdigits
    rcases ht with rfl | rfl
    · rw [htrim, read?_digits hne hdigits]
    · rw [htrim', read?_plus_digits hne hdigits]
  rw [number?, hread, Option.bind_some, double?, magnitude?_digits]
  -- the bound has two thousand binary digits and must not be computed
  generalize rounded _ * one = units, limit = bound
  by_cases hfits : units < bound
  · rw [if_pos hfits, if_pos hfits]
    rfl
  · rw [if_neg hfits, if_neg hfits]
    rfl

theorem rounded_lt_of_lt_size {n : Nat} (h : n < UInt64.size) : rounded n < 2 ^ 1024 := by
  have hle := rounded_mono (b := 2 ^ 64) h.le
  have h64 : rounded (2 ^ 64) = 2 ^ 64 := by decide +kernel
  have hpow : (2 : Nat) ^ 64 < 2 ^ 1024 := pow_lt_pow_right₀ (by decide) (by decide)
  omega

/-- **A text that is read as an id** is a number, the double nearest to that id. -/
theorem number?_of_count? {t : Text} {n : Nat} (h : count? t = some n) :
    number? t = some ((rounded n * one : Nat) : Int) := by
  obtain ⟨hdigits, hsmall⟩ := Option.filter_eq_some_iff.mp h
  have hfits := (mul_one_lt_limit_iff _).mpr (rounded_lt_of_lt_size (of_decide_eq_true hsmall))
  split at hdigits
  · next rest => rw [number?_of_digits hdigits (.inr rfl), if_pos hfits]
  · rw [number?_of_digits hdigits (.inl rfl), if_pos hfits]

/-- Comparing doubles does not depend on the unit. -/
theorem compare_mul_one (m k : Nat) :
    compare ((m * one : Nat) : Int) ((k * one : Nat) : Int) = compare m k := by
  have hpos := one_pos
  rcases Nat.lt_trichotomy m k with h | h | h
  · have hcast := Int.ofNat_lt.mpr (Nat.mul_lt_mul_of_pos_right h hpos)
    rw [compare_lt_iff_lt.mpr h, compare_lt_iff_lt.mpr hcast]
  · rw [h, compare_eq_iff_eq.mpr rfl, compare_eq_iff_eq.mpr rfl]
  · have hcast := Int.ofNat_lt.mpr (Nat.mul_lt_mul_of_pos_right h hpos)
    rw [compare_gt_iff_gt.mpr h, compare_gt_iff_gt.mpr hcast]

end FlatDb
