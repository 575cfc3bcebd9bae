import FlatDb.Proofs.Rounding
import FlatDb.Proofs.Selecting

/-! # Comparing ids

Ids are written into cells, and a cell is compared with a literal as a text or, by the operators of order, as
a number.  Numbers are doubles, so ids from 2 ^ 53 on may be rounded before they are compared.

* `Operator.compares` is the comparison of whole numbers that an operator stands for.
* `relates_of_number?`: the operators of order compare the doubles nearest to two ids.
* `compares_rounded`: that is the comparison of the ids, unless different ids are rounded to one double.
* `ids_compared_as_doubles`: **how ids are compared**, and which rows a condition `id < k` selects.
  `not_relates_less_successor` are two ids of which the smaller one does not count as smaller. -/

namespace FlatDb

open Text Numeral

namespace Operator

/-- The comparison of whole numbers that an operator stands for; `LIKE` stands for none. -/
def compares (op : Operator) (a b : Nat) : Bool :=
  match op with
  | equal => a == b
  | notEqual => a != b
  | greater => decide (b < a)
  | greaterOrEqual => decide (b ≤ a)
  | less => decide (a < b)
  | lessOrEqual => decide (a ≤ b)
  | like => false

/-- The operators that compare by order. -/
def isOrder : Operator → Bool
  | greater | greaterOrEqual | less | lessOrEqual => true
  | equal | notEqual | like => false

variable {op : Operator} {cell literal : Text} {a b : Nat}

/-- Ids are equal exactly if they are written alike. -/
theorem relates_ofNat (hlike : op ≠ like) (horder : op.isOrder = false) (a b : Nat) :
    op.relates (Text.ofNat a) (Text.ofNat b) = op.compares a b := by
  rw [Bool.eq_iff_iff]
  cases op with
  | equal => simp [relates, compares, ofNat_inj]
  | notEqual => simp [relates, compares, ofNat_inj]
  | like => exact absurd rfl hlike
  | _ => cases horder

/-- Where both sides are numbers, the operators of order compare the numbers. -/
theorem relates_of_number? (horder : op.isOrder = true)
    (ha : number? cell = some ((rounded a * one : Nat) : Int))
    (hb : number? literal = some ((rounded b * one : Nat) : Int)) :
    op.relates cell literal = op.compares (rounded a) (rounded b) := by
  have hcompare : compareCells cell literal = compare (rounded a) (rounded b) := by
    rw [compareCells, ha, hb]
    exact compare_mul_one _ _
  rw [Bool.eq_iff_iff]
  cases op with
  | greater => simp [relates, compares, hcompare, compare_gt_iff_gt]
  | greaterOrEqual => simp [relates, compares, hcompare, compare_ge_iff_ge]
  | less => simp [relates, compares, hcompare, compare_lt_iff_lt]
  | lessOrEqual => simp [relates, compares, hcompare, compare_le_iff_le]
  | _ => cases horder

/-- Rounding makes no difference to a comparison, unless it makes different numbers equal. -/
theorem compares_rounded (h : rounded a = rounded b → a = b) (op : Operator) :
    op.compares (rounded a) (rounded b) = op.compares a b := by
  have hab : rounded a < rounded b ↔ a < b := by
    constructor
    · intro hlt
      by_contra hge
      exact absurd (rounded_mono (Nat.le_of_not_lt hge)) (Nat.not_le_of_lt hlt)
    · intro hlt
      exact Nat.lt_of_le_of_ne (rounded_mono hlt.le) fun he => hlt.ne (h he)
  have heq : rounded a = rounded b ↔ a = b := ⟨h, congrArg rounded⟩
  rw [Bool.eq_iff_iff]
  cases op with
  | like => rfl
  | _ =>
      simp only [compares, beq_iff_eq, bne_iff_ne, decide_eq_true_eq]
      omega

end Operator

/-- A number below 2 ^ 53 shares its double with no other one. -/
theorem eq_of_rounded_eq {a b : Nat} (ha : a < 2 ^ 53) (h : rounded a = rounded b) : a = b := by
  rw [rounded_of_le ha.le] at h
  rcases Nat.lt_or_ge (2 ^ 53) b with hb | hb
  · have hmono := rounded_mono hb.le
    rw [rounded_of_le Nat.le.refl] at hmono
    omega
  · rw [h, rounded_of_le hb]

/-- Ids are compared as the doubles nearest to them. -/
theorem relates_ids {op : Operator} (hop : op.isOrder = true) {a b : Nat} (ha : a < UInt64.size)
    (hb : b < UInt64.size) :
    op.relates (ofNat a) (ofNat b) = op.compares (rounded a) (rounded b) :=
  Operator.relates_of_number? hop (number?_of_count? (count?_ofNat ha)) (number?_of_count? (count?_ofNat hb))

/-- Ids below 2 ^ 53, and ids that do not share a double, are compared as whole numbers. -/
theorem relates_ids_of_apart {op : Operator} (hlike : op ≠ .like) {a b : Nat} (ha : a < UInt64.size)
    (hb : b < UInt64.size) (hapart : a < 2 ^ 53 ∨ b < 2 ^ 53 ∨ a = b ∨ rounded a ≠ rounded b) :
    op.relates (ofNat a) (ofNat b) = op.compares a b := by
  cases hop : op.isOrder with
  | false => exact Operator.relates_ofNat hlike hop a b
  | true =>
      rw [relates_ids hop ha hb]
      refine Operator.compares_rounded (fun he => ?_) op
      rcases hapart with h | h | h | h
      · exact eq_of_rounded_eq h he
      · exact (eq_of_rounded_eq h he.symm).symm
      · exact h
      · exact absurd he h

/-! ### The id column -/

namespace Table

variable {t : Table} {column : Text} {value : Literal} {k : Nat}

/-- A condition on the id is judged by the first cell of a row. -/
theorem Readable.selectedRows_id (h : t.Readable) (hc : sameName column idColumn = true) (op : Operator)
    (value : Literal) :
    t.selectedRows (some (.compare column op value)) =
      .ok (t.rows.filter fun r => op.relates (r.cells.headD []) value.cell) := by
  have hcell (cells : List Text) : cellAt cells 0 = cells.headD [] := by
    rw [cellAt, ← List.head?_eq_getElem?, List.headD_eq_head?_getD]
  rw [selectedRows_compare (h.columnIndex?_id hc)]
  simp only [hcell]

/-- The rows whose id is below a number are selected as doubles. -/
theorem Readable.selectedRows_id_less (h : t.Readable) (hc : sameName column idColumn = true)
    (hv : value.cell = ofNat k) (hk : rounded k < 2 ^ 1024) :
    t.selectedRows (some (.compare column .less value)) =
      .ok (t.rows.filter fun r => rounded r.id < rounded k) := by
  have hnumber : number? value.cell = some ((rounded k * one : Nat) : Int) := by
    rw [hv, number?_of_digits (natural?_ofNat k) (.inl rfl), if_pos ((mul_one_lt_limit_iff _).mpr hk)]
  rw [h.selectedRows_id hc]
  refine congrArg Except.ok (List.filter_congr fun r hr => ?_)
  exact Operator.relates_of_number? rfl (number?_of_count? (h.idCell r hr)) hnumber

/-- Up to 2 ^ 53 these are the rows whose id is below the number. -/
theorem Readable.selectedRows_id_less_of_le (h : t.Readable) (hc : sameName column idColumn = true)
    (hv : value.cell = ofNat k) (hk : k ≤ 2 ^ 53) :
    t.selectedRows (some (.compare column .less value)) = .ok (t.rows.filter fun r => r.id < k) := by
  have hrounded := rounded_of_le hk
  have hpow : (2 : Nat) ^ 53 < 2 ^ 1024 := pow_lt_pow_right₀ (by decide) (by decide)
  rw [h.selectedRows_id_less hc hv (by omega)]
  refine congrArg Except.ok (List.filter_congr fun r _ => ?_)
  rw [hrounded, decide_eq_decide]
  constructor
  · intro hlt
    by_contra hge
    have hmono := rounded_mono (Nat.le_of_not_lt hge)
    omega
  · intro hlt
    rwa [rounded_of_le (hlt.le.trans hk)]

/-- A number that is larger than every double is a text. -/
theorem Readable.selectedRows_id_less_of_large (h : t.Readable) (hc : sameName column idColumn = true)
    (hv : value.cell = ofNat k) (hk : 2 ^ 1024 ≤ rounded k) :
    t.selectedRows (some (.compare column .less value)) =
      .ok (t.rows.filter fun r => compareTexts (r.cells.headD []) (ofNat k) == .lt) := by
  have hnone : number? value.cell = none := by
    rw [hv, number?_of_digits (natural?_ofNat k) (.inl rfl), if_neg]
    rw [mul_one_lt_limit_iff]
    exact Nat.not_lt_of_le hk
  rw [h.selectedRows_id hc]
  refine congrArg Except.ok (List.filter_congr fun r _ => ?_)
  have hcells : compareCells (r.cells.headD []) value.cell =
      compareTexts (r.cells.headD []) value.cell := by
    rw [compareCells, hnone]
    cases number? (r.cells.headD []) <;> rfl
  rw [Operator.relates, hcells, hv]

end Table

/-- **How ids are compared.**  They are equal exactly if their texts are; the operators of order compare the
doubles nearest to them.  Rounding to doubles never turns an order around, so this is the comparison of the
ids themselves, unless both are 2 ^ 53 or more and different ids are rounded to the same double.

A condition `id < k` on a table that was read selects the rows whose id is, as a double, below `k`, which up
to 2 ^ 53 are the rows whose id is below `k`.  Only a `k` that is larger than every double is compared as a
text. -/
theorem ids_compared_as_doubles :
    (∀ a b, a < UInt64.size → b < UInt64.size →
      (∀ op : Operator, op ≠ .like → op.isOrder = false →
        op.relates (ofNat a) (ofNat b) = op.compares a b) ∧
      (∀ op : Operator, op.isOrder = true →
        op.relates (ofNat a) (ofNat b) = op.compares (rounded a) (rounded b)) ∧
      (a < 2 ^ 53 ∨ b < 2 ^ 53 ∨ a = b ∨ rounded a ≠ rounded b → ∀ op : Operator, op ≠ .like →
        op.relates (ofNat a) (ofNat b) = op.compares a b)) ∧
    (∀ a b, a ≤ b → rounded a ≤ rounded b) ∧
    (∀ a, IsDouble (rounded a) ∧
      ∀ m, IsDouble m → ((rounded a : Int) - a).natAbs ≤ ((m : Int) - a).natAbs) ∧
    ∀ contents t, Table.decode contents = .ok t →
      ∀ column value k, sameName column idColumn = true → Literal.cell value = ofNat k →
        (rounded k < 2 ^ 1024 → t.selectedRows (some (.compare column .less value)) =
          .ok (t.rows.filter fun r => rounded r.id < rounded k)) ∧
        (k ≤ 2 ^ 53 → t.selectedRows (some (.compare column .less value)) =
          .ok (t.rows.filter fun r => r.id < k)) ∧
        (2 ^ 1024 ≤ rounded k → t.selectedRows (some (.compare column .less value)) =
          .ok (t.rows.filter fun r => compareTexts (r.cells.headD []) (ofNat k) == .lt)) := by
  refine ⟨fun a b ha hb => ?_, fun a b => rounded_mono, fun a => ⟨isDouble_rounded a, fun m => rounded_near a⟩,
    fun contents t ht column value k hc hv => ?_⟩
  · exact ⟨fun op hlike hop => Operator.relates_ofNat hlike hop a b, fun op hop => relates_ids hop ha hb,
      fun hapart op hlike => relates_ids_of_apart hlike ha hb hapart⟩
  · have hreadable := Table.readable_of_decode ht
    exact ⟨hreadable.selectedRows_id_less hc hv, hreadable.selectedRows_id_less_of_le hc hv,
      hreadable.selectedRows_id_less_of_large hc hv⟩

/-- A file with the first ids that are not all doubles. -/
def largeIdsFile : Text :=
  "ID\tx\n9007199254740991\ta\n+9007199254740992\tb\n9007199254740993\tc\n".toList

/-- The table in that file. -/
def largeIds : Table :=
  ⟨["ID".toList, "x".toList],
    [⟨9007199254740991, ["9007199254740991".toList, "a".toList]⟩,
      ⟨9007199254740992, ["+9007199254740992".toList, "b".toList]⟩,
      ⟨9007199254740993, ["9007199254740993".toList, "c".toList]⟩]⟩

theorem ids_compared_as_doubles_largeIds :
    9007199254740991 < UInt64.size ∧ 9007199254740993 < UInt64.size ∧
      Operator.less.relates (ofNat 9007199254740991) (ofNat 9007199254740993) = true ∧
      Operator.notEqual.relates (ofNat 9007199254740992) (ofNat 9007199254740993) = true ∧
      Table.decode largeIdsFile = .ok largeIds ∧
      largeIds.selectedRows (some (.compare "id".toList .less (.number "9007199254740993".toList))) =
        .ok (largeIds.rows.take 1) ∧
      largeIds.selectedRows (some (.compare "id".toList .less (.number "9007199254740994".toList))) =
        .ok largeIds.rows := by
  obtain ⟨hcompared, -, -, hselected⟩ := ids_compared_as_doubles
  have hdecode : Table.decode largeIdsFile = .ok largeIds := by decide +kernel
  have hbelow (k : Nat) (t : Text) (ht : t = ofNat k) (hk : rounded k < 2 ^ 1024) :=
    (hselected _ _ hdecode "id".toList (.number t) k (by decide) ht).1 hk
  have hodd : (largeIds.rows.filter fun r => rounded r.id < rounded 9007199254740993) =
      largeIds.rows.take 1 := by decide +kernel
  have heven : (largeIds.rows.filter fun r => rounded r.id < rounded 9007199254740994) =
      largeIds.rows := by decide +kernel
  refine ⟨by decide, by decide, ?_, ?_, hdecode, ?_, ?_⟩
  · exact ((hcompared _ _ (by decide) (by decide)).2.2 (.inl (by decide)) .less (by decide)).trans
      (by decide)
  · exact ((hcompared 9007199254740992 9007199254740993 (by decide) (by decide)).1 .notEqual (by decide)
      rfl).trans (by decide)
  · rw [hbelow 9007199254740993 _ (by decide +kernel) (rounded_lt_of_lt_size (by decide)), hodd]
  · rw [hbelow 9007199254740994 _ (by decide +kernel) (rounded_lt_of_lt_size (by decide)), heven]

/-- The first whole number that is no double counts as equal to the one before it, and a number beyond all
doubles is a text that begins with a smaller digit. -/
theorem not_relates_less_successor :
    Operator.less.relates (ofNat 9007199254740992) (ofNat 9007199254740993) = false ∧
      Operator.less.relates (ofNat 2) (ofNat (Nat.pow 10 309)) = false := by
  decide +kernel

end FlatDb
