import FlatDb.Proofs.Bytes
import FlatDb.Proofs.Comparing

/-! # The order of cells

A cell and a literal are compared as numbers if both are finite doubles, and otherwise as texts, byte by byte.
Which of the two orders applies depends on the pair; the doubles alone are not even ordered, as there is NaN.

* `Double` has every double that a text can denote, in the order of IEEE (`Double.compare?`), and
  `Double.read?` is the reader; `finite?_eq`: the finite ones are what `number?` reads.
* `compare_toBytes`: the order of texts by code point is **the order of their UTF-8 forms**.
* `order?_eq`: **any two cells are ordered**, and `compareCells` is their order;
  `compareCells_swap`, `compareCells_self`: it is turned around with the cells.
* `order_coherent`: **how the operators of order go together**, and that a condition and its opposite
  divide the rows of a table among them. -/

namespace FlatDb

open Text Numeral

/-! ### Doubles -/

/-- A double, as far as comparisons can tell: the two zeros are one.  A finite one is a whole multiple of
2 ^ -1074. -/
inductive Double where
  | finite (units : Int)
  | infinite (negative : Bool)
  | notANumber
deriving DecidableEq, Repr

namespace Double

/-- The order of doubles.  NaN is not ordered, not even with itself. -/
def compare? : Double → Double → Option Ordering
  | notANumber, _ => none
  | _, notANumber => none
  | finite x, finite y => some (compare x y)
  | finite _, infinite negative => some (if negative then .gt else .lt)
  | infinite negative, finite _ => some (if negative then .lt else .gt)
  | infinite negative, infinite negative' => some (compare negative' negative)

/-- The finite doubles. -/
def isFinite : Double → Bool
  | finite _ => true
  | infinite _ => false
  | notANumber => false

/-- The double nearest to a numeral, which may be infinite. -/
def ofNumeral (n : Numeral) : Double :=
  match n.double? with
  | some units => finite units
  | none => infinite n.negative

/-- Reads a whole text as a double: a numeral, or the name of an infinity or of NaN in any case, after a sign
or without one. -/
def read? (t : Text) : Option Double :=
  match Numeral.read? t with
  | some n => some (ofNumeral n)
  | none =>
    let (negative, name) := splitSign t
    if sameName name "inf".toList ∨ sameName name "infinity".toList then some (infinite negative)
    else if sameName name "nan".toList then some notANumber
    else none

/-- The finite double that a text denotes, ignoring the white space around it. -/
def finite? (t : Text) : Option Double := (read? t.trim).filter isFinite

/-- What is left of the doubles are the numbers. -/
theorem finite?_eq (t : Text) : finite? t = (number? t).map finite := by
  rw [finite?, number?, read?]
  cases Numeral.read? t.trim with
  | some n =>
      rw [Option.bind_some]
      dsimp only
      rw [ofNumeral]
      cases n.double? <;> rfl
  | none =>
      rw [Option.bind_none, Option.map_none]
      dsimp only
      split_ifs <;> rfl

end Double

/-! ### Texts -/

namespace Text

/-- Two lists of bytes differ, and at the first difference the first one has the lesser byte. -/
def Precedes : List UInt8 → List UInt8 → Prop
  | x :: xs, y :: ys => x < y ∨ x = y ∧ Precedes xs ys
  | _, _ => False

theorem precedes_cons_ofNat {x y : Nat} (hx : x < 256) (hy : y < 256) (xs ys : List UInt8) :
    Precedes (.ofNat x :: xs) (.ofNat y :: ys) ↔ x < y ∨ x = y ∧ Precedes xs ys := by
  rw [Precedes, UInt8.lt_iff_toNat_lt, ← UInt8.toNat_inj, UInt8.toNat_ofNat_of_lt' hx,
    UInt8.toNat_ofNat_of_lt' hy]

theorem compare_cons_self (x : UInt8) (xs ys : List UInt8) :
    compare (x :: xs) (x :: ys) = compare xs ys := by
  rw [List.compare_eq_compareLex, List.compareLex_cons_cons, Std.compare_self]
  rfl

theorem compare_append (xs ys zs : List UInt8) : compare (xs ++ ys) (xs ++ zs) = compare ys zs := by
  induction xs with
  | nil => rfl
  | cons x xs ih => rw [List.cons_append, List.cons_append, compare_cons_self, ih]

/-- What follows the first difference does not count. -/
theorem Precedes.compare_eq_lt {xs ys : List UInt8} (h : Precedes xs ys) (s t : List UInt8) :
    compare (xs ++ s) (ys ++ t) = .lt := by
  induction xs generalizing ys with
  | nil => cases h
  | cons x xs ih =>
      cases ys with
      | nil => cases h
      | cons y ys =>
          rw [List.cons_append, List.cons_append]
          rcases h with hlt | ⟨rfl, hmore⟩
          · rw [List.compare_eq_compareLex, List.compareLex_cons_cons, Std.compare_eq_lt.mpr hlt]
            rfl
          · rw [compare_cons_self]
            exact ih hmore

/-- The lesser character has the lesser bytes.  Longer forms begin with larger bytes; of two forms of the same
length the digits to the base 64 are compared, highest first. -/
theorem precedes_utf8 {a b : Char} (h : a.toNat < b.toNat) :
    Precedes (String.utf8EncodeChar a) (String.utf8EncodeChar b) := by
  have hb : b.toNat < 1114112 := by
    rcases b.valid with hsmall | ⟨-, hlarge⟩
    · exact Nat.lt_trans hsmall (by decide)
    · exact hlarge
  change a.val.toNat < b.val.toNat at h
  change b.val.toNat < 1114112 at hb
  unfold String.utf8EncodeChar
  dsimp only
  generalize a.val.toNat = v, b.val.toNat = w at h hb ⊢
  have hlow : v / 64 < w / 64 ∨ v / 64 = w / 64 ∧ v % 64 < w % 64 := by omega
  have hmiddle : v / 64 < w / 64 →
      v / 4096 < w / 4096 ∨ v / 4096 = w / 4096 ∧ v / 64 % 64 < w / 64 % 64 := by omega
  have hhigh : v / 4096 < w / 4096 →
      v / 262144 < w / 262144 ∨ v / 262144 = w / 262144 ∧ v / 4096 % 64 < w / 4096 % 64 := by omega
  have htop : v / 262144 % 8 = v / 262144 ∧ w / 262144 % 8 = w / 262144 := by omega
  split_ifs <;> simp (disch := omega) only [precedes_cons_ofNat] <;> omega

theorem compare_utf8 (a b : Text) :
    compare (a.flatMap String.utf8EncodeChar) (b.flatMap String.utf8EncodeChar) = compareTexts a b := by
  have hne (c : Char) : ∃ x xs, String.utf8EncodeChar c = x :: xs :=
    List.exists_cons_of_ne_nil String.utf8EncodeChar_ne_nil
  induction a generalizing b with
  | nil =>
      cases b with
      | nil => rfl
      | cons y b =>
          obtain ⟨x, xs, hx⟩ := hne y
          rw [List.flatMap_cons, hx]
          rfl
  | cons x a ih =>
      cases b with
      | nil =>
          obtain ⟨y, ys, hy⟩ := hne x
          rw [List.flatMap_cons, hy]
          rfl
      | cons y b =>
          rw [List.flatMap_cons, List.flatMap_cons, compareTexts]
          split_ifs with hlt hgt
          · exact (precedes_utf8 hlt).compare_eq_lt _ _
          · rw [Std.OrientedCmp.gt_iff_lt]
            exact (precedes_utf8 hgt).compare_eq_lt _ _
          · have hxy : x = y := Char.toNat_inj.mp (by omega)
            rw [hxy, compare_append, ih b]

/-- **The order of texts** is the order of their UTF-8 forms. -/
theorem compare_toBytes (a b : Text) :
    compare (toBytes a).data.toList (toBytes b).data.toList = compareTexts a b := by
  rw [toList_toBytes, toList_toBytes, compare_utf8]

theorem compareTexts_swap (a b : Text) : compareTexts b a = (compareTexts a b).swap := by
  rw [← compare_utf8, ← compare_utf8]
  exact Std.OrientedOrd.eq_swap

theorem compareTexts_self (a : Text) : compareTexts a a = .eq := by
  rw [← compare_utf8]
  exact Std.compare_self

end Text

/-! ### Cells -/

/-- The order of two cells, if there is one: that of two finite doubles, else that of the UTF-8 forms. -/
def order? (a b : Text) : Option Ordering :=
  match Double.finite? a, Double.finite? b with
  | some x, some y => x.compare? y
  | _, _ => some (compare (toBytes a).data.toList (toBytes b).data.toList)

/-- **Any two cells are ordered.**  NaN is no finite double, and so it is never compared as one. -/
theorem order?_eq (a b : Text) : order? a b = some (compareCells a b) := by
  rw [order?, compareCells, Double.finite?_eq, Double.finite?_eq, compare_toBytes]
  cases number? a <;> cases number? b <;> rfl

theorem compareCells_swap (a b : Text) : compareCells b a = (compareCells a b).swap := by
  rw [compareCells, compareCells, compareTexts_swap a b]
  cases number? a with
  | none => cases number? b <;> rfl
  | some x =>
      cases number? b with
      | none => rfl
      | some y => exact Std.OrientedOrd.eq_swap

theorem compareCells_self (a : Text) : compareCells a a = .eq := by
  rw [compareCells, compareTexts_self]
  cases number? a with
  | none => rfl
  | some x => exact Std.compare_self

/-- Which order applies depends on both cells, and so the order may run in circles. -/
example : compareCells "9".toList "10".toList = .lt ∧ compareCells "10".toList "1a".toList = .lt ∧
    compareCells "1a".toList "9".toList = .lt := by
  decide +kernel

/-! ### Operators -/

namespace Operator

/-- Whether an operator of order accepts what two cells compare to, if they compare at all. -/
def accepts (op : Operator) (o : Option Ordering) : Bool :=
  match op with
  | greater => o == some .gt
  | greaterOrEqual => o == some .gt || o == some .eq
  | less => o == some .lt
  | lessOrEqual => o == some .lt || o == some .eq
  | equal | notEqual | like => false

theorem relates_eq_accepts {op : Operator} (h : op.isOrder = true) (cell literal : Text) :
    op.relates cell literal = op.accepts (order? cell literal) := by
  rw [order?_eq]
  cases op with
  | equal | notEqual | like => cases h
  | _ =>
      rw [relates, accepts]
      cases compareCells cell literal <;> rfl

/-- The operator with its sides exchanged. -/
def converse : Operator → Operator
  | greater => less
  | greaterOrEqual => lessOrEqual
  | less => greater
  | lessOrEqual => greaterOrEqual
  | op => op

/-- The operator that holds where another one does not. -/
def opposite : Operator → Operator
  | equal => notEqual
  | notEqual => equal
  | greater => lessOrEqual
  | greaterOrEqual => less
  | less => greaterOrEqual
  | lessOrEqual => greater
  | like => like

theorem relates_converse (op : Operator) (h : op ≠ like) (cell literal : Text) :
    op.converse.relates literal cell = op.relates cell literal := by
  cases op with
  | like => exact absurd rfl h
  | equal => exact BEq.comm
  | notEqual => exact bne_comm
  | _ =>
      rw [converse, relates, relates, compareCells_swap cell literal]
      cases compareCells cell literal <;> rfl

theorem relates_opposite (op : Operator) (h : op ≠ like) (cell literal : Text) :
    op.opposite.relates cell literal = !op.relates cell literal := by
  cases op with
  | like => exact absurd rfl h
  | _ => simp [opposite, relates, bne]

end Operator

/-! ### Rows -/

namespace Table

variable {t : Table} {column : Text}

/-- A condition on one column and its opposite **divide the rows among them**. -/
theorem selectedRows_opposite (t : Table) (h : lacks t.columns column = false) (op : Operator)
    (hop : op ≠ .like) (value : Literal) :
    ∃ chosen others, t.selectedRows (some (.compare column op value)) = .ok chosen ∧
      t.selectedRows (some (.compare column op.opposite value)) = .ok others ∧
      (chosen ++ others).Perm t.rows ∧ chosen.Disjoint others := by
  have hsome : columnIndex? t.columns column = some (position t.columns column) :=
    List.findIdx?_eq_some_of_exists (lacks_eq_false_iff.mp h)
  refine ⟨_, _, selectedRows_compare hsome op value, selectedRows_compare hsome op.opposite value, ?_, ?_⟩
  · simp only [Operator.relates_opposite op hop]
    exact List.filter_append_perm _ t.rows
  · intro r hr hr'
    have hyes := (List.mem_filter.mp hr).2
    have hno := (List.mem_filter.mp hr').2
    rw [Operator.relates_opposite op hop, hyes] at hno
    cases hno

/-- What is shown of the rows is divided as the rows are. -/
theorem select_opposite {items : Items} {all : ResultSet} (hall : t.select items none = .ok all)
    (h : lacks t.columns column = false) (op : Operator) (hop : op ≠ .like) (value : Literal) :
    ∃ chosen others, t.select items (some (.compare column op value)) = .ok ⟨all.columns, chosen⟩ ∧
      t.select items (some (.compare column op.opposite value)) = .ok ⟨all.columns, others⟩ ∧
      (chosen ++ others).Perm all.rows := by
  obtain ⟨chosen, others, hchosen, hothers, hperm, -⟩ := t.selectedRows_opposite h op hop value
  unfold select at hall ⊢
  cases hpositions : t.positions items with
  | error why =>
      rw [hpositions] at hall
      cases hall
  | ok positions =>
      rw [hpositions] at hall
      cases hall
      refine ⟨chosen.map fun r => project positions r.cells, others.map fun r => project positions r.cells,
        ?_, ?_, ?_⟩
      · rw [hchosen]
        rfl
      · rw [hothers]
        rfl
      · rw [← List.map_append]
        exact hperm.map _

end Table

/-- **The operators of order go together.**  Any two cells are ordered: the first is less, or it is greater, or
it is neither and both weak operators hold.  Each weak operator is the negation of the strict one the other
way, exchanging the sides exchanges the operators, and cells that are equal are also ordered as equal.

So the rows with `column < value` and those with `column >= value` are all rows, each once, and so is what is
shown of them. -/
theorem order_coherent :
    (∀ x y : Text,
      order? x y = some (compareCells x y) ∧
      (∀ op : Operator, op.isOrder = true → op.relates x y = op.accepts (order? x y)) ∧
      [Operator.less.relates x y, Operator.greater.relates x y,
        Operator.lessOrEqual.relates x y && Operator.greaterOrEqual.relates x y].count true = 1 ∧
      (Operator.lessOrEqual.relates x y = !Operator.greater.relates x y) ∧
      (Operator.greaterOrEqual.relates x y = !Operator.less.relates x y) ∧
      Operator.less.relates x y = Operator.greater.relates y x ∧
      Operator.lessOrEqual.relates x y = Operator.greaterOrEqual.relates y x ∧
      (Operator.equal.relates x y = true →
        Operator.lessOrEqual.relates x y = true ∧ Operator.greaterOrEqual.relates x y = true)) ∧
    ∀ (t : Table) (column : Text) (value : Literal), lacks t.columns column = false →
      (∃ below others, t.selectedRows (some (.compare column .less value)) = .ok below ∧
        t.selectedRows (some (.compare column .greaterOrEqual value)) = .ok others ∧
        (below ++ others).Perm t.rows ∧ below.Disjoint others) ∧
      ∀ items all, t.select items none = .ok all →
        ∃ below others, t.select items (some (.compare column .less value)) = .ok ⟨all.columns, below⟩ ∧
          t.select items (some (.compare column .greaterOrEqual value)) = .ok ⟨all.columns, others⟩ ∧
          (below ++ others).Perm all.rows := by
  refine ⟨fun x y => ?_, fun t column value h => ?_⟩
  · refine ⟨order?_eq x y, fun op hop => Operator.relates_eq_accepts hop x y, ?_,
      Operator.relates_opposite .greater (by decide) x y, Operator.relates_opposite .less (by decide) x y,
      (Operator.relates_converse .less (by decide) x y).symm,
      (Operator.relates_converse .lessOrEqual (by decide) x y).symm, fun heq => ?_⟩
    · simp only [Operator.relates]
      cases compareCells x y <;> rfl
    · obtain rfl : x = y := by simpa [Operator.relates] using heq
      simp only [Operator.relates, compareCells_self]
      decide
  · exact ⟨t.selectedRows_opposite h .less (by decide) value,
      fun items all hall => Table.select_opposite hall h .less (by decide) value⟩

/-- Cells of which some are finite numbers; the others are ordered as texts. -/
def spellings : Table :=
  ⟨["id".toList, "x".toList],
    [Row.new 1 ["9".toList], Row.new 2 [" 1e1 ".toList], Row.new 3 ["-inf".toList], Row.new 4 ["1e400".toList],
      Row.new 5 ["NaN".toList], Row.new 6 [[]]]⟩

theorem order_coherent_spellings :
    lacks spellings.columns "x".toList = false ∧
      (∃ below others,
        spellings.selectedRows (some (.compare "x".toList .less (.number "10".toList))) = .ok below ∧
        spellings.selectedRows (some (.compare "x".toList .greaterOrEqual (.number "10".toList))) =
          .ok others ∧
        (below ++ others).Perm spellings.rows ∧ below.Disjoint others) ∧
      spellings.select .all none = .ok ⟨spellings.columns, spellings.rows.map Row.cells⟩ ∧
      (∃ below others, spellings.select .all (some (.compare "x".toList .less (.number "10".toList))) =
          .ok ⟨spellings.columns, below⟩ ∧
        spellings.select .all (some (.compare "x".toList .greaterOrEqual (.number "10".toList))) =
          .ok ⟨spellings.columns, others⟩ ∧
        (below ++ others).Perm (spellings.rows.map Row.cells)) ∧
      Operator.equal.relates "NaN".toList "NaN".toList = true ∧
      Operator.lessOrEqual.relates "NaN".toList "NaN".toList = true := by
  have hcolumn : lacks spellings.columns "x".toList = false := by decide
  have hall : spellings.select .all none = .ok ⟨spellings.columns, spellings.rows.map Row.cells⟩ := by
    decide +kernel
  have hequal : Operator.equal.relates "NaN".toList "NaN".toList = true := by decide
  obtain ⟨hrelates, hrows⟩ := order_coherent
  obtain ⟨hselected, hshown⟩ := hrows spellings "x".toList (.number "10".toList) hcolumn
  obtain ⟨-, -, -, -, -, -, -, hweak⟩ := hrelates "NaN".toList "NaN".toList
  exact ⟨hcolumn, hselected, hall, hshown .all _ hall, hequal, (hweak hequal).1⟩

end FlatDb
