import FlatDb.Proofs.Tables
import Mathlib.Data.List.Nodup

/-! # Judging rows

A condition is judged row by row, left to right and no further than needed, and rows are then picked by
their ids.

* `Condition.Suits`: the header has every column that a condition names.  This is what is checked
  (`check_eq_ok_iff`).
* `Condition.meaning` is the two-valued meaning of a condition, for which both sides of a connective are
  looked at.  `holds_eq_meaning`: **a condition that suits the header is judged on every row, and as it is
  meant**.
* `Table.picked` are the ids of the rows of which a condition is true.  If no id is used twice, a row is
  picked exactly if the condition is true of it (`mem_picked_iff_of_nodup`). -/

namespace FlatDb

open Text

/-! ### Columns that are there -/

theorem requireColumn_eq_ok_iff {header : List Text} {name : Text} {i : Nat} :
    requireColumn header name = .ok i ↔ columnIndex? header name = some i := by
  unfold requireColumn
  cases columnIndex? header name <;> simp

/-- A column is found exactly if the header has it. -/
theorem exists_requireColumn_iff {header : List Text} {name : Text} :
    (∃ i, requireColumn header name = .ok i) ↔ ∃ column ∈ header, sameName column name = true := by
  simp only [requireColumn_eq_ok_iff, ← Option.ne_none_iff_exists', ne_eq,
    Table.columnIndex?_eq_none_iff]
  simp

theorem exists_requireColumns_iff {header names : List Text} :
    (∃ is, requireColumns header names = .ok is) ↔
      ∀ name ∈ names, ∃ column ∈ header, sameName column name = true := by
  induction names with
  | nil => simp [requireColumns]
  | cons name more ih =>
      rw [List.forall_mem_cons, ← ih, ← exists_requireColumn_iff]
      constructor
      · rintro ⟨is, h⟩
        obtain ⟨i, hi, h⟩ := bind_eq_ok_iff.mp h
        obtain ⟨rest, hrest, -⟩ := bind_eq_ok_iff.mp h
        exact ⟨⟨i, hi⟩, ⟨rest, hrest⟩⟩
      · rintro ⟨⟨i, hi⟩, ⟨rest, hrest⟩⟩
        refine ⟨i :: rest, bind_eq_ok_iff.mpr ⟨i, hi, ?_⟩⟩
        exact bind_eq_ok_iff.mpr ⟨rest, hrest, rfl⟩

namespace Condition

variable {header : List Text} {c : Condition}

/-- The header has every column that the condition names. -/
def Suits (c : Condition) (header : List Text) : Prop :=
  ∀ name ∈ c.columns, ∃ column ∈ header, sameName column name = true

instance (c : Condition) (header : List Text) : Decidable (c.Suits header) :=
  inferInstanceAs (Decidable (∀ name ∈ c.columns, ∃ column ∈ header, sameName column name = true))

/-- A condition passes the check exactly if it suits the header. -/
theorem check_eq_ok_iff : c.check header = .ok () ↔ c.Suits header := by
  unfold check Suits
  rw [map_eq_ok_iff, ← exists_requireColumns_iff]
  simp

theorem suits_both_iff {left right : Condition} :
    (both left right).Suits header ↔ left.Suits header ∧ right.Suits header := List.forall_mem_append

theorem suits_either_iff {left right : Condition} :
    (either left right).Suits header ↔ left.Suits header ∧ right.Suits header := List.forall_mem_append

/-! ### What a condition says -/

/-- Whether a condition is true of a row with the given cells.  A comparison with a column that the
header lacks is false. -/
def meaning (header cells : List Text) : Condition → Bool
  | compare column op value =>
    match columnIndex? header column with
    | some i => op.relates (cellAt cells i) value.cell
    | none => false
  | both left right => left.meaning header cells && right.meaning header cells
  | either left right => left.meaning header cells || right.meaning header cells

/-- **A condition that suits the header** can be judged on every row, and that it is judged no further
than needed makes no difference. -/
theorem holds_eq_meaning (h : c.Suits header) (cells : List Text) :
    c.holds header cells = .ok (c.meaning header cells) := by
  induction c with
  | compare column op value =>
      obtain ⟨i, hi⟩ := exists_requireColumn_iff.mpr (h column List.mem_cons_self)
      rw [holds, hi, meaning, requireColumn_eq_ok_iff.mp hi]
      rfl
  | both left right ihl ihr =>
      obtain ⟨hl, hr⟩ := suits_both_iff.mp h
      rw [holds, ihl hl, ihr hr, meaning]
      cases left.meaning header cells <;> rfl
  | either left right ihl ihr =>
      obtain ⟨hl, hr⟩ := suits_either_iff.mp h
      rw [holds, ihl hl, ihr hr, meaning]
      cases left.meaning header cells <;> rfl

/-- The rows that satisfy a condition are those of which it is true. -/
theorem matching_eq_filter (h : c.Suits header) (rows : List Row) :
    c.matching header rows = .ok (rows.filter fun r => c.meaning header r.cells) := by
  induction rows with
  | nil => rfl
  | cons r more ih =>
      rw [matching, holds_eq_meaning h, ih, List.filter_cons]
      cases c.meaning header r.cells <;> rfl

end Condition

/-! ### Picking rows -/

namespace Table

variable {t : Table} {c : Condition}

/-- The ids of the rows of which a condition is true. -/
def picked (t : Table) (c : Condition) : List Nat :=
  (t.rows.filter fun r => c.meaning t.columns r.cells).map Row.id

theorem matchingIds_eq_ok_iff {ids : List Nat} :
    t.matchingIds c = .ok ids ↔ c.Suits t.columns ∧ ids = t.picked c := by
  unfold matchingIds
  rw [bind_eq_ok_iff]
  constructor
  · rintro ⟨⟨⟩, hcheck, h⟩
    have hs := Condition.check_eq_ok_iff.mp hcheck
    rw [Condition.matching_eq_filter hs] at h
    cases h
    exact ⟨hs, rfl⟩
  · rintro ⟨hs, rfl⟩
    refine ⟨(), Condition.check_eq_ok_iff.mpr hs, ?_⟩
    rw [Condition.matching_eq_filter hs]
    rfl

theorem mem_picked_iff {id : Nat} :
    id ∈ t.picked c ↔ ∃ r ∈ t.rows, c.meaning t.columns r.cells = true ∧ r.id = id := by
  simp [picked, and_assoc]

/-- No row is picked exactly if the condition is false of all of them. -/
theorem picked_eq_nil_iff (hs : c.Suits t.columns) :
    t.picked c = [] ↔ ∀ r ∈ t.rows, c.holds t.columns r.cells = .ok false := by
  simp [picked, List.filter_eq_nil_iff, Condition.holds_eq_meaning hs]

/-- Where no id is used twice, the rows that are picked are those of which the condition is true. -/
theorem mem_picked_iff_of_nodup (hn : (t.rows.map Row.id).Nodup) {r : Row} (hr : r ∈ t.rows) :
    r.id ∈ t.picked c ↔ c.meaning t.columns r.cells = true := by
  rw [mem_picked_iff]
  constructor
  · rintro ⟨s, hs, hmeaning, hid⟩
    rwa [← List.inj_on_of_nodup_map hn hs hr hid]
  · exact fun hmeaning => ⟨r, hr, hmeaning, rfl⟩

end Table

end FlatDb
