import FlatDb.Proofs.Checked.Tables
import FlatDb.Proofs.Selecting

/-! # Rearranged conditions

A condition is checked by looking up the list of all columns that it names, but a row is judged along the
tree, from left to right and no further than needed.  The two ways agree.

* `missing_of_holds_eq_error`: judging a row fails at most because of a column that is missing; not
  necessarily the leftmost one, since it may never be reached.
* `Condition.Rearranged` are two conditions of which one comes from the other by exchanging the sides of
  connectives, grouping them differently, or distributing one over the other.  They name the same columns
  (`mem_columns_iff`) and have the same meaning (`meaning_eq`).
* `judged_as_meant`: **a condition that passes the check is judged on every row as it is meant**, and any
  rearrangement of it just the same. -/

namespace FlatDb

open Text

namespace Condition

variable {header cells : List Text} {c c' : Condition}

/-! ### Columns that are missing -/

/-- A column that is named but missing, as the reason for an error. -/
def Missing (c : Condition) (header : List Text) (why : Error) : Prop :=
  ∃ name ∈ c.columns, lacks header name = true ∧ why = .columnNotFound name

theorem Missing.mono {c₁ c₂ : Condition} {why : Error} (h : c₁.Missing header why)
    (hsub : c₁.columns ⊆ c₂.columns) : c₂.Missing header why := by
  obtain ⟨name, hname, hlacks, hwhy⟩ := h
  exact ⟨name, hsub hname, hlacks, hwhy⟩

/-- Only a missing column keeps a row from being judged. -/
theorem missing_of_holds_eq_error {why : Error} (h : c.holds header cells = .error why) :
    c.Missing header why := by
  induction c with
  | compare column op value =>
      rcases bind_eq_error_iff.mp h with h | ⟨i, -, h⟩
      · rw [requireColumn_eq] at h
        split at h
        · next hlacks =>
            cases h
            exact ⟨column, List.mem_singleton_self column, hlacks, rfl⟩
        · cases h
      · cases h
  | both left right ihl ihr =>
      rcases bind_eq_error_iff.mp h with h | ⟨keep, -, h⟩
      · exact (ihl h).mono (List.subset_append_left _ _)
      · cases keep with
        | true => exact (ihr h).mono (List.subset_append_right _ _)
        | false => cases h
  | either left right ihl ihr =>
      rcases bind_eq_error_iff.mp h with h | ⟨keep, -, h⟩
      · exact (ihl h).mono (List.subset_append_left _ _)
      · cases keep with
        | true => cases h
        | false => exact (ihr h).mono (List.subset_append_right _ _)

/-! ### Rearranging -/

/-- Conditions that differ, anywhere in the tree, in the order of the two sides of a connective, in
grouping, or in that one connective is distributed over the other. -/
inductive Rearranged : Condition → Condition → Prop where
  | refl (c : Condition) : Rearranged c c
  | symm {a b : Condition} (h : Rearranged a b) : Rearranged b a
  | trans {a b c : Condition} (hab : Rearranged a b) (hbc : Rearranged b c) : Rearranged a c
  | both {a a' b b' : Condition} (ha : Rearranged a a') (hb : Rearranged b b') :
      Rearranged (.both a b) (.both a' b')
  | either {a a' b b' : Condition} (ha : Rearranged a a') (hb : Rearranged b b') :
      Rearranged (.either a b) (.either a' b')
  | bothComm (a b : Condition) : Rearranged (.both a b) (.both b a)
  | eitherComm (a b : Condition) : Rearranged (.either a b) (.either b a)
  | bothAssoc (a b c : Condition) : Rearranged (.both (.both a b) c) (.both a (.both b c))
  | eitherAssoc (a b c : Condition) : Rearranged (.either (.either a b) c) (.either a (.either b c))
  | bothEither (a b c : Condition) :
      Rearranged (.both a (.either b c)) (.either (.both a b) (.both a c))
  | eitherBoth (a b c : Condition) :
      Rearranged (.either a (.both b c)) (.both (.either a b) (.either a c))

namespace Rearranged

/-- Rearranging neither adds a column nor loses one, though it may name one more often. -/
theorem mem_columns_iff (h : Rearranged c c') (name : Text) : name ∈ c.columns ↔ name ∈ c'.columns := by
  induction h with
  | refl c => rfl
  | symm _ ih => exact ih.symm
  | trans _ _ ihab ihbc => exact ihab.trans ihbc
  | both _ _ iha ihb => simp only [columns, List.mem_append, iha, ihb]
  | either _ _ iha ihb => simp only [columns, List.mem_append, iha, ihb]
  | _ => simp only [columns, List.mem_append]; tauto

theorem suits_iff (h : Rearranged c c') : c.Suits header ↔ c'.Suits header := by
  simp only [Suits, h.mem_columns_iff]

/-- Rearranging keeps the meaning: the laws of two-valued logic. -/
theorem meaning_eq (h : Rearranged c c') : c.meaning header cells = c'.meaning header cells := by
  induction h with
  | refl c => rfl
  | symm _ ih => exact ih.symm
  | trans _ _ ihab ihbc => exact ihab.trans ihbc
  | both _ _ iha ihb => simp only [meaning, iha, ihb]
  | either _ _ iha ihb => simp only [meaning, iha, ihb]
  | bothComm a b => exact Bool.and_comm _ _
  | eitherComm a b => exact Bool.or_comm _ _
  | bothAssoc a b c => exact Bool.and_assoc _ _ _
  | eitherAssoc a b c => exact Bool.or_assoc _ _ _
  | bothEither a b c => exact Bool.and_or_distrib_left _ _ _
  | eitherBoth a b c => exact Bool.or_and_distrib_left _ _ _

/-- A rearranged condition is judged alike, if all its columns are there. -/
theorem holds_eq (h : Rearranged c c') (hs : c.Suits header) (cells : List Text) :
    c'.holds header cells = c.holds header cells := by
  rw [holds_eq_meaning hs, holds_eq_meaning (h.suits_iff.mp hs), h.meaning_eq]

end Rearranged

end Condition

/-! ### The check and the rows -/

/-- **A condition that passes the check** is judged on every row of a table that has a cell for each
column, and as it is meant: neither that the judging stops early nor any rearrangement of the condition
makes a difference, and the ids of the rows it is true of are found.

If it does not pass, the leftmost missing column is reported; and whether it passes or not, judging a row
never reaches for a cell that is not there, and fails only because of a missing column. -/
theorem judged_as_meant {t : Table} (h : ∀ r ∈ t.rows, r.cells.length = t.columns.length)
    (c : Condition) :
    (c.check t.columns = .ok () →
      (∀ r ∈ t.rows, c.holds t.columns r.cells = .ok (c.meaning t.columns r.cells)) ∧
      c.matching t.columns t.rows = .ok (t.rows.filter fun r => c.meaning t.columns r.cells) ∧
      t.matchingIds c = .ok (t.picked c) ∧
      ∀ c', c.Rearranged c' →
        c'.check t.columns = .ok () ∧
        (∀ r ∈ t.rows, c'.holds t.columns r.cells = c.holds t.columns r.cells) ∧
        t.matchingIds c' = t.matchingIds c) ∧
    (∀ why, c.check t.columns = .error why →
      ∃ missing, c.columns.find? (lacks t.columns) = some missing ∧ why = .columnNotFound missing) ∧
    (∀ r ∈ t.rows, ∀ why, c.holds t.columns r.cells = .error why → c.Missing t.columns why) ∧
    (∀ r ∈ t.rows, Checked.holds t.columns r.cells c = Checked.safe (c.holds t.columns r.cells)) ∧
    Checked.matching t.columns c t.rows = Checked.safe (c.matching t.columns t.rows) := by
  refine ⟨fun hcheck => ?_, fun why hwhy => ?_, fun r _ why hwhy => ?_, fun r hr => ?_, ?_⟩
  · have hs : c.Suits t.columns := Condition.check_eq_ok_iff.mp hcheck
    refine ⟨fun r _ => Condition.holds_eq_meaning hs r.cells, Condition.matching_eq_filter hs t.rows,
      Table.matchingIds_eq_ok_iff.mpr ⟨hs, rfl⟩, fun c' hc' => ?_⟩
    have hs' : c'.Suits t.columns := hc'.suits_iff.mp hs
    have hpicked : t.picked c = t.picked c' := by simp only [Table.picked, hc'.meaning_eq]
    refine ⟨Condition.check_eq_ok_iff.mpr hs', fun r _ => hc'.holds_eq hs r.cells, ?_⟩
    rw [Table.matchingIds_eq_ok_iff.mpr ⟨hs, rfl⟩, hpicked]
    exact Table.matchingIds_eq_ok_iff.mpr ⟨hs', rfl⟩
  · rw [Condition.check_eq] at hwhy
    cases hfind : c.columns.find? (lacks t.columns) with
    | some missing =>
        rw [hfind] at hwhy
        cases hwhy
        exact ⟨missing, rfl, rfl⟩
    | none =>
        rw [hfind] at hwhy
        cases hwhy
  · exact Condition.missing_of_holds_eq_error hwhy
  · exact Checked.holds_eq (h r hr) c
  · exact Checked.matching_eq h c

/-- Three students with their marks. -/
def marks : Table :=
  ⟨["id".toList, "name".toList, "mark".toList],
    [Row.new 1 ["Alice".toList, "90".toList], Row.new 4 ["Bob".toList, "30".toList],
      Row.new 7 ["Chris".toList, "75".toList]]⟩

/-- The mark is more than 50, compared as a number. -/
def hasPassed : Condition := .compare "mark".toList .greater (.number "50".toList)

/-- The name in any spelling of the column is this one. -/
def isNamed (name : String) : Condition := .compare "NAME".toList .equal (.quoted name.toList)

/-- Asks for a column that is not there. -/
def hasAge : Condition := .compare "age".toList .equal (.number "1".toList)

theorem judged_as_meant_marks :
    (∀ r ∈ marks.rows, r.cells.length = marks.columns.length) ∧
      (Condition.both hasPassed (.either (isNamed "Bob") (isNamed "Chris"))).check marks.columns = .ok () ∧
      marks.matchingIds (.both hasPassed (.either (isNamed "Bob") (isNamed "Chris"))) = .ok [7] ∧
      marks.matchingIds (.either (.both (isNamed "Bob") hasPassed) (.both hasPassed (isNamed "Chris"))) =
        .ok [7] ∧
      (Condition.either hasPassed hasAge).check marks.columns = .error (.columnNotFound "age".toList) ∧
      (Condition.either hasPassed hasAge).holds marks.columns ["1".toList, "Alice".toList, "90".toList] =
        .ok true ∧
      (Condition.either hasPassed hasAge).Missing marks.columns (.columnNotFound "age".toList) := by
  have hwidth : ∀ r ∈ marks.rows, r.cells.length = marks.columns.length := by decide
  have hcheck : (Condition.both hasPassed (.either (isNamed "Bob") (isNamed "Chris"))).check
      marks.columns = .ok () := by decide +kernel
  obtain ⟨-, -, hids, hrearranged⟩ := (judged_as_meant hwidth _).1 hcheck
  have hpicked : marks.picked (.both hasPassed (.either (isNamed "Bob") (isNamed "Chris"))) = [7] := by
    decide +kernel
  rw [hpicked] at hids
  obtain ⟨-, -, hsame⟩ := hrearranged
    (.either (.both (isNamed "Bob") hasPassed) (.both hasPassed (isNamed "Chris")))
    (.trans (.bothEither _ _ _) (.either (.bothComm _ _) (.refl _)))
  have hbob : (Condition.either hasPassed hasAge).holds marks.columns
      ["4".toList, "Bob".toList, "30".toList] = .error (.columnNotFound "age".toList) := by
    decide +kernel
  have hmissing := (judged_as_meant hwidth (.either hasPassed hasAge)).2.2.1
    (Row.new 4 ["Bob".toList, "30".toList]) (by decide) _ hbob
  exact ⟨hwidth, hcheck, hids, hsame.trans hids, by decide +kernel, by decide +kernel, hmissing⟩

end FlatDb
