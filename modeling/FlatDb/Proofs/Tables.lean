import FlatDb.Proofs.Codec
import FlatDb.Proofs.Plans

/-! # Tables that stay well-formed

Every command that stores a table stores a well-formed one, given well-formed ones.

* `wellFormed_of_create`: a new table, because its columns were checked.
* `wellFormed_append`: a table with one more row, because the values fit and are cells.
* `wellFormed_of_revises`: **a table that was altered, updated or deleted from**, because the id
  column can neither be dropped nor assigned.
  A revision takes rows away at most; it adds none and reorders none. -/

namespace FlatDb

open Text

namespace Table

variable {t t' : Table}

theorem refuseId_eq_ok_iff {column : Text} :
    refuseId column = .ok () ↔ sameName column idColumn = false := by
  unfold refuseId
  cases sameName column idColumn <;> simp

theorem columnIndex?_eq_none_iff {columns : List Text} {name : Text} :
    columnIndex? columns name = none ↔ ∀ column ∈ columns, sameName column name = false := by
  simp [columnIndex?, List.findIdx?_eq_none_iff]

/-- A column that is not the id stands behind it. -/
theorem index_pos {columns : List Text} (hid : columns.head? = some idColumn) {column : Text} {i : Nat}
    (hc : sameName column idColumn = false) (h : requireColumn columns column = .ok i) : 0 < i := by
  unfold requireColumn at h
  split at h
  · next j hj =>
      rw [Except.ok.injEq] at h
      subst h
      rcases Nat.eq_zero_or_pos j with rfl | hpos
      · obtain ⟨hlt, hs, -⟩ := List.findIdx?_eq_some_iff_getElem.mp hj
        rw [List.head?_eq_getElem?, List.getElem?_eq_getElem hlt, Option.some.injEq] at hid
        rw [hid, sameName_comm, hc] at hs
        cases hs
      · exact hpos
  · cases h

/-! ### New tables -/

/-- Columns that pass the check differ from the id, from those seen and from each other. -/
theorem checkColumns_eq_ok {seen columns : List Text} (h : checkColumns seen columns = .ok ()) :
    (∀ column ∈ columns, sameName column idColumn = false ∧
        ∀ s ∈ seen, sameName s column = false) ∧
      columns.Pairwise fun a b => sameName a b = false := by
  induction columns generalizing seen with
  | nil => simp
  | cons column more ih =>
      obtain ⟨⟨⟩, hid, h⟩ := bind_eq_ok_iff.mp h
      have hi := refuseId_eq_ok_iff.mp hid
      cases hx : columnIndex? seen column with
      | some i =>
          rw [hx] at h
          cases h
      | none =>
          rw [hx] at h
          have hs := columnIndex?_eq_none_iff.mp hx
          obtain ⟨hall, hpair⟩ := ih h
          refine ⟨fun c hc => ?_, List.pairwise_cons.mpr ⟨fun c hc => ?_, hpair⟩⟩
          · rcases List.mem_cons.mp hc with rfl | hc
            · exact ⟨hi, hs⟩
            · exact ⟨(hall c hc).1, fun s hm => (hall c hc).2 s (List.mem_append_left _ hm)⟩
          · exact (hall c hc).2 column (List.mem_append_right _ List.mem_cons_self)

theorem wellFormed_of_create {columns : List Text} (hn : ∀ column ∈ columns, IsName column)
    (h : create columns = .ok t) : t.WellFormed ∧ t.rows = [] := by
  obtain ⟨⟨⟩, hc, ht⟩ := bind_eq_ok_iff.mp h
  cases ht
  obtain ⟨hall, hpair⟩ := checkColumns_eq_ok hc
  refine ⟨⟨rfl, ?_, ?_, by simp [new], by simp [new], by simp [new], by simp [new]⟩, rfl⟩
  · intro column hm
    rcases List.mem_cons.mp hm with rfl | hm
    · exact isName_idColumn
    · exact hn column hm
  · refine List.pairwise_cons.mpr ⟨fun column hm => ?_, hpair⟩
    rw [sameName_comm]
    exact (hall column hm).1

/-! ### Altered tables -/

theorem wellFormed_addColumn (h : t.WellFormed) {column : Text} (hn : IsName column)
    (hx : columnIndex? t.columns column = none) : (t.addColumn column).WellFormed := by
  have hs := columnIndex?_eq_none_iff.mp hx
  refine ⟨?_, ?_, ?_, ?_, ?_, ?_, ?_⟩
  · simp [addColumn, List.head?_append, h.idFirst]
  · intro c hc
    rcases List.mem_append.mp hc with hc | hc
    · exact h.names c hc
    · rw [List.mem_singleton.mp hc]
      exact hn
  · refine List.pairwise_append.mpr ⟨h.distinct, List.pairwise_singleton _ _, fun a ha b hb => ?_⟩
    rw [List.mem_singleton.mp hb]
    exact hs a ha
  all_goals
    intro r hr
    obtain ⟨r, hm, rfl⟩ := List.mem_map.mp hr
  · simp [addColumn, h.width r hm]
  · simp [List.head?_append, h.idCell r hm]
  · intro cell hc
    rcases List.mem_append.mp hc with hc | hc
    · exact h.clean r hm cell hc
    · rw [List.mem_singleton.mp hc]
      exact ⟨by simp, by simp, by simp⟩
  · exact h.small r hm

theorem head?_eraseIdx {α : Type} (l : List α) {i : Nat} (hi : 0 < i) :
    (l.eraseIdx i).head? = l.head? := by
  obtain ⟨j, rfl⟩ : ∃ j, i = j + 1 := ⟨i - 1, by omega⟩
  cases l <;> rfl

theorem wellFormed_dropColumn (h : t.WellFormed) {i : Nat} (hi : 0 < i) :
    (t.dropColumn i).WellFormed := by
  refine ⟨?_, ?_, ?_, ?_, ?_, ?_, ?_⟩
  · exact (head?_eraseIdx _ hi).trans h.idFirst
  · exact fun c hc => h.names c (List.mem_of_mem_eraseIdx hc)
  · exact h.distinct.sublist (List.eraseIdx_sublist _ _)
  all_goals
    intro r hr
    obtain ⟨r, hm, rfl⟩ := List.mem_map.mp hr
  · simp only [dropColumn, List.length_eraseIdx, h.width r hm]
  · exact (head?_eraseIdx _ hi).trans (h.idCell r hm)
  · exact fun cell hc => h.clean r hm cell (List.mem_of_mem_eraseIdx hc)
  · exact h.small r hm

theorem wellFormed_of_alter (h : t.WellFormed) {alteration : Alteration} {column : Text}
    (hn : IsName column) (ha : t.alter alteration column = .ok t') :
    t'.WellFormed ∧ t'.rows.map Row.id = t.rows.map Row.id := by
  obtain ⟨⟨⟩, hid, ha⟩ := bind_eq_ok_iff.mp ha
  have hi := refuseId_eq_ok_iff.mp hid
  cases alteration with
  | add =>
      cases hx : columnIndex? t.columns column with
      | some i =>
          simp only [hx] at ha
          cases ha
      | none =>
          simp only [hx] at ha
          cases ha
          exact ⟨wellFormed_addColumn h hn hx, by simp [addColumn, Function.comp_def]⟩
  | drop =>
      obtain ⟨i, hx, ha⟩ := bind_eq_ok_iff.mp ha
      cases ha
      exact ⟨wellFormed_dropColumn h (index_pos h.idFirst hi hx),
        by simp [dropColumn, Function.comp_def]⟩

/-! ### Rows -/

theorem wellFormed_append (h : t.WellFormed) {values : List Literal}
    (hv : t.checkValues values = .ok ()) (hc : ∀ v ∈ values, IsCell v.cell) {id : Nat}
    (hid : id < UInt64.size) : (t.append id values).WellFormed := by
  have hw : values.length + 1 = t.columns.length := by
    have hpos : 0 < t.columns.length := by
      cases hcols : t.columns with
      | nil =>
          have := h.idFirst
          rw [hcols] at this
          cases this
      | cons column more => simp
    unfold checkValues at hv
    dsimp only at hv
    split at hv
    · omega
    · cases hv
  have hrow : ∀ r ∈ (t.append id values).rows, r ∈ t.rows ∨ r = Row.new id (values.map Literal.cell) := by
    intro r hr
    rcases List.mem_append.mp hr with hr | hr
    · exact Or.inl hr
    · exact Or.inr (List.mem_singleton.mp hr)
  refine ⟨h.idFirst, h.names, h.distinct, ?_, ?_, ?_, ?_⟩ <;> intro r hr <;>
    rcases hrow r hr with hm | rfl
  · exact h.width r hm
  · show _ = t.columns.length
    simpa [Row.new] using hw
  · exact h.idCell r hm
  · rfl
  · exact h.clean r hm
  · intro cell hm
    rcases List.mem_cons.mp hm with rfl | hm
    · exact isCell_ofNat id
    · obtain ⟨v, hv, rfl⟩ := List.mem_map.mp hm
      exact hc v hv
  · exact h.small r hm
  · exact hid

/-- Assignments that pass the checks are to columns behind the id. -/
theorem assigned_eq_ok {columns : List Text} (hid : columns.head? = some idColumn)
    {assignments : List Assignment} {changes : List (Nat × Text)}
    (h : assigned columns assignments = .ok changes) :
    ∀ x ∈ changes, 0 < x.1 ∧ ∃ a ∈ assignments, x.2 = a.value.cell := by
  induction assignments generalizing changes with
  | nil =>
      cases h
      exact fun _ hm => nomatch hm
  | cons a more ih =>
      obtain ⟨⟨⟩, hi, h⟩ := bind_eq_ok_iff.mp h
      obtain ⟨i, hx, h⟩ := bind_eq_ok_iff.mp h
      obtain ⟨rest, hr, h⟩ := bind_eq_ok_iff.mp h
      cases h
      intro x hm
      rcases List.mem_cons.mp hm with rfl | hm
      · exact ⟨index_pos hid (refuseId_eq_ok_iff.mp hi) hx, a, List.mem_cons_self, rfl⟩
      · obtain ⟨hpos, b, hb, e⟩ := ih hr x hm
        exact ⟨hpos, b, List.mem_cons_of_mem _ hb, e⟩

/-- Assigning behind the first cell keeps the number of cells, the first cell and cells. -/
theorem assign_spec {changes : List (Nat × Text)} (hpos : ∀ x ∈ changes, 0 < x.1)
    (hc : ∀ x ∈ changes, IsCell x.2) {cells : List Text} (hcells : ∀ cell ∈ cells, IsCell cell) :
    (assign changes cells).length = cells.length ∧ (assign changes cells).head? = cells.head? ∧
      ∀ cell ∈ assign changes cells, IsCell cell := by
  induction changes generalizing cells with
  | nil => exact ⟨rfl, rfl, hcells⟩
  | cons x more ih =>
      obtain ⟨i, text⟩ := x
      have hi : 0 < i := hpos (i, text) List.mem_cons_self
      have hset : ∀ cell ∈ cells.set i text, IsCell cell := by
        intro cell hm
        rcases List.mem_or_eq_of_mem_set hm with hm | rfl
        · exact hcells cell hm
        · exact hc (i, cell) List.mem_cons_self
      obtain ⟨hl, hh, hall⟩ := ih (fun y hy => hpos y (List.mem_cons_of_mem _ hy))
        (fun y hy => hc y (List.mem_cons_of_mem _ hy)) hset
      refine ⟨hl.trans List.length_set, hh.trans ?_, hall⟩
      obtain ⟨j, rfl⟩ : ∃ j, i = j + 1 := ⟨i - 1, by omega⟩
      cases cells <;> rfl

theorem wellFormed_of_update (h : t.WellFormed) {assignments : List Assignment}
    {filter : Condition} (hc : ∀ a ∈ assignments, IsCell a.value.cell)
    (hu : t.update assignments filter = .ok (some t')) :
    t'.WellFormed ∧ t'.rows.map Row.id = t.rows.map Row.id := by
  obtain ⟨changes, ha, hu⟩ := bind_eq_ok_iff.mp hu
  obtain ⟨ids, -, hu⟩ := bind_eq_ok_iff.mp hu
  split at hu
  · cases hu
  · cases hu
    have hx := assigned_eq_ok h.idFirst ha
    have hcells : ∀ x ∈ changes, IsCell x.2 := by
      intro x hm
      obtain ⟨-, a, hm, e⟩ := hx x hm
      rw [e]
      exact hc a hm
    have hspec r (hr : r ∈ t.rows) := assign_spec (fun x hm => (hx x hm).1) hcells (h.clean r hr)
    refine ⟨⟨h.idFirst, h.names, h.distinct, ?_, ?_, ?_, ?_⟩, ?_⟩
    · intro r hr
      obtain ⟨r, hm, rfl⟩ := List.mem_map.mp hr
      split
      · exact (hspec r hm).1.trans (h.width r hm)
      · exact h.width r hm
    · intro r hr
      obtain ⟨r, hm, rfl⟩ := List.mem_map.mp hr
      split
      · exact (hspec r hm).2.1.trans (h.idCell r hm)
      · exact h.idCell r hm
    · intro r hr
      obtain ⟨r, hm, rfl⟩ := List.mem_map.mp hr
      split
      · exact (hspec r hm).2.2
      · exact h.clean r hm
    · intro r hr
      obtain ⟨r, hm, rfl⟩ := List.mem_map.mp hr
      split <;> exact h.small r hm
    · rw [List.map_map]
      refine List.map_congr_left fun r _ => ?_
      rw [Function.comp_apply]
      split <;> rfl

theorem wellFormed_of_delete (h : t.WellFormed) {filter : Condition}
    (hd : t.delete filter = .ok (some t')) :
    t'.WellFormed ∧ (t'.rows.map Row.id).Sublist (t.rows.map Row.id) := by
  obtain ⟨ids, -, hd⟩ := bind_eq_ok_iff.mp hd
  split at hd
  · cases hd
  · cases hd
    have hsub : (t.rows.filter fun r => r.id ∉ ids).Sublist t.rows := List.filter_sublist
    exact ⟨⟨h.idFirst, h.names, h.distinct, fun r hr => h.width r (hsub.subset hr),
      fun r hr => h.idCell r (hsub.subset hr), fun r hr => h.clean r (hsub.subset hr),
      fun r hr => h.small r (hsub.subset hr)⟩, hsub.map _⟩

/-- **A revised table** is well-formed, and its rows are rows of the table before, in the order they
had there. -/
theorem wellFormed_of_revises (h : t.WellFormed) {c : Command} (hc : c.Proper) {name : Text}
    (hr : c.Revises name t t') :
    t'.WellFormed ∧ (t'.rows.map Row.id).Sublist (t.rows.map Row.id) := by
  cases hr with
  | @alter name alteration column t t' ha =>
      obtain ⟨hw, he⟩ := wellFormed_of_alter h (hc.declared column (by simp [Command.declared])) ha
      exact ⟨hw, he ▸ List.Sublist.refl _⟩
  | @update name assignments filter t t' hu =>
      have hcells : ∀ a ∈ assignments, IsCell a.value.cell :=
        fun a ha => hc.cells _ (List.mem_map.mpr ⟨a, ha, rfl⟩)
      obtain ⟨hw, he⟩ := wellFormed_of_update h hcells hu
      exact ⟨hw, he ▸ List.Sublist.refl _⟩
  | delete hd => exact wellFormed_of_delete h hd

end Table

end FlatDb
