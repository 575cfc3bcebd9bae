import FlatDb.Proofs.Deletion

/-! # Selecting rows

A `SELECT` looks up the columns that it lists, then those of its condition, and shows the cells of the rows
that satisfy the condition.

* A column is looked up by the first name that fits.  `lacks` says of a header that no name fits;
  `cellUnder?` is the cell under the column that is found, be it in a row or in the header itself.
* `select_eq`: a selection is refused because of **the first column that is missing**, or it shows
  **the cells of the rows of which the condition is true**, in the order of the file.
* `outcome_select` says so of every table that can be opened, whatever wrote the file. -/

namespace FlatDb

open Text

/-! ### Columns by name -/

section columns
variable {header cells : List Text} {name : Text}

/-- No column has this name, in any case. -/
def lacks (header : List Text) (name : Text) : Bool := header.all fun column => !sameName column name

/-- The cell under the first column of a name. -/
def cellUnder? (header cells : List Text) (name : Text) : Option Text :=
  ((header.zip cells).find? fun x => sameName x.1 name).map Prod.snd

/-- The position of the first column of a name; behind the last column if there is none. -/
def position (header : List Text) (name : Text) : Nat := header.findIdx (sameName · name)

/-- Searching the columns of a row is searching the header. -/
theorem map_find?_zip {p : Text → Bool} (h : cells.length = header.length) :
    ((header.zip cells).find? fun x => p x.1).map Prod.snd = cells[header.findIdx p]? := by
  induction header generalizing cells with
  | nil =>
      rw [List.length_eq_zero_iff.mp h]
      rfl
  | cons column more ih =>
      cases cells with
      | nil => simp at h
      | cons cell rest =>
          have hlength : rest.length = more.length := by simpa using h
          rw [List.zip_cons_cons, List.find?_cons, List.findIdx_cons]
          cases hp : p column with
          | true => simp
          | false => simpa using ih hlength

theorem cellUnder?_eq (h : cells.length = header.length) :
    cellUnder? header cells name = cells[position header name]? :=
  map_find?_zip (p := fun column => sameName column name) h

theorem lacks_eq_false_iff : lacks header name = false ↔ ∃ column ∈ header, sameName column name = true := by
  simp [lacks, List.all_eq_false]

/-- A column that has to be there is found, unless the header lacks it. -/
theorem requireColumn_eq (header : List Text) (name : Text) :
    requireColumn header name =
      if lacks header name = true then .error (.columnNotFound name) else .ok (position header name) := by
  cases hl : lacks header name with
  | true =>
      have hnone : columnIndex? header name = none := by
        refine Table.columnIndex?_eq_none_iff.mpr fun column hc => ?_
        simpa using List.all_eq_true.mp hl column hc
      rw [if_pos rfl, requireColumn, hnone]
  | false =>
      have hsome : columnIndex? header name = some (position header name) :=
        List.findIdx?_eq_some_of_exists (lacks_eq_false_iff.mp hl)
      rw [if_neg Bool.false_ne_true, requireColumn, hsome]

/-- Of columns that have to be there the first one that is missing is reported. -/
theorem requireColumns_eq (header names : List Text) :
    requireColumns header names =
      match names.find? (lacks header) with
      | some missing => .error (.columnNotFound missing)
      | none => .ok (names.map (position header)) := by
  induction names with
  | nil => rfl
  | cons name more ih =>
      rw [requireColumns, requireColumn_eq, List.find?_cons]
      cases lacks header name with
      | true => rfl
      | false =>
          rw [ih]
          dsimp only
          cases more.find? (lacks header) <;> rfl

/-- Of the columns of a condition the leftmost one that is missing is reported. -/
theorem Condition.check_eq (header : List Text) (c : Condition) :
    c.check header =
      match c.columns.find? (lacks header) with
      | some missing => .error (.columnNotFound missing)
      | none => .ok () := by
  rw [check, requireColumns_eq]
  cases c.columns.find? (lacks header) <;> rfl

/-- The checked columns of a condition that passes are all there. -/
theorem Condition.suits_of_find?_eq_none {c : Condition} (h : c.columns.find? (lacks header) = none) :
    c.Suits header := by
  intro name hname
  refine lacks_eq_false_iff.mp ?_
  simpa using List.find?_eq_none.mp h name hname

end columns

/-! ### Selections -/

/-- The columns that the items of a selection list. -/
def Items.names : Items → List Text
  | .all => []
  | .listed columns => columns

/-- The columns that a condition names, if there is one. -/
def filterNames : Option Condition → List Text
  | none => []
  | some c => c.columns

/-- What a selection shows of a row under a header.  Each item that is listed shows one cell. -/
def shown (header : List Text) (items : Items) (cells : List Text) : List Text :=
  match items with
  | .all => cells
  | .listed columns => columns.map fun name => (cellUnder? header cells name).getD []

namespace Table

variable {t : Table}

/-- The rows of which a condition is true; all rows if there is no condition. -/
def selected (t : Table) : Option Condition → List Row
  | none => t.rows
  | some c => t.rows.filter fun r => c.meaning t.columns r.cells

/-- The positions of items that are all there. -/
def shownAt (t : Table) : Items → List Nat
  | .all => List.range t.columns.length
  | .listed columns => columns.map (position t.columns)

theorem positions_eq (t : Table) (items : Items) :
    t.positions items =
      match items.names.find? (lacks t.columns) with
      | some missing => .error (.columnNotFound missing)
      | none => .ok (t.shownAt items) := by
  cases items with
  | all => rfl
  | listed columns => exact requireColumns_eq t.columns columns

theorem selectedRows_eq (t : Table) (filter : Option Condition) :
    t.selectedRows filter =
      match (filterNames filter).find? (lacks t.columns) with
      | some missing => .error (.columnNotFound missing)
      | none => .ok (t.selected filter) := by
  cases filter with
  | none => rfl
  | some c =>
      rw [selectedRows, Condition.check_eq, filterNames]
      cases hf : c.columns.find? (lacks t.columns) with
      | some missing => rfl
      | none => exact Condition.matching_eq_filter (Condition.suits_of_find?_eq_none hf) t.rows

/-- A condition on one column selects by the cells in that column. -/
theorem selectedRows_compare {column : Text} {i : Nat} (h : columnIndex? t.columns column = some i)
    (op : Operator) (value : Literal) :
    t.selectedRows (some (.compare column op value)) =
      .ok (t.rows.filter fun r => op.relates (cellAt r.cells i) value.cell) := by
  have hlacks : lacks t.columns column = false := by
    have hrequired := requireColumn_eq_ok_iff.mpr h
    rw [requireColumn_eq] at hrequired
    cases hl : lacks t.columns column with
    | true => simp [hl] at hrequired
    | false => rfl
  rw [selectedRows_eq, filterNames, Condition.columns, List.find?_singleton, hlacks]
  change Except.ok (t.selected _) = _
  rw [selected]
  simp only [Condition.meaning, h]

/-- The id is in the first column. -/
theorem Readable.columnIndex?_id {column : Text} (h : t.Readable) (hc : sameName column idColumn = true) :
    columnIndex? t.columns column = some 0 := by
  have hfirst := h.idFirst
  cases hcolumns : t.columns with
  | nil => exact absurd hcolumns h.columns_ne_nil
  | cons first more =>
      rw [hcolumns, List.headD_cons] at hfirst
      rw [sameName_comm] at hc
      rw [columnIndex?, List.findIdx?_cons, sameName_trans hfirst hc]
      rfl

/-- The cells at all positions are the cells. -/
theorem project_range (cells : List Text) : project (List.range cells.length) cells = cells := by
  refine List.ext_getElem (by simp [project]) fun i _ hi => ?_
  simp [project, cellAt, hi]

theorem project_shownAt (t : Table) (items : Items) {cells : List Text}
    (h : cells.length = t.columns.length) :
    project (t.shownAt items) cells = shown t.columns items cells := by
  cases items with
  | all =>
      rw [shownAt, ← h]
      exact project_range cells
  | listed columns =>
      rw [shownAt, project, List.map_map]
      refine List.map_congr_left fun name _ => ?_
      rw [cellUnder?_eq h]
      rfl

/-- **A selection** is refused because of the first column that is missing, those that are listed before
those of the condition; or it shows, of the header and of each row that is selected, the cells of its
items. -/
theorem select_eq (h : t.Readable) (items : Items) (filter : Option Condition) :
    t.select items filter =
      match (items.names ++ filterNames filter).find? (lacks t.columns) with
      | some missing => .error (.columnNotFound missing)
      | none => .ok ⟨shown t.columns items t.columns,
          (t.selected filter).map fun r => shown t.columns items r.cells⟩ := by
  have hsub : ∀ r ∈ t.selected filter, r ∈ t.rows := by
    cases filter with
    | none => exact fun _ hr => hr
    | some c => exact fun _ hr => (List.mem_filter.mp hr).1
  rw [select, positions_eq, selectedRows_eq, List.find?_append]
  cases items.names.find? (lacks t.columns) with
  | some missing => rfl
  | none =>
      cases (filterNames filter).find? (lacks t.columns) with
      | some missing => rfl
      | none =>
          have hrows : (t.selected filter).map (fun r => project (t.shownAt items) r.cells) =
              (t.selected filter).map fun r => shown t.columns items r.cells :=
            List.map_congr_left fun r hr => t.project_shownAt items (h.width r (hsub r hr))
          change Except.ok _ = Except.ok _
          rw [t.project_shownAt items rfl, hrows]

/-! ### Connectives -/

theorem mem_selected_iff {c : Condition} {r : Row} :
    r ∈ t.selected (some c) ↔ r ∈ t.rows ∧ c.meaning t.columns r.cells = true := List.mem_filter

/-- Both conditions select what is selected by each. -/
theorem selected_both (t : Table) (c₁ c₂ : Condition) :
    t.selected (some (.both c₁ c₂)) =
      (t.selected (some c₁)).filter fun r => r ∈ t.selected (some c₂) := by
  change _ = (t.rows.filter _).filter _
  rw [List.filter_filter]
  refine List.filter_congr fun r hr => ?_
  simp only [mem_selected_iff, hr, true_and, Condition.meaning, Bool.decide_eq_true, Bool.and_comm]

/-- Either condition selects what is selected by one of them. -/
theorem selected_either (t : Table) (c₁ c₂ : Condition) :
    t.selected (some (.either c₁ c₂)) =
      t.rows.filter fun r => r ∈ t.selected (some c₁) ∨ r ∈ t.selected (some c₂) := by
  refine List.filter_congr fun r hr => ?_
  simp [mem_selected_iff, hr, Condition.meaning]

end Table

/-! ### Any disk -/

section select
variable {e : Engine} {session : Session} {d : Disk} {name : Text} {items : Items}
  {filter : Option Condition} {stored : Stored Path} {t : Table}

/-- A selection is planned by opening the table first. -/
theorem Command.planSelect_eq {κ : Type} (catalog : Catalog κ) (session : Session) :
    planSelect catalog session items name filter =
      catalog.openTable session.database name >>= fun x =>
        (x.2.select items filter).map (Plan.answer session) := by
  unfold planSelect Catalog.openTable
  cases catalog.selected session.database with
  | error why => rfl
  | ok database =>
      change (catalog.loadTable 0 database name >>= _) = (catalog.loadTable 0 database name >>= _)
      refine bind_congr fun x => ?_
      obtain ⟨stored, t⟩ := x
      dsimp only
      cases t.select items filter <;> rfl

/-- A selection from a table that can be opened changes nothing. -/
theorem Engine.run_select (ho : e.openTable session d name = .ok (stored, t)) :
    e.run session d (.select items name filter) = ⟨(t.select items filter).map some, session, d⟩ := by
  have hplan : (Command.select items name filter).plan (d.catalog e.order e.root) session =
      (t.select items filter).map (Plan.answer session) := by
    change Command.planSelect _ _ _ _ _ = _
    rw [Command.planSelect_eq]
    change e.openTable session d name >>= _ = _
    rw [ho]
    rfl
  unfold run
  rw [hplan]
  cases t.select items filter <;> rfl

/-- **What a selection answers**, whatever wrote the file.  It is refused exactly if a column is missing,
and then the first one is reported, those that are listed before those of the condition, even if there are
no rows.  Otherwise it shows the stored names of its items and, in the order of the file, the cells of
its items in the rows of which the condition is true.  Both of two conditions select the rows that are
selected by each of them, and either selects those that are selected by one of them. -/
theorem outcome_select (ho : e.openTable session d name = .ok (stored, t)) :
    (∀ items filter, e.run session d (.select items name filter) =
      match (items.names ++ filterNames filter).find? (lacks t.columns) with
      | some missing => ⟨.error (.columnNotFound missing), session, d⟩
      | none => ⟨.ok (some ⟨shown t.columns items t.columns,
          (t.selected filter).map fun r => shown t.columns items r.cells⟩), session, d⟩) ∧
    ∀ c₁ c₂,
      t.selected (some (.both c₁ c₂)) =
          (t.selected (some c₁)).filter (fun r => r ∈ t.selected (some c₂)) ∧
        t.selected (some (.either c₁ c₂)) =
          t.rows.filter fun r => r ∈ t.selected (some c₁) ∨ r ∈ t.selected (some c₂) := by
  refine ⟨fun items filter => ?_, fun c₁ c₂ => ⟨t.selected_both c₁ c₂, t.selected_either c₁ c₂⟩⟩
  have hreadable := Disk.readable_of_readTable (Engine.readTable_of_openTable ho)
  rw [Engine.run_select ho, Table.select_eq hreadable]
  cases (items.names ++ filterNames filter).find? (lacks t.columns) <;> rfl

end select

/-- Lists a column twice, and the id under another capitalization. -/
def repeatedItems : Items := .listed ["X".toList, "ID".toList, "x".toList]

/-- Asks for `a` and for an id that is compared as a number. -/
def isLateA : Condition := .both isA (.compare "id".toList .greater (.number "2".toList))

theorem outcome_select_foreignTable :
    ∃ stored t,
      keptEngine.openTable ⟨some "d".toList⟩ foreignDisk "t".toList = .ok (stored, t) ∧
        (keptEngine.run ⟨some "d".toList⟩ foreignDisk
            (.select repeatedItems "t".toList (some isLateA))).result =
          .ok (some ⟨["x".toList, "ID".toList, "x".toList],
            [["a".toList, "+07".toList, "a".toList]]⟩) ∧
        (keptEngine.run ⟨some "d".toList⟩ foreignDisk
            (.select (.listed ["x".toList, "Y".toList]) "t".toList
              (some (.compare "z".toList .equal .null)))).result =
          .error (.columnNotFound "Y".toList) := by
  let t : Table := ⟨["ID".toList, "x".toList],
    [⟨7, ["+07".toList, "a".toList]⟩, ⟨3, ["3".toList, "b".toList]⟩, ⟨2, ["2".toList, "a".toList]⟩]⟩
  have ho : keptEngine.openTable ⟨some "d".toList⟩ foreignDisk "t".toList =
      .ok (⟨"t".toList, ⟨"data".toList, ["d".toList, "t.TAB".toList]⟩⟩, t) := by
    decide +kernel
  obtain ⟨hrun, -⟩ := outcome_select ho
  refine ⟨_, t, ho, ?_, ?_⟩ <;> rw [hrun] <;> decide +kernel

end FlatDb
