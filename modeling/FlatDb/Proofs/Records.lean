import FlatDb.Drawing
import FlatDb.Proofs.Framing
import FlatDb.Proofs.Joining

/-! # Records of a result set

A result set is sent as lines of cells with nothing escaped.  What it takes to tell the cells apart again
is true of every result set in a run, because it is true of every stored table.

* `ResultSet.Clean`: there are columns, each row has a cell for each, and no cell and no column name holds
  a tab or a line break.  `Disk.Mirrored.clean` says so of all result sets in a run, which
  `Disk.Mirrored.reads_cases` traces back to the stored tables.
* `resultSet_of_response`: **a response determines its result set**, and for a whole table it is the file of
  the table without the last line feed.
* `records_of_response`: a console reads the response by lines, and what stands behind the last line feed
  is a line only if it is not empty.  **A last row that is a single empty cell is not drawn**; every other
  row is. -/

namespace FlatDb

open Text

/-! ### Commands with a result set -/

/-- Only a selection or a join has a result set, and it is that of the tables that are opened. -/
inductive Command.Reads {κ : Type} (catalog : Catalog κ) (selected : Option Text) :
    Command → ResultSet → Prop where
  | select {items : Items} {name : Text} {filter : Option Condition} {stored : Stored κ} {t : Table}
      {r : ResultSet} (ho : catalog.openTable selected name = .ok (stored, t))
      (h : t.select items filter = .ok r) : Reads catalog selected (.select items name filter) r
  | join {left right a b : Text} {leftStored rightStored : Stored κ} {leftTable rightTable : Table}
      {r : ResultSet} (ho : catalog.openTables selected left right =
        .ok ((leftStored, leftTable), (rightStored, rightTable)))
      (h : Table.join leftStored.name leftTable rightStored.name rightTable a b = .ok r) :
      Reads catalog selected (.join left right a b) r

namespace Command

section plan
variable {κ : Type} {catalog : Catalog κ} {session : Session} {p : Plan κ}

theorem result_of_planRevision {name : Text} {f : Table → Except Error (Option Table)}
    (h : planRevision catalog session name f = .ok p) : p.result = none := by
  obtain ⟨database, -, h⟩ := bind_eq_ok_iff.mp h
  obtain ⟨x, -, h⟩ := bind_eq_ok_iff.mp h
  obtain ⟨revised, -, h⟩ := bind_eq_ok_iff.mp h
  cases h
  cases revised <;> rfl

theorem reads_of_plan {c : Command} {r : ResultSet} (h : c.plan catalog session = .ok p)
    (hr : p.result = some r) : Reads catalog session.database c r := by
  have hnone : p.result = none → Reads catalog session.database c r := by
    intro hn
    cases hr.symm.trans hn
  cases c with
  | use name =>
      obtain ⟨database, -, h⟩ := bind_eq_ok_iff.mp h
      cases h
      exact hnone rfl
  | createDatabase name =>
      rw [plan, planCreateDatabase] at h
      split at h
      · cases h
      · cases h
        exact hnone rfl
  | dropDatabase name =>
      obtain ⟨database, -, h⟩ := bind_eq_ok_iff.mp h
      cases h
      exact hnone rfl
  | createTable name columns =>
      obtain ⟨database, -, h⟩ := bind_eq_ok_iff.mp h
      obtain ⟨found, -, h⟩ := bind_eq_ok_iff.mp h
      cases found with
      | some stored => cases h
      | none =>
          obtain ⟨t, -, h⟩ := bind_eq_ok_iff.mp h
          cases h
          exact hnone rfl
  | dropTable name =>
      obtain ⟨database, -, h⟩ := bind_eq_ok_iff.mp h
      obtain ⟨stored, -, h⟩ := bind_eq_ok_iff.mp h
      cases h
      exact hnone rfl
  | alter name alteration column =>
      rw [plan] at h
      exact hnone (result_of_planRevision h)
  | insert name values =>
      obtain ⟨_, _, _, _, _, -, rfl⟩ := planInsert_eq_ok_iff.mp h
      exact hnone rfl
  | update name assignments filter =>
      rw [plan] at h
      exact hnone (result_of_planRevision h)
  | delete name filter =>
      rw [plan] at h
      exact hnone (result_of_planRevision h)
  | select items name filter =>
      rw [plan, planSelect_eq] at h
      obtain ⟨⟨stored, t⟩, ho, h⟩ := bind_eq_ok_iff.mp h
      obtain ⟨result, hs, rfl⟩ := map_eq_ok_iff.mp h
      cases hr
      exact .select ho hs
  | join left right a b =>
      rw [plan, planJoin_eq_openTables] at h
      obtain ⟨⟨⟨leftStored, l⟩, rightStored, t⟩, ho, h⟩ := bind_eq_ok_iff.mp h
      obtain ⟨result, hj, rfl⟩ := map_eq_ok_iff.mp h
      cases hr
      exact .join ho hj

end plan

end Command

/-- A result set comes from a command that reads. -/
theorem Engine.reads_of_runText {e : Engine} {session : Session} {d : Disk} {input : Text}
    {r : ResultSet} (h : (e.runText session d input).result = .ok (some r)) :
    ∃ c, Command.parse input = .ok c ∧
      c.Reads (d.catalog e.order e.root) session.database r := by
  unfold runText at h
  cases hp : Command.parse input with
  | error why =>
      rw [hp] at h
      cases h
  | ok c =>
      rw [hp] at h
      dsimp only at h
      unfold run at h
      cases hplan : c.plan (d.catalog e.order e.root) session with
      | error why =>
          rw [hplan] at h
          cases h
      | ok p =>
          rw [hplan] at h
          dsimp only at h
          unfold perform at h
          split at h
          · exact ⟨c, rfl, Command.reads_of_plan hplan (Except.ok.inj h)⟩
          · cases h

/-! ### Clean result sets -/

/-- There are columns, the first with a name, and every row has a cell for each.  No column name and no
cell holds a tab or a line break. -/
structure ResultSet.Clean (r : ResultSet) : Prop where
  first : ∃ column ∈ r.columns.head?, IsName column
  header : ∀ column ∈ r.columns, IsCell column
  cells : ∀ row ∈ r.rows, ∀ cell ∈ row, IsCell cell
  width : ∀ row ∈ r.rows, row.length = r.columns.length

namespace Table

variable {t l r : Table}

theorem WellFormed.isCell_columns (h : t.WellFormed) : ∀ column ∈ t.columns, IsCell column :=
  fun column hc => (h.names column hc).isCell

theorem mem_of_cellUnder? {header cells : List Text} {name cell : Text}
    (h : cellUnder? header cells name = some cell) : cell ∈ cells := by
  obtain ⟨x, hx, rfl⟩ := Option.map_eq_some_iff.mp h
  exact (List.of_mem_zip (List.mem_of_find?_eq_some hx)).2

/-- What is shown of clean cells is clean. -/
theorem isCell_shown {header cells : List Text} (h : ∀ cell ∈ cells, IsCell cell) (items : Items) :
    ∀ cell ∈ shown header items cells, IsCell cell := by
  cases items with
  | all => exact h
  | listed columns =>
      intro cell hc
      obtain ⟨name, -, rfl⟩ := List.mem_map.mp hc
      cases hu : cellUnder? header cells name with
      | none => exact (by decide : IsCell [])
      | some cell => exact h cell (mem_of_cellUnder? hu)

theorem length_shown {header cells : List Text} (h : cells.length = header.length) (items : Items) :
    (shown header items cells).length = (shown header items header).length := by
  cases items with
  | all => exact h
  | listed columns => rw [shown, shown, List.length_map, List.length_map]

/-- A column that is there is shown under its own name. -/
theorem isName_cellUnder? (h : t.WellFormed) {name : Text} (hn : lacks t.columns name = false) :
    IsName ((cellUnder? t.columns t.columns name).getD []) := by
  have hlt : position t.columns name < t.columns.length :=
    List.findIdx_lt_length_of_exists (lacks_eq_false_iff.mp hn)
  rw [cellUnder?_eq rfl, List.getElem?_eq_getElem hlt, Option.getD_some]
  exact h.names _ (List.getElem_mem hlt)

theorem mem_of_mem_selected {filter : Option Condition} {row : Row} (h : row ∈ t.selected filter) :
    row ∈ t.rows := by
  cases filter with
  | none => exact h
  | some c => exact (mem_selected_iff.mp h).1

theorem clean_of_select (h : t.WellFormed) {items : Items} (hi : items.WellFormed)
    {filter : Option Condition} {result : ResultSet} (hs : t.select items filter = .ok result) :
    result.Clean := by
  rw [select_eq h.readable] at hs
  split at hs
  · cases hs
  · next hnone =>
      cases hs
      refine ⟨?_, isCell_shown h.isCell_columns items, fun row hr => ?_, fun row hr => ?_⟩
      · cases items with
        | all => exact ⟨idColumn, h.idFirst, isName_idColumn⟩
        | listed columns =>
            obtain ⟨first, more, hlist⟩ := List.exists_cons_of_ne_nil hi.1
            refine ⟨_, by rw [hlist, shown, List.map_cons, List.head?_cons]; rfl, ?_⟩
            have hall := List.find?_eq_none.mp hnone
            exact isName_cellUnder? h (by simpa using hall first (by simp [Items.names, hlist]))
      · obtain ⟨x, hx, rfl⟩ := List.mem_map.mp hr
        exact isCell_shown (h.clean x (mem_of_mem_selected hx)) items
      · obtain ⟨x, hx, rfl⟩ := List.mem_map.mp hr
        exact length_shown (h.width x (mem_of_mem_selected hx)) items

theorem mem_of_mem_beside {key : Nat} {cells : List Text} {cell : Text} (h : cell ∈ beside key cells) :
    cell ∈ cells := by
  obtain ⟨⟨c, n⟩, hm, rfl⟩ := List.mem_map.mp h
  exact List.fst_mem_of_mem_zipIdx (List.mem_filter.mp hm).1

theorem isCell_qualified {table column : Text} (ht : IsName table) (hc : IsCell column) :
    IsCell (qualified table column) := by
  have hnot {c : Char} (hn : c ∉ table) (hcol : c ∉ column) (hd : c ≠ '.') :
      c ∉ qualified table column := by
    simp [qualified, hn, hcol, hd]
  exact ⟨hnot ht.isCell.1 hc.1 (by decide), hnot ht.isCell.2.1 hc.2.1 (by decide),
    hnot ht.isCell.2.2 hc.2.2 (by decide)⟩

theorem clean_joined (hl : l.WellFormed) (hr : r.WellFormed) {leftName rightName : Text}
    (hln : IsName leftName) (hrn : IsName rightName) (i j : Nat) :
    (joined leftName l rightName r i j).Clean where
  first := ⟨idColumn, rfl, isName_idColumn⟩
  header column hc := by
    rcases List.mem_cons.mp hc with rfl | hc
    · exact isName_idColumn.isCell
    · rcases List.mem_append.mp hc with hc | hc
      all_goals obtain ⟨c, hm, rfl⟩ := List.mem_map.mp hc
      · exact isCell_qualified hln (hl.isCell_columns c (mem_of_mem_beside hm))
      · exact isCell_qualified hrn (hr.isCell_columns c (mem_of_mem_beside hm))
  cells row hrow := by
    obtain ⟨⟨x, n⟩, hx, rfl⟩ := List.mem_map.mp hrow
    obtain ⟨hleft, hright⟩ :=
      List.mem_product.mp (List.mem_filter.mp (List.fst_mem_of_mem_zipIdx hx)).1
    intro cell hc
    rcases List.mem_cons.mp hc with rfl | hc
    · exact isCell_ofNat n
    · rcases List.mem_append.mp hc with hc | hc
      · exact hl.clean x.1 hleft cell (mem_of_mem_beside hc)
      · exact hr.clean x.2 hright cell (mem_of_mem_beside hc)
  width _ hrow := length_of_mem_joined hl.readable hr.readable hrow

/-- What tables are joined to, whatever the keys are. -/
theorem exists_joined (hl : l.Readable) (hr : r.Readable) {leftName rightName a b : Text}
    {result : ResultSet} (h : join leftName l rightName r a b = .ok result) :
    ∃ i j, result = joined leftName l rightName r i j := by
  obtain ⟨i, hi, hrest⟩ := bind_eq_ok_iff.mp h
  obtain ⟨j, hj, -⟩ := bind_eq_ok_iff.mp hrest
  rw [join_eq_joined hl hr (requireColumn_eq_ok_iff.mp hi) (requireColumn_eq_ok_iff.mp hj)] at h
  exact ⟨i, j, (Except.ok.inj h).symm⟩

/-- A row of a join begins with its number. -/
theorem ne_single_of_mem_joined {leftName rightName : Text} {i j : Nat} {row : List Text}
    (h : row ∈ (joined leftName l rightName r i j).rows) : row ≠ [[]] := by
  obtain ⟨⟨x, n⟩, -, rfl⟩ := List.mem_map.mp h
  intro he
  exact ofNat_ne_nil n (List.cons.inj he).1

/-- Where all of a table is shown, a row begins with the written id. -/
theorem WellFormed.ne_single_of_mem (h : t.WellFormed) {row : Row} (hr : row ∈ t.rows) :
    row.cells ≠ [[]] := by
  intro he
  have hid := h.idCell row hr
  rw [he] at hid
  exact ofNat_ne_nil row.id (Option.some.inj hid).symm

/-- Only a selection of one column shows a row that is a single empty cell. -/
theorem listed_of_select (h : t.WellFormed) {items : Items} {filter : Option Condition}
    {result : ResultSet} (hs : t.select items filter = .ok result) (hm : [[]] ∈ result.rows) :
    ∃ column, items = .listed [column] := by
  rw [select_eq h.readable] at hs
  split at hs
  · cases hs
  · cases hs
    obtain ⟨row, hrow, hshown⟩ := List.mem_map.mp hm
    cases items with
    | all => exact absurd hshown (h.ne_single_of_mem (mem_of_mem_selected hrow))
    | listed columns =>
        have hlength := congrArg List.length hshown
        rw [shown, List.length_map, List.length_singleton] at hlength
        obtain ⟨column, rfl⟩ := List.length_eq_one_iff.mp hlength
        exact ⟨column, rfl⟩

/-- A table is written as all of it is shown, with a line feed at the end. -/
theorem encode_eq_text (t : Table) :
    t.encode = ResultSet.text ⟨t.columns, t.rows.map Row.cells⟩ ++ ['\n'] := by
  rw [encode_eq]
  exact flatten_eq_join (by simp)

end Table

/-! ### Result sets in a run -/

namespace Disk.Mirrored

variable {root : Text} {d : Disk} {listings : Nat → Listing} {session : Session} {r : ResultSet}

/-- A table that is opened has a name. -/
theorem isName_of_openTable (h : d.Mirrored root) {name : Text} {stored : Stored Path} {t : Table}
    (ho : (Engine.below root listings).openTable session d name = .ok (stored, t)) :
    IsName stored.name := by
  obtain ⟨place, d₀, m, hr, hw, hm⟩ := h
  obtain ⟨e, he, x, hx, rfl, -⟩ := hm.exists_of_openTable hr hw ho
  exact Memory.isName_table hw he hx

/-- Of two tables that are opened each could be opened alone, with other listings. -/
theorem openTable_of_openTables {left right : Text} {x y : Stored Path × Table}
    (ho : (Engine.below root listings).openTables session d left right = .ok (x, y)) :
    (Engine.below root listings).openTable session d left = .ok x ∧
      (Engine.below root fun n => listings (if n = 0 then 0 else n + 1)).openTable session d right =
        .ok y := by
  obtain ⟨database, hd, ho⟩ := bind_eq_ok_iff.mp ho
  obtain ⟨x', hx, ho⟩ := bind_eq_ok_iff.mp ho
  obtain ⟨y', hy, ho⟩ := bind_eq_ok_iff.mp ho
  cases ho
  exact ⟨bind_eq_ok_iff.mpr ⟨database, hd, hx⟩, bind_eq_ok_iff.mpr ⟨database, hd, hy⟩⟩

/-- **Result sets in a run** are selected from a well-formed table or joined from two. -/
theorem reads_cases (h : d.Mirrored root) {c : Command}
    (hr : c.Reads (d.catalog (Engine.below root listings).order (.ofText root)) session.database r) :
    (∃ items name filter t, c = .select items name filter ∧ Table.WellFormed t ∧
        t.select items filter = .ok r) ∨
      ∃ leftName l rightName t i j, IsName leftName ∧ Table.WellFormed l ∧ IsName rightName ∧
        Table.WellFormed t ∧ r = Table.joined leftName l rightName t i j := by
  cases hr with
  | select ho hs =>
      have ho : (Engine.below root listings).openTable session d _ = _ := ho
      exact .inl ⟨_, _, _, _, rfl, h.wellFormed ho, hs⟩
  | join ho hj =>
      have ho : (Engine.below root listings).openTables session d _ _ = _ := ho
      obtain ⟨hleft, hright⟩ := openTable_of_openTables ho
      have hl := h.wellFormed hleft
      have ht := h.wellFormed hright
      obtain ⟨i, j, hjoined⟩ := Table.exists_joined hl.readable ht.readable hj
      exact .inr ⟨_, _, _, _, i, j, h.isName_of_openTable hleft, hl, h.isName_of_openTable hright, ht,
        hjoined⟩

/-- **Every result set in a run is clean.** -/
theorem clean (h : d.Mirrored root) {c : Command} (hc : c.WellFormed)
    (hr : c.Reads (d.catalog (Engine.below root listings).order (.ofText root)) session.database r) :
    r.Clean := by
  rcases h.reads_cases hr with ⟨items, name, filter, t, rfl, ht, hs⟩ |
    ⟨leftName, l, rightName, t, i, j, hln, hl, hrn, ht, rfl⟩
  · exact Table.clean_of_select ht hc.1 hs
  · exact Table.clean_joined hl ht hln hrn i j

/-- Only a selection of one column shows a row that is a single empty cell. -/
theorem listed_of_reads (h : d.Mirrored root) {c : Command}
    (hr : c.Reads (d.catalog (Engine.below root listings).order (.ofText root)) session.database r)
    (hm : [[]] ∈ r.rows) : ∃ column name filter, c = .select (.listed [column]) name filter := by
  rcases h.reads_cases hr with ⟨items, name, filter, t, rfl, ht, hs⟩ |
    ⟨leftName, l, rightName, t, i, j, -, -, -, -, rfl⟩
  · obtain ⟨column, rfl⟩ := Table.listed_of_select ht hs hm
    exact ⟨column, name, filter, rfl⟩
  · exact absurd rfl (Table.ne_single_of_mem_joined hm)

end Disk.Mirrored

/-! ### Responses -/

/-- The line of cells is empty if there are none, or a single one that is empty. -/
theorem ResultSet.line_eq_nil_iff {cells : List Text} : line cells = [] ↔ cells = [] ∨ cells = [[]] := by
  unfold line
  match cells with
  | [] => simp [join]
  | [cell] => simp [join]
  | cell :: next :: more => simp [join]

namespace ResultSet.Clean

variable {r : ResultSet} (h : r.Clean)
include h

theorem columns_ne_nil : r.columns ≠ [] := by
  obtain ⟨column, hc, -⟩ := h.first
  exact List.ne_nil_of_mem (List.mem_of_head? hc)

theorem ne_nil_of_mem {row : List Text} (hr : row ∈ r.rows) : row ≠ [] := by
  have hlength := h.width row hr
  have := List.length_pos_iff.mpr h.columns_ne_nil
  exact List.length_pos_iff.mp (by omega)

theorem tidy : r.Tidy where
  first column hc := by
    obtain ⟨first, hf, hn⟩ := h.first
    cases hc.symm.trans hf
    exact hn
  header column hc := (h.header column hc).2.1
  cells row hr cell hc := (h.cells row hr cell hc).2.1

/-- No record is without cells, and no cell holds a separator. -/
theorem separate {record : List Text} (hr : record ∈ r.columns :: r.rows) :
    record ≠ [] ∧ ∀ cell ∈ record, IsCell cell := by
  rcases List.mem_cons.mp hr with rfl | hr
  · exact ⟨h.columns_ne_nil, h.header⟩
  · exact ⟨h.ne_nil_of_mem hr, h.cells record hr⟩

/-- Lines fall apart into the cells. -/
theorem map_splitOn_line {records : List (List Text)} (hr : ∀ record ∈ records, record ∈ r.columns :: r.rows) :
    (records.map line).map (splitOn '\t') = records := by
  rw [List.map_map]
  refine (List.map_congr_left fun record hm => ?_).trans (List.map_id _)
  obtain ⟨hne, hcells⟩ := h.separate (hr record hm)
  exact splitOn_join hne fun cell hc => (hcells cell hc).1

/-- The last line is empty if the last row is a single empty cell. -/
theorem getLast?_lines :
    (okStatus :: (r.columns :: r.rows).map line).getLast? = some [] ↔ r.rows.getLast? = some [[]] := by
  have hheader : line r.columns ≠ [] := by
    obtain ⟨first, hf, hn⟩ := h.first
    obtain ⟨more, hcolumns⟩ := List.head?_eq_some_iff.mp hf
    rw [hcolumns]
    exact join_ne_nil hn.1 more
  rw [List.map_cons, List.getLast?_cons_cons, List.getLast?_cons, List.getLast?_map]
  cases hlast : r.rows.getLast? with
  | none => simpa using hheader
  | some row =>
      have hne := h.ne_nil_of_mem (List.mem_of_getLast? hlast)
      simp [line_eq_nil_iff, hne]

/-- A response is read by lines as the status, the header and the rows, but for a last row that is a
single empty cell. -/
theorem lines_response :
    lines (response (.ok (some r))) = okStatus ::
      (r.columns :: if r.rows.getLast? = some [[]] then r.rows.dropLast else r.rows).map line := by
  have hpieces := h.tidy.splitOn_response
  have hreturn : ∀ piece ∈ splitOn '\n' (response (.ok (some r))), piece.getLast? ≠ some '\r' := by
    rw [hpieces]
    intro piece hp hlast
    rcases List.mem_cons.mp hp with rfl | hp
    · cases hlast
    · obtain ⟨record, hr, rfl⟩ := List.mem_map.mp hp
      rcases mem_join (List.mem_of_getLast? hlast) with hs | ⟨cell, hc, hcr⟩
      · cases hs
      · exact ((h.separate hr).2 cell hc).2.2 hcr
  rw [lines_eq hreturn, hpieces]
  simp only [h.getLast?_lines]
  split
  · next hlast =>
      have hne : r.rows ≠ [] := List.ne_nil_of_mem (List.mem_of_getLast? hlast)
      have hmap : r.rows.map line ≠ [] := fun hm => hne (List.map_eq_nil_iff.mp hm)
      rw [List.map_cons, List.map_cons, List.map_dropLast,
        List.dropLast_cons_of_ne_nil (List.cons_ne_nil _ _), List.dropLast_cons_of_ne_nil hmap]
  · rfl

/-- **The records of a drawing** are the header and the rows, but for a last row that is a single empty
cell. -/
theorem records_response :
    Drawing.status (response (.ok (some r))) = okStatus ∧
      Drawing.records (response (.ok (some r))) =
        r.columns :: if r.rows.getLast? = some [[]] then r.rows.dropLast else r.rows := by
  unfold Drawing.status Drawing.records
  rw [h.lines_response]
  refine ⟨rfl, h.map_splitOn_line fun record hr => ?_⟩
  rcases List.mem_cons.mp hr with rfl | hr
  · exact List.mem_cons_self
  · refine List.mem_cons_of_mem _ ?_
    split at hr
    · exact List.dropLast_subset _ hr
    · exact hr

end ResultSet.Clean

/-! ### States that runs reach -/

section run
variable {root : Text} {d : Disk} {w : World Disk} {call : Call} {session : Session} {o : Outcome}
  {r : ResultSet}

/-- **A response determines its result set**, in every state that a run reaches.  Cut into lines it is the
status, the header and the rows; cut at tabs these are the column names and the cells, as many in each row
as in the header.  If all of a table is asked for, what follows the status is the file of the table
without the line feed at its end. -/
theorem resultSet_of_response (h : d.list (.ofText root) = .ok []) {events : List Event}
    (hw : (World.start d).after root events = w)
    (ho : (call.engine root).runText session w.store call.input = o) (hr : o.result = .ok (some r)) :
    ∃ lines, splitOn '\n' o.response = okStatus :: lines ∧
      lines.map (splitOn '\t') = r.columns :: r.rows ∧
      (∀ row ∈ r.rows, row.length = r.columns.length) ∧
      ∀ name, Command.parse call.input = .ok (.select .all name none) →
        ∃ stored t place contents, (call.engine root).openTable session w.store name = .ok (stored, t) ∧
          w.store.resolve stored.key = .ok place ∧
          w.store.look place = some (some (toBytes (contents ++ ['\n']))) ∧
          o.response = okStatus ++ '\n' :: contents := by
  have hm : w.store.Mirrored root := hw ▸ Disk.Mirrored.after h events
  subst ho
  obtain ⟨c, hp, hreads⟩ := Engine.reads_of_runText hr
  have hclean := hm.clean (Command.wellFormed_of_parse hp) hreads
  have hresponse : ((call.engine root).runText session w.store call.input).response =
      response (.ok (some r)) := congrArg response hr
  rw [hresponse]
  refine ⟨_, hclean.tidy.splitOn_response, hclean.map_splitOn_line fun _ hr => hr, hclean.width,
    fun name hall => ?_⟩
  cases hp.symm.trans hall
  cases hreads with
  | @select _ _ _ stored t _ hopen hs =>
      have hopen : (call.engine root).openTable session w.store name = .ok (stored, t) := hopen
      have hr : t.select .all none = .ok ⟨t.columns, t.rows.map Row.cells⟩ :=
        Table.select_eq (hm.wellFormed hopen).readable .all none
      cases hr.symm.trans hs
      obtain ⟨place, -, hplace, -⟩ := find_of_readTable (Engine.readTable_of_openTable hopen)
      refine ⟨stored, t, place, _, hopen, hplace, ?_, rfl⟩
      rw [hm.look_of_openTable hopen hplace, t.encode_eq_text]

end run

/-- Asks for all of a table. -/
def wholeSelection : Call := .of 1 "SELECT * FROM T;"

/-- What comes of it. -/
def wholeOutcome : Outcome :=
  (wholeSelection.engine "data".toList).runText ⟨some "shop".toList⟩ filledWorld.store wholeSelection.input

theorem resultSet_of_response_filledWorld :
    exampleDisk.list (.ofText "data".toList) = .ok [] ∧
      wholeOutcome.result = .ok (some ⟨filledTable.columns, filledTable.rows.map Row.cells⟩) ∧
      Command.parse wholeSelection.input = .ok (.select .all "T".toList none) ∧
      ∃ lines place contents, splitOn '\n' wholeOutcome.response = okStatus :: lines ∧
        lines.map (splitOn '\t') = filledTable.columns :: filledTable.rows.map Row.cells ∧
        filledWorld.store.look place = some (some (toBytes (contents ++ ['\n']))) ∧
        wholeOutcome.response = okStatus ++ '\n' :: contents := by
  have hempty : exampleDisk.list (.ofText "data".toList) = .ok [] := rfl
  have hr : wholeOutcome.result = .ok (some ⟨filledTable.columns, filledTable.rows.map Row.cells⟩) := by
    decide +kernel
  have hp : Command.parse wholeSelection.input = .ok (.select .all "T".toList none) := by
    decide +kernel
  have hw : (World.start exampleDisk).after "data".toList fillingRun = filledWorld := rfl
  obtain ⟨lines, hlines, hcells, -, hfile⟩ := resultSet_of_response hempty hw rfl hr
  obtain ⟨_, _, place, contents, -, -, hlook, hresponse⟩ := hfile "T".toList hp
  exact ⟨hempty, hr, hp, lines, place, contents, hlines, hcells, hlook, hresponse⟩

/-! ### Drawings -/

section run
variable {root : Text} {d : Disk} {w : World Disk} {call : Call} {session : Session} {o : Outcome}
  {r : ResultSet}

/-- **The records that are drawn** are the column names and the rows of the result set, in every state that
a run reaches, but for a last row that is a single empty cell: that row is not drawn.  There is such a
row only if one column was asked for. -/
theorem records_of_response (h : d.list (.ofText root) = .ok []) {events : List Event}
    (hw : (World.start d).after root events = w)
    (ho : (call.engine root).runText session w.store call.input = o) (hr : o.result = .ok (some r)) :
    Drawing.status o.response = okStatus ∧
      Drawing.records o.response =
        r.columns :: (if r.rows.getLast? = some [[]] then r.rows.dropLast else r.rows) ∧
      (Drawing.records o.response = r.columns :: r.rows ↔ r.rows.getLast? ≠ some [[]]) ∧
      (r.rows.getLast? = some [[]] → ∃ column name filter,
        Command.parse call.input = .ok (.select (.listed [column]) name filter)) := by
  have hm : w.store.Mirrored root := hw ▸ Disk.Mirrored.after h events
  subst ho
  obtain ⟨c, hp, hreads⟩ := Engine.reads_of_runText hr
  have hclean := hm.clean (Command.wellFormed_of_parse hp) hreads
  have hresponse : ((call.engine root).runText session w.store call.input).response =
      response (.ok (some r)) := congrArg response hr
  obtain ⟨hstatus, hrecords⟩ := hclean.records_response
  rw [hresponse, hrecords, hp]
  refine ⟨hstatus, rfl, ?_, fun hlast => ?_⟩
  · split
    · next hlast =>
        refine iff_of_false (fun he => ?_) fun hnot => hnot hlast
        -- a list is longer than it is without its last element
        have hne := List.ne_nil_of_mem (List.mem_of_getLast? hlast)
        have hlength := congrArg List.length (List.cons.inj he).2
        have := List.length_pos_iff.mpr hne
        rw [List.length_dropLast] at hlength
        omega
    · next hlast => exact iff_of_true rfl hlast
  · obtain ⟨column, name, filter, rfl⟩ := hm.listed_of_reads hreads (List.mem_of_getLast? hlast)
    exact ⟨column, name, filter, rfl⟩

end run

/-- A run that stores an empty cell. -/
def blankRun : List Event :=
  [.call (.of 0 "CREATE DATABASE d;"), .call (.of 0 "USE d;"), .call (.of 0 "CREATE TABLE t (a, b);"),
    .call (.of 0 "INSERT INTO t VALUES('', 'x');")]

/-- The world after that run. -/
def blankWorld : World Disk := (World.start exampleDisk).after "data".toList blankRun

/-- What comes of a command after it. -/
def blankOutcome (input : String) : Outcome :=
  ((Call.of 0 input).engine "data".toList).runText (blankWorld.sessions 0) blankWorld.store input.toList

theorem records_of_response_blankWorld :
    exampleDisk.list (.ofText "data".toList) = .ok [] ∧
      (blankOutcome "SELECT b, a FROM t;").result =
        .ok (some ⟨["b".toList, "a".toList], [["x".toList, []]]⟩) ∧
      Drawing.records (blankOutcome "SELECT b, a FROM t;").response =
        [["b".toList, "a".toList], ["x".toList, []]] := by
  have hempty : exampleDisk.list (.ofText "data".toList) = .ok [] := rfl
  have hr : (blankOutcome "SELECT b, a FROM t;").result =
      .ok (some ⟨["b".toList, "a".toList], [["x".toList, []]]⟩) := by
    decide +kernel
  have hw : (World.start exampleDisk).after "data".toList blankRun = blankWorld := rfl
  exact ⟨hempty, hr, (records_of_response hempty hw rfl hr).2.1⟩

/-- **A last row that is a single empty cell is lost**, and only the header is left to draw. -/
theorem records_blankOutcome :
    (blankOutcome "SELECT a FROM t;").result = .ok (some ⟨["a".toList], [[[]]]⟩) ∧
      Drawing.records (blankOutcome "SELECT a FROM t;").response = [["a".toList]] := by
  constructor <;> decide +kernel

end FlatDb
