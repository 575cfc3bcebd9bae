import FlatDb.Proofs.Checked.Basic
import FlatDb.Proofs.Counters
import FlatDb.Table.Query

/-! # Tables, by index

The commands on tables look cells up by the position of their column, remove and replace them by
position, and count rows and columns.  Here each of these operations is checked.

* A table that was read is a rectangle (`Table.Rectangular`): its header is not empty, and every row has
  a cell for each column.
* `decode_eq`: a file is read without an index that is out of range, whatever it holds.
* For each command there is a lemma that it computes from a rectangle what it computes in the library,
  and does not break off: a position in the header is a position in every row.
* `allocate_eq`: no counter overflows, if none has reached the largest id. -/

namespace FlatDb

open Text

/-- A table with a header in which every row has a cell for each column. -/
structure Table.Rectangular (t : Table) : Prop where
  header : 0 < t.columns.length
  width : ∀ r ∈ t.rows, r.cells.length = t.columns.length

theorem Table.Readable.rectangular {t : Table} (h : t.Readable) : t.Rectangular :=
  ⟨List.length_pos_iff.mpr h.columns_ne_nil, h.width⟩

theorem lt_of_requireColumn {columns : List Text} {name : Text} {i : Nat}
    (h : requireColumn columns name = .ok i) : i < columns.length := by
  unfold requireColumn at h
  split at h
  · next j hj =>
      cases h
      exact (List.findIdx?_eq_some_iff_getElem.mp hj).1
  · cases h

theorem lt_of_requireColumns {columns names : List Text} {positions : List Nat}
    (h : requireColumns columns names = .ok positions) : ∀ i ∈ positions, i < columns.length := by
  induction names generalizing positions with
  | nil =>
      cases h
      exact fun _ hm => nomatch hm
  | cons name names ih =>
      obtain ⟨i, hi, h⟩ := bind_eq_ok_iff.mp h
      obtain ⟨more, hm, h⟩ := bind_eq_ok_iff.mp h
      cases h
      exact List.forall_mem_cons.mpr ⟨lt_of_requireColumn hi, ih hm⟩

theorem Table.lt_of_positions {t : Table} {items : Items} {positions : List Nat}
    (h : t.positions items = .ok positions) : ∀ i ∈ positions, i < t.columns.length := by
  cases items with
  | all =>
      cases h
      exact fun i hi => List.mem_range.mp hi
  | listed columns => exact lt_of_requireColumns h

theorem Table.lt_of_carried {t : Table} {key : Nat} : ∀ i ∈ t.carried key, i < t.columns.length :=
  fun _ hi => List.mem_range.mp (List.mem_filter.mp hi).1

theorem Table.lt_of_assigned {columns : List Text} {assignments : List Assignment}
    {changes : List (Nat × Text)} (h : assigned columns assignments = .ok changes) :
    ∀ x ∈ changes, x.1 < columns.length := by
  induction assignments generalizing changes with
  | nil =>
      cases h
      exact fun _ hm => nomatch hm
  | cons a more ih =>
      obtain ⟨⟨⟩, -, h⟩ := bind_eq_ok_iff.mp h
      obtain ⟨i, hi, h⟩ := bind_eq_ok_iff.mp h
      obtain ⟨rest, hr, h⟩ := bind_eq_ok_iff.mp h
      cases h
      exact List.forall_mem_cons.mpr ⟨lt_of_requireColumn hi, ih hr⟩

namespace Checked

/-! ### Reading a table -/

/-- Reads the row on the line with the given number, under a header of `width` columns. -/
def decodeRow (width number : Nat) (line : Text) : Checked Corruption Row := do
  let cells := splitOn Table.tab line
  if cells.length ≠ width then throw (.cellCount number cells.length width)
  let first ← checked cells[0]?
  match count? first with
  | some id => return ⟨id, cells⟩
  | none => throw (.badId number)

/-- Reads the rows on the lines from the given number on, passing over empty ones. -/
def decodeRows (width : Nat) : Nat → List Text → Checked Corruption (List Row)
  | _, [] => return []
  | number, line :: more =>
    if line = [] then decodeRows width (number + 1) more
    else do
      let row ← decodeRow width number line
      let rows ← decodeRows width (number + 1) more
      return row :: rows

/-- Reads a table. -/
def decode (contents : Text) : Checked Corruption Table :=
  match lines contents with
  | [] => throw .missingHeader
  | header :: lines => do
    let columns := (splitOn Table.tab header).map trim
    let first ← checked columns[0]?
    if !sameName first idColumn then throw .firstColumn
    let rows ← decodeRows columns.length 1 lines
    return ⟨columns, rows⟩

/-- There is always a piece in front of the first separator. -/
theorem getElem?_splitOn (line : Text) :
    (splitOn Table.tab line)[0]? = some ((splitOn Table.tab line).headD []) := rfl

theorem decodeRow_eq (width number : Nat) (line : Text) :
    decodeRow width number line = safe (Table.decodeRow width number line) := by
  unfold decodeRow Table.decodeRow
  dsimp only
  split
  · rfl
  · rw [getElem?_splitOn]
    cases hc : count? ((splitOn Table.tab line).headD []) with
    | none => simp only [checked_some, pure_bind, hc]; rfl
    | some id => simp only [checked_some, pure_bind, hc]; rfl

theorem decodeRows_eq (width number : Nat) (lines : List Text) :
    decodeRows width number lines = safe (Table.decodeRows width number lines) := by
  induction lines generalizing number with
  | nil => rfl
  | cons line more ih =>
      rw [decodeRows, Table.decodeRows]
      split
      · exact ih _
      · rw [decodeRow_eq]
        refine bind_eq_safe fun row _ => ?_
        rw [ih]
        exact bind_eq_safe fun rows _ => rfl

/-- **Reading a table does not break off**, whatever the file holds. -/
theorem decode_eq (contents : Text) : decode contents = safe (Table.decode contents) := by
  unfold decode Table.decode
  cases lines contents with
  | nil => rfl
  | cons header lines =>
      have hfirst : ((splitOn Table.tab header).map trim)[0]? =
          some (((splitOn Table.tab header).map trim).headD []) := rfl
      dsimp only
      rw [hfirst, checked_some, pure_bind]
      split
      · rfl
      · rw [decodeRows_eq]
        cases Table.decodeRows ((splitOn Table.tab header).map trim).length 1 lines <;> rfl

/-! ### Cells -/

/-- Whether a row with the given cells satisfies a condition, under a header of columns. -/
def holds (header cells : List Text) : Condition → Checked Error Bool
  | .compare column op value => do
    let i ← safe (requireColumn header column)
    let cell ← checked cells[i]?
    return op.relates cell value.cell
  | .both left right => do
    if ← holds header cells left then holds header cells right else return false
  | .either left right => do
    if ← holds header cells left then return true else holds header cells right

/-- The rows, of those given, that satisfy a condition. -/
def matching (header : List Text) (c : Condition) : List Row → Checked Error (List Row)
  | [] => return []
  | r :: rows => do
    let keep ← holds header r.cells c
    let rest ← matching header c rows
    return if keep then r :: rest else rest

/-- The cells at the given positions. -/
def project (positions : List Nat) (cells : List Text) : Checked Error (List Text) :=
  positions.mapM fun i => checked cells[i]?

/-- Cells after assignments, one after the other. -/
def assign : List (Nat × Text) → List Text → Checked Error (List Text)
  | [], cells => return cells
  | (i, text) :: more, cells => do
    let cells ← checked (set? cells i text)
    assign more cells

theorem checked_cell {cells : List Text} {i : Nat} (h : i < cells.length) :
    (checked cells[i]? : Checked Error Text) = safe (.ok (cellAt cells i)) := by
  rw [cellAt, List.getElem?_eq_getElem h]
  rfl

/-- A column that was found in the header has a cell in the row. -/
theorem holds_eq {header cells : List Text} (h : cells.length = header.length) (c : Condition) :
    holds header cells c = safe (c.holds header cells) := by
  induction c with
  | compare column op value =>
      refine bind_eq_safe fun i hi => ?_
      rw [checked_cell (h ▸ lt_of_requireColumn hi)]
      rfl
  | both left right hl hr =>
      rw [holds, hl, hr]
      refine bind_eq_safe fun keep _ => ?_
      cases keep <;> rfl
  | either left right hl hr =>
      rw [holds, hl, hr]
      refine bind_eq_safe fun keep _ => ?_
      cases keep <;> rfl

theorem matching_eq {header : List Text} {rows : List Row}
    (h : ∀ r ∈ rows, r.cells.length = header.length) (c : Condition) :
    matching header c rows = safe (c.matching header rows) := by
  induction rows with
  | nil => rfl
  | cons r rows ih =>
      obtain ⟨hr, hrows⟩ := List.forall_mem_cons.mp h
      rw [matching, holds_eq hr, ih hrows]
      exact bind_eq_safe fun keep _ => bind_eq_safe fun rest _ => rfl

theorem project_eq {positions : List Nat} {cells : List Text}
    (h : ∀ i ∈ positions, i < cells.length) :
    project positions cells = safe (.ok (Table.project positions cells)) :=
  mapM_eq_safe fun i hi => checked_cell (h i hi)

theorem assign_eq {changes : List (Nat × Text)} {cells : List Text}
    (h : ∀ x ∈ changes, x.1 < cells.length) :
    assign changes cells = safe (.ok (Table.assign changes cells)) := by
  induction changes generalizing cells with
  | nil => rfl
  | cons x more ih =>
      obtain ⟨hx, hmore⟩ := List.forall_mem_cons.mp h
      rw [assign, set?_eq hx, checked_some, pure_bind]
      exact ih fun y hy => by rw [List.length_set]; exact hmore y hy

/-! ### Commands on one table -/

/-- A table without the column at a position. -/
def dropColumn (t : Table) (i : Nat) : Checked Error Table := do
  let columns ← checked (erase? t.columns i)
  let rows ← t.rows.mapM fun r => do
    let cells ← checked (erase? r.cells i)
    return { r with cells }
  return ⟨columns, rows⟩

/-- A table with one column more or less. -/
def alter (t : Table) (alteration : Alteration) (column : Text) : Checked Error Table := do
  safe (refuseId column)
  match alteration with
  | .add =>
    if (columnIndex? t.columns column).isSome then throw (.columnExists column)
    return t.addColumn column
  | .drop =>
    let i ← safe (requireColumn t.columns column)
    dropColumn t i

/-- Refuses a list of values that does not fill the columns behind the id. -/
def checkValues (t : Table) (values : List Literal) : Checked Error Unit := do
  let expected ← checked (minus? t.columns.length 1)
  if values.length = expected then return () else throw (.valueCount expected values.length)

/-- The ids of the rows that satisfy a condition on columns the table has. -/
def matchingIds (t : Table) (filter : Condition) : Checked Error (List Nat) := do
  safe (filter.check t.columns)
  let rows ← matching t.columns filter t.rows
  return rows.map Row.id

/-- The table with new cells in the rows that satisfy a condition, if there are any. -/
def update (t : Table) (assignments : List Assignment) (filter : Condition) :
    Checked Error (Option Table) := do
  let changes ← safe (Table.assigned t.columns assignments)
  let ids ← matchingIds t filter
  if ids = [] then return none
  let rows ← t.rows.mapM fun r =>
    if r.id ∈ ids then do
      let cells ← assign changes r.cells
      return { r with cells }
    else return r
  return some { t with rows }

/-- The table without the rows that satisfy a condition, if there are any.  The number of rows taken
away is computed for the log. -/
def delete (t : Table) (filter : Condition) : Checked Error (Option Table) := do
  let ids ← matchingIds t filter
  if ids = [] then return none
  let rows := t.rows.filter fun r => r.id ∉ ids
  let _ ← checked (minus? t.rows.length rows.length)
  return some { t with rows }

/-- Whether a row passes the filter of a selection. -/
def passes (header cells : List Text) : Option Condition → Checked Error Bool
  | some c => holds header cells c
  | none => return true

/-- The rows of a selection, one after the other. -/
def selectedRows (header : List Text) (filter : Option Condition) (positions : List Nat) :
    List Row → Checked Error (List (List Text))
  | [] => return []
  | r :: rows => do
    if ← passes header r.cells filter then
      let cells ← project positions r.cells
      let more ← selectedRows header filter positions rows
      return cells :: more
    else selectedRows header filter positions rows

/-- The items of the rows that satisfy a condition. -/
def select (t : Table) (items : Items) (filter : Option Condition) : Checked Error ResultSet := do
  let positions ← safe (t.positions items)
  safe (match filter with
    | some c => c.check t.columns
    | none => .ok ())
  let rows ← selectedRows t.columns filter positions t.rows
  let columns ← project positions t.columns
  return ⟨columns, rows⟩

section rectangular
variable {t : Table} (h : t.Rectangular)
include h

/-- A column is taken away from the header and from every row. -/
theorem dropColumn_eq {i : Nat} (hi : i < t.columns.length) :
    dropColumn t i = safe (.ok (t.dropColumn i)) := by
  have hrows : t.rows.mapM (fun r => do
      let cells ← (checked (erase? r.cells i) : Checked Error (List Text))
      return { r with cells }) = safe (.ok (t.dropColumn i).rows) := by
    refine mapM_eq_safe fun r hr => ?_
    rw [erase?_eq (by rw [h.width r hr]; exact hi)]
    rfl
  rw [dropColumn, erase?_eq hi, hrows]
  rfl

theorem alter_eq (alteration : Alteration) (column : Text) :
    alter t alteration column = safe (t.alter alteration column) := by
  refine bind_eq_safe fun _ _ => ?_
  cases alteration with
  | add =>
      dsimp only
      split <;> rfl
  | drop => exact bind_eq_safe fun i hi => dropColumn_eq h (lt_of_requireColumn hi)

theorem checkValues_eq (values : List Literal) :
    checkValues t values = safe (t.checkValues values) := by
  rw [checkValues, minus?_eq h.header, checked_some, pure_bind, Table.checkValues]
  split <;> rfl

theorem matchingIds_eq (filter : Condition) :
    matchingIds t filter = safe (t.matchingIds filter) := by
  refine bind_eq_safe fun _ _ => ?_
  rw [matching_eq h.width]
  exact bind_eq_safe fun rows _ => rfl

theorem update_eq (assignments : List Assignment) (filter : Condition) :
    update t assignments filter = safe (t.update assignments filter) := by
  refine bind_eq_safe fun changes hchanges => ?_
  rw [matchingIds_eq h]
  refine bind_eq_safe fun ids _ => ?_
  split
  · rfl
  · have hrows : t.rows.mapM (fun r => if r.id ∈ ids then do
          let cells ← assign changes r.cells
          return { r with cells }
        else return r) = safe (.ok (t.rows.map fun r =>
          if r.id ∈ ids then { r with cells := Table.assign changes r.cells } else r)) := by
      refine mapM_eq_safe fun r hr => ?_
      split
      · have hpos : ∀ x ∈ changes, x.1 < r.cells.length := by
          rw [h.width r hr]
          exact Table.lt_of_assigned hchanges
        rw [assign_eq hpos]
        rfl
      · rfl
    rw [hrows]
    rfl

omit h in
/-- There are no more rows than before. -/
theorem delete_eq (h : t.Rectangular) (filter : Condition) :
    delete t filter = safe (t.delete filter) := by
  rw [delete, matchingIds_eq h]
  refine bind_eq_safe fun ids _ => ?_
  split
  · rfl
  · dsimp only
    rw [minus?_eq (List.length_filter_le _ _)]
    rfl

/-- What a filter keeps of some rows. -/
def kept (header : List Text) (rows : List Row) : Option Condition → Except Error (List Row)
  | some c => c.matching header rows
  | none => .ok rows

omit h in
/-- Judging and showing the rows one by one comes to the same as judging them all first. -/
theorem selectedRows_eq {header : List Text} {rows : List Row}
    (h : ∀ r ∈ rows, r.cells.length = header.length) {positions : List Nat}
    (hp : ∀ i ∈ positions, i < header.length) (filter : Option Condition) :
    selectedRows header filter positions rows =
      safe ((kept header rows filter).map fun rows =>
        rows.map fun r => Table.project positions r.cells) := by
  induction rows with
  | nil => cases filter <;> rfl
  | cons r rows ih =>
      obtain ⟨hr, hrows⟩ := List.forall_mem_cons.mp h
      rw [selectedRows, project_eq (hr ▸ hp), ih hrows]
      cases filter with
      | none => rfl
      | some c =>
          rw [passes, holds_eq hr, kept, kept, Condition.matching]
          cases c.holds header r.cells with
          | error e => rfl
          | ok keep => cases keep <;> cases c.matching header rows <;> rfl

theorem select_eq (items : Items) (filter : Option Condition) :
    select t items filter = safe (t.select items filter) := by
  refine bind_eq_safe fun positions hpositions => ?_
  have hp := Table.lt_of_positions hpositions
  rw [selectedRows_eq h.width hp, project_eq hp]
  cases filter with
  | none => rfl
  | some c =>
      rw [kept, Table.selectedRows]
      dsimp only
      cases c.check t.columns with
      | error e => rfl
      | ok _ => cases c.matching t.columns t.rows <;> rfl

end rectangular

/-! ### Joins -/

/-- The carried columns under the name of their table. -/
def carriedColumns (t : Table) (name : Text) (key : Nat) : Checked Error (List Text) := do
  let columns ← project (t.carried key) t.columns
  return columns.map fun column => name ++ '.' :: column

/-- The carried cells of one left row with each of some right rows that has an equal key. -/
def joinedWith (left right : Table) (leftKey rightKey : Nat) (l : Row) :
    List Row → Checked Error (List (List Text))
  | [] => return []
  | r :: rows => do
    let a ← checked l.cells[leftKey]?
    let b ← checked r.cells[rightKey]?
    if a = b then
      let cells ← project (left.carried leftKey) l.cells
      let others ← project (right.carried rightKey) r.cells
      let more ← joinedWith left right leftKey rightKey l rows
      return (cells ++ others) :: more
    else joinedWith left right leftKey rightKey l rows

/-- The carried cells of every pair of rows with equal keys, in the order of the left rows. -/
def joinedCells (left right : Table) (leftKey rightKey : Nat) :
    List Row → Checked Error (List (List Text))
  | [] => return []
  | l :: rows => do
    let first ← joinedWith left right leftKey rightKey l right.rows
    let more ← joinedCells left right leftKey rightKey rows
    return first ++ more

/-- Two named tables joined where a column of one equals a column of the other. -/
def join (leftName : Text) (left : Table) (rightName : Text) (right : Table)
    (leftColumn rightColumn : Text) : Checked Error ResultSet := do
  let leftKey ← safe (requireColumn left.columns leftColumn)
  let rightKey ← safe (requireColumn right.columns rightColumn)
  let leftColumns ← carriedColumns left leftName leftKey
  let rightColumns ← carriedColumns right rightName rightKey
  let cells ← joinedCells left right leftKey rightKey left.rows
  return {
    columns := idColumn :: (leftColumns ++ rightColumns)
    rows := (cells.zipIdx 1).map fun (cells, n) => .ofNat n :: cells }

theorem carriedColumns_eq (t : Table) (name : Text) (key : Nat) :
    carriedColumns t name key = safe (.ok (t.carriedColumns name key)) := by
  rw [carriedColumns, project_eq Table.lt_of_carried]
  rfl

section join
variable {left right : Table} {leftKey rightKey : Nat} (hleft : leftKey < left.columns.length)
  (hright : rightKey < right.columns.length)
include hleft hright

theorem joinedWith_eq {l : Row} {rows : List Row} (hl : l.cells.length = left.columns.length)
    (hr : ∀ r ∈ rows, r.cells.length = right.columns.length) :
    joinedWith left right leftKey rightKey l rows =
      safe (.ok ((rows.filter fun r => cellAt l.cells leftKey = cellAt r.cells rightKey).map fun r =>
        Table.project (left.carried leftKey) l.cells ++
          Table.project (right.carried rightKey) r.cells)) := by
  induction rows with
  | nil => rfl
  | cons r rows ih =>
      obtain ⟨hr, hrows⟩ := List.forall_mem_cons.mp hr
      rw [joinedWith, checked_cell (hl ▸ hleft), checked_cell (hr ▸ hright), ih hrows,
        project_eq (hl ▸ Table.lt_of_carried), project_eq (hr ▸ Table.lt_of_carried), List.filter_cons]
      change (if cellAt l.cells leftKey = cellAt r.cells rightKey then _ else _) = _
      split
      · next he => rw [if_pos (decide_eq_true he)]; rfl
      · next he => rw [if_neg (by simpa using he)]

theorem joinedCells_eq {rows : List Row} (hl : ∀ l ∈ rows, l.cells.length = left.columns.length)
    (hr : right.Rectangular) :
    joinedCells left right leftKey rightKey rows = safe (.ok (rows.flatMap fun l =>
      (right.rows.filter fun r => cellAt l.cells leftKey = cellAt r.cells rightKey).map fun r =>
        Table.project (left.carried leftKey) l.cells ++
          Table.project (right.carried rightKey) r.cells)) := by
  induction rows with
  | nil => rfl
  | cons l rows ih =>
      obtain ⟨hl, hrows⟩ := List.forall_mem_cons.mp hl
      rw [joinedCells, joinedWith_eq hleft hright hl hr.width, ih hrows]
      rfl

end join

theorem join_eq {left right : Table} (hl : left.Rectangular) (hr : right.Rectangular)
    (leftName rightName leftColumn rightColumn : Text) :
    join leftName left rightName right leftColumn rightColumn =
      safe (Table.join leftName left rightName right leftColumn rightColumn) := by
  refine bind_eq_safe fun leftKey hleft => bind_eq_safe fun rightKey hright => ?_
  rw [carriedColumns_eq, carriedColumns_eq,
    joinedCells_eq (lt_of_requireColumn hleft) (lt_of_requireColumn hright) hl.width hr]
  rfl

/-! ### Counters -/

/-- The next id for a pair of names taken as they are, and the registry after handing it out. -/
def take (database table : Text) : Registry → Checked Error (Nat × Registry)
  | [] => return (1, [⟨database, table, 2⟩])
  | c :: more => do
    if c.database = database ∧ c.table = table then
      let next ← checked (next? c.next)
      return (c.next, { c with next } :: more)
    else
      let (id, more) ← take database table more
      return (id, c :: more)

/-- The next id for a pair of names in any case, and the registry after handing it out. -/
def allocate (database table : Text) (r : Registry) : Checked Error (Nat × Registry) :=
  take database.lowercase table.lowercase r

theorem allocate_eq {r : Registry} (h : r.Unexhausted) (database table : Text) :
    allocate database table r = safe (.ok (r.allocate database table)) := by
  unfold allocate Registry.allocate
  induction r with
  | nil => rfl
  | cons c more ih =>
      obtain ⟨hc, hmore⟩ := List.forall_mem_cons.mp h
      rw [take, Registry.take]
      split
      · have hfits : c.next + 1 < UInt64.size := by omega
        rw [next?_eq hfits, Registry.following_eq hc]
        rfl
      · rw [ih hmore]
        rfl

end Checked

end FlatDb
