import FlatDb.Condition

/-! # Commands on tables

What each command about rows and columns computes from a table, before anything is stored.

* A change is computed whole: `create`, `alter`, `append`, `update` and `delete` give the new
  table or the reason for refusing, never part of a change.
* `update` and `delete` pick rows by id, and give no table when no row satisfies the condition,
  so that nothing has to be written.
* `select` and `join` give a result set. -/

namespace FlatDb

/-- Column names and rows of cells, as shown to a client. -/
structure ResultSet where
  columns : List Text
  rows : List (List Text)
deriving DecidableEq, Repr

namespace Table

/-! ### Columns -/

/-- Refuses the first column that is the id or that comes a second time. -/
def checkColumns : List Text → List Text → Except Error Unit
  | _, [] => .ok ()
  | seen, column :: more => do
    refuseId column
    if (columnIndex? seen column).isSome then throw (.columnExists column)
    checkColumns (seen ++ [column]) more

/-- A new table with the given columns behind the id. -/
def create (columns : List Text) : Except Error Table := do
  checkColumns [] columns
  return new columns

/-- A table with one column more or less. -/
def alter (t : Table) (alteration : Alteration) (column : Text) : Except Error Table := do
  refuseId column
  match alteration with
  | .add =>
    if (columnIndex? t.columns column).isSome then throw (.columnExists column)
    return t.addColumn column
  | .drop =>
    let i ← requireColumn t.columns column
    return t.dropColumn i

/-! ### Rows -/

/-- Refuses a list of values that does not fill the columns behind the id. -/
def checkValues (t : Table) (values : List Literal) : Except Error Unit :=
  let expected := t.columns.length - 1
  if values.length = expected then .ok () else .error (.valueCount expected values.length)

/-- A table with one more row, made of literals. -/
def append (t : Table) (id : Nat) (values : List Literal) : Table :=
  t.pushRow (Row.new id (values.map Literal.cell))

/-- The positions and texts that assignments put into a row, in order. -/
def assigned (columns : List Text) : List Assignment → Except Error (List (Nat × Text))
  | [] => .ok []
  | a :: more => do
    refuseId a.column
    let i ← requireColumn columns a.column
    let rest ← assigned columns more
    return (i, a.value.cell) :: rest

/-- Cells after assignments; of two assignments to one column the later one stays. -/
def assign (changes : List (Nat × Text)) (cells : List Text) : List Text :=
  changes.foldl (fun cells (i, text) => cells.set i text) cells

/-- The ids of the rows that satisfy a condition on columns the table has. -/
def matchingIds (t : Table) (filter : Condition) : Except Error (List Nat) := do
  filter.check t.columns
  let rows ← filter.matching t.columns t.rows
  return rows.map Row.id

/-- The table with new cells in the rows that satisfy a condition, if there are any. -/
def update (t : Table) (assignments : List Assignment) (filter : Condition) :
    Except Error (Option Table) := do
  let changes ← assigned t.columns assignments
  let ids ← t.matchingIds filter
  if ids = [] then return none
  return some { t with
    rows := t.rows.map fun r =>
      if r.id ∈ ids then { r with cells := assign changes r.cells } else r }

/-- The table without the rows that satisfy a condition, if there are any. -/
def delete (t : Table) (filter : Condition) : Except Error (Option Table) := do
  let ids ← t.matchingIds filter
  if ids = [] then return none
  return some { t with rows := t.rows.filter fun r => r.id ∉ ids }

/-! ### Result sets -/

/-- The cells at the given positions. -/
def project (positions : List Nat) (cells : List Text) : List Text :=
  positions.map (cellAt cells)

/-- The positions of the items of a selection. -/
def positions (t : Table) : Items → Except Error (List Nat)
  | .all => .ok (List.range t.columns.length)
  | .listed columns => requireColumns t.columns columns

/-- The rows of a selection: those that satisfy the condition, if there is one. -/
def selectedRows (t : Table) : Option Condition → Except Error (List Row)
  | none => .ok t.rows
  | some filter => do
    filter.check t.columns
    filter.matching t.columns t.rows

/-- The items of the rows that satisfy a condition. -/
def select (t : Table) (items : Items) (filter : Option Condition) : Except Error ResultSet := do
  let positions ← t.positions items
  let rows ← t.selectedRows filter
  return ⟨project positions t.columns, rows.map fun r => project positions r.cells⟩

/-- The positions a join carries over: all but the id and the key. -/
def carried (t : Table) (key : Nat) : List Nat :=
  (List.range t.columns.length).filter fun i => i ≠ 0 ∧ i ≠ key

/-- The carried columns under the name of their table. -/
def carriedColumns (t : Table) (name : Text) (key : Nat) : List Text :=
  (project (t.carried key) t.columns).map fun column => name ++ '.' :: column

/-- The carried cells of every pair of rows with equal keys, in the order of the left rows. -/
def joinedCells (left right : Table) (leftKey rightKey : Nat) : List (List Text) :=
  left.rows.flatMap fun l =>
    (right.rows.filter fun r => cellAt l.cells leftKey = cellAt r.cells rightKey).map fun r =>
      project (left.carried leftKey) l.cells ++ project (right.carried rightKey) r.cells

/-- Two named tables joined where a column of one equals a column of the other.  The rows of the
result are numbered from 1. -/
def join (leftName : Text) (left : Table) (rightName : Text) (right : Table)
    (leftColumn rightColumn : Text) : Except Error ResultSet := do
  let leftKey ← requireColumn left.columns leftColumn
  let rightKey ← requireColumn right.columns rightColumn
  return {
    columns := idColumn ::
      (left.carriedColumns leftName leftKey ++ right.carriedColumns rightName rightKey)
    rows := ((joinedCells left right leftKey rightKey).zipIdx 1).map fun (cells, n) =>
      .ofNat n :: cells }

end Table

end FlatDb
