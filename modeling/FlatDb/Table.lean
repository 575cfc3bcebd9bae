import FlatDb.Error

/-! # Tables

A table is a header of column names and a list of rows.  The first column is the id: the first
cell of a row is the written form of the row's id, and a new table has it in front of the
columns it is made with.  Columns are found by name, ignoring the case of letters, and the first
match counts. -/

namespace FlatDb

/-- The name of the first column of every table. -/
def idColumn : Text := "id".toList

/-- A row: its id and one cell per column, the first of which is the written id. -/
structure Row where
  id : Nat
  cells : List Text
deriving DecidableEq, Repr

/-- The row with the given id and the given values after it. -/
def Row.new (id : Nat) (values : List Text) : Row := ⟨id, .ofNat id :: values⟩

/-- Column names and rows. -/
structure Table where
  columns : List Text
  rows : List Row
deriving DecidableEq, Repr

/-- The position of a column in a header. -/
def columnIndex? (columns : List Text) (name : Text) : Option Nat :=
  columns.findIdx? (Text.sameName · name)

/-- The position of a column in a header that has to have it. -/
def requireColumn (columns : List Text) (name : Text) : Except Error Nat :=
  match columnIndex? columns name with
  | some i => .ok i
  | none => .error (.columnNotFound name)

/-- The positions of columns in a header that has to have them all. -/
def requireColumns (columns : List Text) : List Text → Except Error (List Nat)
  | [] => .ok []
  | name :: names => do
    let i ← requireColumn columns name
    let more ← requireColumns columns names
    return i :: more

/-- The cell at a column; a row too short for the header is empty there. -/
def cellAt (cells : List Text) (i : Nat) : Text := (cells[i]?).getD []

/-- The id column cannot be declared, altered or assigned. -/
def refuseId (column : Text) : Except Error Unit :=
  if Text.sameName column idColumn then .error (.protectedColumn column) else .ok ()

namespace Table

/-- The empty table with an id column and then the given ones. -/
def new (columns : List Text) : Table := ⟨idColumn :: columns, []⟩

/-- A column at the end, empty in every row. -/
def addColumn (t : Table) (name : Text) : Table where
  columns := t.columns ++ [name]
  rows := t.rows.map fun r => { r with cells := r.cells ++ [[]] }

/-- The table without the column at a position. -/
def dropColumn (t : Table) (i : Nat) : Table where
  columns := t.columns.eraseIdx i
  rows := t.rows.map fun r => { r with cells := r.cells.eraseIdx i }

/-- The table with one more row at its end. -/
def pushRow (t : Table) (r : Row) : Table := { t with rows := t.rows ++ [r] }

end Table

end FlatDb
