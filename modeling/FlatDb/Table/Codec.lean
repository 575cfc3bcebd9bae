import FlatDb.Table
import FlatDb.Text.Blank
import FlatDb.Text.Lines

/-! # Tables as text

A table is stored as lines of cells with tabs between them: the header, then one line per row.
Nothing is escaped, so cells hold neither tabs nor line breaks.

Reading is more generous than writing: column names may be surrounded by white space, empty
lines between rows are passed over, lines may end in CR LF, and an id may be written with a plus
sign or leading zeros.  Cells are kept as they stand.  Rows are numbered from 1 behind the
header, empty lines included. -/

namespace FlatDb.Table

/-- Separates cells. -/
def tab : Char := '\t'

/-- Cells as one line, with its line end. -/
def encodeLine (cells : List Text) : Text := Text.join tab cells ++ ['\n']

/-- A table as text. -/
def encode (t : Table) : Text :=
  encodeLine t.columns ++ (t.rows.map fun r => encodeLine r.cells).flatten

/-- Reads the row on the line with the given number, under a header of `width` columns. -/
def decodeRow (width number : Nat) (line : Text) : Except Corruption Row :=
  let cells := Text.splitOn tab line
  if cells.length ≠ width then .error (.cellCount number cells.length width)
  else
    match Text.count? (cells.headD []) with
    | some id => .ok ⟨id, cells⟩
    | none => .error (.badId number)

/-- Reads the rows on the lines from the given number on, passing over empty ones. -/
def decodeRows (width : Nat) : Nat → List Text → Except Corruption (List Row)
  | _, [] => .ok []
  | number, line :: more =>
    if line = [] then decodeRows width (number + 1) more
    else do
      let row ← decodeRow width number line
      let rows ← decodeRows width (number + 1) more
      return row :: rows

/-- Reads a table. -/
def decode (contents : Text) : Except Corruption Table :=
  match Text.lines contents with
  | [] => .error .missingHeader
  | header :: lines =>
    let columns := (Text.splitOn tab header).map Text.trim
    if !Text.sameName (columns.headD []) idColumn then .error .firstColumn
    else (decodeRows columns.length 1 lines).map fun rows => ⟨columns, rows⟩

end FlatDb.Table
