import FlatDb.Table
import FlatDb.Text.Lines
import FlatDb.Text.Width

/-! # Drawn responses

How a response is shown on a console.  The first line of a response is its status, which stays as
it is; the lines after it are the records of a table, with cells separated by tabs, and are drawn
as a table in a frame.

* A column is as wide as its widest cell, with one space on both sides.
* A record with fewer cells than another one is filled with empty cells.
* There is a rule above the first record and one below each. -/

namespace FlatDb.Drawing

/-- The most cells a record has. -/
def columnCount (records : List (List Text)) : Nat := (records.map List.length).foldr max 0

/-- The width of the widest cell in a column. -/
def columnWidth (records : List (List Text)) (i : Nat) : Nat :=
  (records.map fun cells => (cellAt cells i).width).foldr max 0

/-- The widths of all columns. -/
def columnWidths (records : List (List Text)) : List Nat :=
  (List.range (columnCount records)).map (columnWidth records)

/-- A rule between records. -/
def rule (widths : List Nat) : Text :=
  '+' :: widths.flatMap fun w => List.replicate (w + 2) '-' ++ ['+']

/-- A cell filled up to the width of its column. -/
def paddedCell (w : Nat) (cell : Text) : Text :=
  ' ' :: cell ++ List.replicate (w - cell.width) ' ' ++ [' ']

/-- The line of a record. -/
def recordLine (widths : List Nat) (cells : List Text) : Text :=
  '|' :: widths.zipIdx.flatMap fun (w, i) => paddedCell w (cellAt cells i) ++ ['|']

/-- Records in a frame. -/
def frame (records : List (List Text)) : Text :=
  let widths := columnWidths records
  Text.join '\n' <|
    rule widths :: records.flatMap fun cells => [recordLine widths cells, rule widths]

/-- The records a response holds after its status. -/
def records (response : Text) : List (List Text) :=
  (Text.lines response).tail.map (Text.splitOn '\t')

/-- The status of a response. -/
def status (response : Text) : Text := (Text.lines response).head?.getD []

/-- A response as shown on a console. -/
def draw (response : Text) : Text :=
  if records response = [] then status response
  else status response ++ '\n' :: frame (records response)

end FlatDb.Drawing
