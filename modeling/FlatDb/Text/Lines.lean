import FlatDb.Text.Basic

/-! # Lines

A line ends at a line feed; a carriage return right before that line feed belongs to the line
end.  What follows the last line feed is a line too, unless it is empty, and keeps a carriage
return at its end.  The same rule cuts texts and raw bytes, so it is stated for any alphabet. -/

namespace FlatDb.Text

variable {α : Type} [DecidableEq α]

/-- A line without the carriage return that belonged to its end. -/
def dropReturn (cr : α) (line : List α) : List α :=
  if line.getLast? = some cr then line.dropLast else line

/-- The lines among the pieces between line feeds, the first piece given apart. -/
def linesOfPieces (cr : α) : List α → List (List α) → List (List α)
  | last, [] => if last = [] then [] else [last]
  | line, next :: more => dropReturn cr line :: linesOfPieces cr next more

/-- The lines of a list over any alphabet with a line feed and a carriage return. -/
def linesBy (lf cr : α) (xs : List α) : List (List α) :=
  linesOfPieces cr (cut lf xs).1 (cut lf xs).2

/-- The lines of a text. -/
def lines (t : Text) : List Text := linesBy '\n' '\r' t

end FlatDb.Text
