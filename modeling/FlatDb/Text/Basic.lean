/-! # Text

A text is the list of its characters.

* Offsets into a text are counted in bytes of its UTF-8 form (`Text.size`).
* Names of databases, tables and columns are the same when they agree up to the case of the
  letters A to Z (`Text.sameName`); no other letter is folded.
* `Text.splitOn` and `Text.join` cut a text at a separator and put the pieces together again. -/

namespace FlatDb

/-- A text is the list of its characters. -/
abbrev Text := List Char

namespace Text

/-- Number of bytes of the UTF-8 form. -/
def size : Text → Nat
  | [] => 0
  | c :: t => c.utf8Size + size t

/-! ### Names -/

/-- The letters A to Z in lower case, everything else as it is. -/
def foldCase (t : Text) : Text := t.map Char.toLower

/-- Equality up to the case of the letters A to Z. -/
def sameName (a b : Text) : Bool := foldCase a == foldCase b

/-! ### Separators -/

variable {α : Type} [DecidableEq α]

/-- The piece before the first separator and the pieces after it. -/
def cut (sep : α) : List α → List α × List (List α)
  | [] => ([], [])
  | x :: xs =>
    let (piece, more) := cut sep xs
    if x = sep then ([], piece :: more) else (x :: piece, more)

/-- All pieces between separators: one more than there are separators. -/
def splitOn (sep : α) (xs : List α) : List (List α) :=
  (cut sep xs).1 :: (cut sep xs).2

omit [DecidableEq α] in
/-- The pieces with one separator between neighbours. -/
def join (sep : α) : List (List α) → List α
  | [] => []
  | [piece] => piece
  | piece :: more => piece ++ sep :: join sep more

end Text

end FlatDb
