import FlatDb.Error
import FlatDb.Text.Blank
import FlatDb.Text.Lines
import FlatDb.Text.Lowercase

/-! # The registry of ids

Ids are never handed out twice, not even after a table was dropped, so the next id of a table is
kept apart from the table: in a registry with one counter for each pair of a database and a
table, named in lower case.  It is stored with one line per counter, the three fields separated
by colons.  Blank lines are passed over when it is read and white space around a line is
ignored. -/

namespace FlatDb

/-- The next id of one table. -/
structure Counter where
  database : Text
  table : Text
  next : Nat
deriving DecidableEq, Repr

/-- The counters in the order of their first use. -/
abbrev Registry := List Counter

namespace Registry

/-! ### Handing out ids -/

/-- The id after an id.  Ids have 64 bits, and the one after the largest is 0. -/
def following (id : Nat) : Nat := (id + 1) % UInt64.size

/-- The next id for a pair of names taken as they are, and the registry after handing it out.
The first counter for the pair counts; a pair without one starts at 1. -/
def take (database table : Text) : Registry → Nat × Registry
  | [] => (1, [⟨database, table, 2⟩])
  | c :: more =>
    if c.database = database ∧ c.table = table then
      (c.next, { c with next := following c.next } :: more)
    else
      let (id, more) := take database table more
      (id, c :: more)

/-- The next id for a pair of names in any case, and the registry after handing it out. -/
def allocate (database table : Text) (r : Registry) : Nat × Registry :=
  take database.lowercase table.lowercase r

/-! ### Registries as text -/

/-- Separates the fields of a counter. -/
def colon : Char := ':'

/-- A counter as a line, with its line end. -/
def encodeLine (c : Counter) : Text :=
  Text.join colon [c.database, c.table, Text.ofNat c.next] ++ ['\n']

/-- A registry as text. -/
def encode (r : Registry) : Text := (r.map encodeLine).flatten

/-- Reads the counter on the line with the given number. -/
def decodeLine (number : Nat) (line : Text) : Except Corruption Counter :=
  match Text.splitOn colon line.trim with
  | [database, table, next] =>
    match Text.count? next with
    | some n => .ok ⟨database, table, n⟩
    | none => .error (.counterLine number)
  | _ => .error (.counterLine number)

/-- Reads the counters on the lines from the given number on, passing over blank ones. -/
def decodeLines : Nat → List Text → Except Corruption Registry
  | _, [] => .ok []
  | number, line :: more =>
    if Text.allBlank line then decodeLines (number + 1) more
    else do
      let counter ← decodeLine number line
      let counters ← decodeLines (number + 1) more
      return counter :: counters

/-- Reads a registry; lines are numbered from 1. -/
def decode (contents : Text) : Except Corruption Registry := decodeLines 1 (Text.lines contents)

end Registry

end FlatDb
