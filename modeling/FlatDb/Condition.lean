import FlatDb.Command
import FlatDb.Number
import FlatDb.Table
import FlatDb.Text.Lowercase

/-! # Conditions on rows

A comparison relates a cell to a literal.

* Equality is equality of texts.
* The order is numeric when both sides are numbers, and otherwise the order of texts by code
  point, which is also the order of their UTF-8 forms.
* LIKE asks whether the literal occurs in the cell, both in lower case.

`Condition.holds` judges one row, left to right and no further than needed.
`Condition.check` looks at all columns named, whether or not any row would reach them. -/

namespace FlatDb

/-- The order of texts by code point. -/
def compareTexts : Text → Text → Ordering
  | [], [] => .eq
  | [], _ :: _ => .lt
  | _ :: _, [] => .gt
  | a :: as, b :: bs =>
    if a.toNat < b.toNat then .lt
    else if b.toNat < a.toNat then .gt
    else compareTexts as bs

/-- The order of cells: by value if both are numbers, else as texts. -/
def compareCells (a b : Text) : Ordering :=
  match number? a, number? b with
  | some x, some y => compare x y
  | _, _ => compareTexts a b

/-- One text occurs in another. -/
def occursIn (part : Text) : Text → Bool
  | [] => part.isEmpty
  | c :: cs => part.isPrefixOf (c :: cs) || occursIn part cs

/-- Whether a cell stands in a relation to the text of a literal. -/
def Operator.relates (op : Operator) (cell literal : Text) : Bool :=
  match op with
  | equal => cell == literal
  | notEqual => cell != literal
  | greater => compareCells cell literal == .gt
  | greaterOrEqual => compareCells cell literal != .lt
  | less => compareCells cell literal == .lt
  | lessOrEqual => compareCells cell literal != .gt
  | like => occursIn literal.lowercase cell.lowercase

namespace Condition

/-- Whether a row with the given cells satisfies a condition, under a header of columns. -/
def holds (header cells : List Text) : Condition → Except Error Bool
  | compare column op value => do
    let i ← requireColumn header column
    return op.relates (cellAt cells i) value.cell
  | both left right => do
    if ← left.holds header cells then right.holds header cells else return false
  | either left right => do
    if ← left.holds header cells then return true else right.holds header cells

/-- Refuses a condition that names a column the header lacks; the leftmost one is reported. -/
def check (header : List Text) (c : Condition) : Except Error Unit :=
  (requireColumns header c.columns).map fun _ => ()

/-- The rows, of those given, that satisfy a condition. -/
def matching (header : List Text) (c : Condition) : List Row → Except Error (List Row)
  | [] => .ok []
  | r :: rows => do
    let keep ← c.holds header r.cells
    let rest ← c.matching header rows
    return if keep then r :: rest else rest

end Condition

end FlatDb
