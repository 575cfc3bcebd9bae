import FlatDb.Token

/-! # Commands

The command language as data: eleven commands, the conditions that select rows, and the literals
that conditions compare with and that rows are made of.  Literals are kept as written; a cell
holds the text `Literal.cell`. -/

namespace FlatDb

/-- A value as written in a command. -/
inductive Literal where
  | number (spelling : Text)
  | quoted (body : Text)
  | letter (c : Char)
  | boolean (b : Bool)
  | null
deriving DecidableEq, Repr

/-- The text that a cell holds for a literal. -/
def Literal.cell : Literal → Text
  | number spelling => spelling
  | quoted body => body
  | letter c => [c]
  | boolean true => "TRUE".toList
  | boolean false => "FALSE".toList
  | null => "NULL".toList

/-- A condition on the cells of a row. -/
inductive Condition where
  | compare (column : Text) (op : Operator) (value : Literal)
  | both (left right : Condition)
  | either (left right : Condition)
deriving DecidableEq, Repr

namespace Condition

/-- The columns a condition names, left to right. -/
def columns : Condition → List Text
  | compare column _ _ => [column]
  | both left right | either left right => left.columns ++ right.columns

/-- The height of a condition; a comparison has height one. -/
def height : Condition → Nat
  | compare _ _ _ => 1
  | both left right | either left right => max left.height right.height + 1

end Condition

/-- What a selection shows of each row. -/
inductive Items where
  | all
  | listed (columns : List Text)
deriving DecidableEq, Repr

/-- A new value for one column. -/
structure Assignment where
  column : Text
  value : Literal
deriving DecidableEq, Repr

/-- The two ways to alter a table. -/
inductive Alteration where
  | add
  | drop
deriving DecidableEq, Repr

/-- A command. -/
inductive Command where
  | use (database : Text)
  | createDatabase (database : Text)
  | dropDatabase (database : Text)
  | createTable (table : Text) (columns : List Text)
  | dropTable (table : Text)
  | alter (table : Text) (alteration : Alteration) (column : Text)
  | insert (table : Text) (values : List Literal)
  | select (items : Items) (table : Text) (filter : Option Condition)
  | update (table : Text) (assignments : List Assignment) (filter : Condition)
  | delete (table : Text) (filter : Condition)
  | join (left right leftKey rightKey : Text)
deriving DecidableEq, Repr

/-- The commands about whole databases, which need no database to be selected. -/
def Command.aboutDatabases : Command → Bool
  | use _ | createDatabase _ | dropDatabase _ => true
  | _ => false

end FlatDb
