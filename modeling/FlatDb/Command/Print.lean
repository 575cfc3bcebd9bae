import FlatDb.Command

/-! # Commands as text

One spelling for each command: reserved words in capitals, lists separated by commas alone, both
sides of a compound condition in parentheses, and a semicolon at the end. -/

namespace FlatDb

/-- A literal as it is written; a quoted text stands in quotes. -/
def Literal.print : Literal → Text
  | quoted body => '\'' :: body ++ ['\'']
  | value => value.cell

/-- An operator between its operands: signs stand without blanks. -/
def Operator.print : Operator → Text
  | like => " LIKE ".toList
  | op => op.text

/-- A condition as it is written. -/
def Condition.print : Condition → Text
  | compare column op value => column ++ op.print ++ value.print
  | both left right => '(' :: left.print ++ ") AND (".toList ++ right.print ++ [')']
  | either left right => '(' :: left.print ++ ") OR (".toList ++ right.print ++ [')']

/-- The items of a selection as they are written. -/
def Items.print : Items → Text
  | all => ['*']
  | listed columns => Text.join ',' columns

/-- An assignment as it is written. -/
def Assignment.print (a : Assignment) : Text := a.column ++ '=' :: a.value.print

/-- An alteration as it is written. -/
def Alteration.print : Alteration → Text
  | add => "ADD".toList
  | drop => "DROP".toList

namespace Command

/-- A command without its semicolon. -/
def body : Command → Text
  | use database => "USE ".toList ++ database
  | createDatabase database => "CREATE DATABASE ".toList ++ database
  | dropDatabase database => "DROP DATABASE ".toList ++ database
  | createTable table columns =>
    "CREATE TABLE ".toList ++ table ++
      if columns = [] then [] else '(' :: Text.join ',' columns ++ [')']
  | dropTable table => "DROP TABLE ".toList ++ table
  | alter table alteration column =>
    "ALTER TABLE ".toList ++ table ++ ' ' :: alteration.print ++ ' ' :: column
  | insert table values =>
    "INSERT INTO ".toList ++ table ++ " VALUES(".toList ++
      Text.join ',' (values.map Literal.print) ++ [')']
  | select items table filter =>
    "SELECT ".toList ++ items.print ++ " FROM ".toList ++ table ++
      match filter with
      | some condition => " WHERE ".toList ++ condition.print
      | none => []
  | update table assignments filter =>
    "UPDATE ".toList ++ table ++ " SET ".toList ++
      Text.join ',' (assignments.map Assignment.print) ++ " WHERE ".toList ++ filter.print
  | delete table filter => "DELETE FROM ".toList ++ table ++ " WHERE ".toList ++ filter.print
  | join left right leftKey rightKey =>
    "JOIN ".toList ++ left ++ " AND ".toList ++ right ++ " ON ".toList ++ leftKey ++
      " AND ".toList ++ rightKey

/-- A command as it is written. -/
def print (c : Command) : Text := c.body ++ [';']

end Command

end FlatDb
