import FlatDb.Token

/-! # Productions of the grammar

What the reader of commands can expect next.  A refused command names the production that was
expected at the first token that does not fit. -/

namespace FlatDb

/-- A production that may be expected. -/
inductive Production where
  | commandType
  | semicolon
  | endOfCommand
  | structureKind
  | databaseName
  | tableName
  | attributeName
  | alteration
  | value
  | operator
  | boolOperator
  | condition
  | shallowerCondition
  | items
  | assign
  | parenOpen
  | parenClose
  | keyword (k : Keyword)
deriving DecidableEq, Repr

/-- The name under which a production is reported. -/
def Production.text : Production → Text
  | commandType =>
    "CommandType (one of USE, CREATE, DROP, ALTER, INSERT, SELECT, UPDATE, DELETE or JOIN)".toList
  | semicolon => "';'".toList
  | endOfCommand => "end of command after ';'".toList
  | structureKind => "DATABASE or TABLE".toList
  | databaseName => "DatabaseName".toList
  | tableName => "TableName".toList
  | attributeName => "AttributeName".toList
  | alteration => "AlterationType (ADD or DROP)".toList
  | value => "Value".toList
  | operator => "Operator (one of ==, >, <, >=, <=, != or LIKE)".toList
  | boolOperator => "BoolOperator (AND or OR)".toList
  | condition => "Condition".toList
  | shallowerCondition => "Condition nested less deeply".toList
  | items => "WildAttribList ('*' or AttributeList)".toList
  | assign => "'='".toList
  | parenOpen => "'('".toList
  | parenClose => "')'".toList
  | keyword k => k.text

end FlatDb
