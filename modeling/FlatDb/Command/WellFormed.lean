import FlatDb.Command
import FlatDb.Token.Spelling

/-! # Well-formed commands

The commands that can be written down: every name is an identifier, every value is spelled as its
kind asks for, the lists that may not be left out are not empty, and no condition is higher than
64. -/

namespace FlatDb

open Text

/-- A value that can be written down; a single character is a letter. -/
def Literal.WellFormed : Literal → Prop
  | number spelling => IsNumber spelling
  | quoted body => IsQuotable body
  | letter c => c.isAlpha = true
  | boolean _ | null => True

/-- The columns are identifiers and the values can be written down. -/
def Condition.WellFormed : Condition → Prop
  | compare column _ value => IsIdentifier column ∧ value.WellFormed
  | both left right | either left right => left.WellFormed ∧ right.WellFormed

/-- A condition that is not too high. -/
def Condition.Admissible (c : Condition) : Prop := c.WellFormed ∧ c.height ≤ 64

/-- A star, or identifiers. -/
def Items.WellFormed : Items → Prop
  | all => True
  | listed columns => columns ≠ [] ∧ ∀ n ∈ columns, IsIdentifier n

/-- The column is an identifier and the value can be written down. -/
def Assignment.WellFormed (a : Assignment) : Prop := IsIdentifier a.column ∧ a.value.WellFormed

/-- A command that can be written down. -/
def Command.WellFormed : Command → Prop
  | use name | createDatabase name | dropDatabase name | dropTable name => IsIdentifier name
  | createTable name columns => IsIdentifier name ∧ ∀ n ∈ columns, IsIdentifier n
  | alter name _ column => IsIdentifier name ∧ IsIdentifier column
  | insert name values => IsIdentifier name ∧ values ≠ [] ∧ ∀ v ∈ values, v.WellFormed
  | select items name filter =>
    items.WellFormed ∧ IsIdentifier name ∧ ∀ c, filter = some c → c.Admissible
  | update name assignments filter =>
    IsIdentifier name ∧ (assignments ≠ [] ∧ ∀ a ∈ assignments, a.WellFormed) ∧ filter.Admissible
  | delete name filter => IsIdentifier name ∧ filter.Admissible
  | join left right leftKey rightKey =>
    IsIdentifier left ∧ IsIdentifier right ∧ IsIdentifier leftKey ∧ IsIdentifier rightKey

end FlatDb
