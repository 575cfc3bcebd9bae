import FlatDb.Command

/-! # The grammar of commands

Which tokens spell which command, as rules.  A rule relates the kinds of consecutive tokens to the
tree they stand for; the positions of the tokens play no part, and nothing is said about the way in
which tokens are read.

* A list has one or more items, with commas between them (`ListRule`).
* A word in the place of a value is a single character (`ValueRule.letter`).
* A condition is a comparison, or two conditions in parentheses with a connective between them
  (`ConditionRule`); the rules allow conditions of any height.
* A command ends with a semicolon (`CommandRule`), and every command begins with its verb
  (`CommandTypeRule`). -/

namespace FlatDb.Grammar

/-! ### Parts that recur -/

/-- A name is a word. -/
inductive NameRule : List Kind → Text → Prop where
  | word (spelling : Text) : NameRule [.word spelling] spelling

section recurring
variable {α : Type}

/-- One or more items with commas between them. -/
inductive ListRule (item : List Kind → α → Prop) : List Kind → List α → Prop where
  | last {ks : List Kind} {a : α} (h : item ks a) : ListRule item ks [a]
  | more {ks more : List Kind} {a : α} {l : List α} (h : item ks a) (hl : ListRule item more l) :
      ListRule item (ks ++ .comma :: more) (a :: l)

/-- Something that may be left out. -/
inductive OptionalRule (rule : List Kind → α → Prop) : List Kind → Option α → Prop where
  | absent : OptionalRule rule [] none
  | present {ks : List Kind} {a : α} (h : rule ks a) : OptionalRule rule ks (some a)

end recurring

/-- A value. -/
inductive ValueRule : List Kind → Literal → Prop where
  | quoted (body : Text) : ValueRule [.quoted body] (.quoted body)
  | boolean (b : Bool) : ValueRule [.boolean b] (.boolean b)
  | number (spelling : Text) : ValueRule [.number spelling] (.number spelling)
  | letter (c : Char) : ValueRule [.word [c]] (.letter c)
  | null : ValueRule [.null] .null

/-- A column, an equals sign and a value. -/
inductive AssignmentRule : List Kind → Assignment → Prop where
  | intro {column : Text} {ks : List Kind} {v : Literal} (h : ValueRule ks v) :
      AssignmentRule (.word column :: .assign :: ks) ⟨column, v⟩

/-- A condition. -/
inductive ConditionRule : List Kind → Condition → Prop where
  | compare {column : Text} {op : Operator} {ks : List Kind} {v : Literal} (h : ValueRule ks v) :
      ConditionRule (.word column :: .operator op :: ks) (.compare column op v)
  | both {ks ks' : List Kind} {left right : Condition} (hl : ConditionRule ks left)
      (hr : ConditionRule ks' right) :
      ConditionRule (.parenOpen :: (ks ++
        .parenClose :: .keyword .and :: .parenOpen :: (ks' ++ [.parenClose]))) (.both left right)
  | either {ks ks' : List Kind} {left right : Condition} (hl : ConditionRule ks left)
      (hr : ConditionRule ks' right) :
      ConditionRule (.parenOpen :: (ks ++
        .parenClose :: .keyword .or :: .parenOpen :: (ks' ++ [.parenClose]))) (.either left right)

/-! ### Commands -/

/-- A list of columns in parentheses. -/
inductive ColumnsRule : List Kind → List Text → Prop where
  | intro {ks : List Kind} {columns : List Text} (h : ListRule NameRule ks columns) :
      ColumnsRule (.parenOpen :: (ks ++ [.parenClose])) columns

/-- A star or a list of columns. -/
inductive ItemsRule : List Kind → Items → Prop where
  | all : ItemsRule [.star] .all
  | listed {ks : List Kind} {columns : List Text} (h : ListRule NameRule ks columns) :
      ItemsRule ks (.listed columns)

/-- A condition after WHERE. -/
inductive FilterRule : List Kind → Condition → Prop where
  | intro {ks : List Kind} {c : Condition} (h : ConditionRule ks c) :
      FilterRule (.keyword .where :: ks) c

/-- The two ways to alter a table, by the token that stands for them. -/
inductive AlterationRule : Kind → Alteration → Prop where
  | add : AlterationRule (.keyword .add) .add
  | drop : AlterationRule (.verb .drop) .drop

/-- What follows a verb. -/
inductive CommandTypeRule : Verb → List Kind → Command → Prop where
  | use {name : Text} : CommandTypeRule .use [.word name] (.use name)
  | createDatabase {name : Text} :
      CommandTypeRule .create [.keyword .database, .word name] (.createDatabase name)
  | createTable {name : Text} {ks : List Kind} {columns : Option (List Text)}
      (h : OptionalRule ColumnsRule ks columns) :
      CommandTypeRule .create (.keyword .table :: .word name :: ks)
        (.createTable name (columns.getD []))
  | dropDatabase {name : Text} :
      CommandTypeRule .drop [.keyword .database, .word name] (.dropDatabase name)
  | dropTable {name : Text} :
      CommandTypeRule .drop [.keyword .table, .word name] (.dropTable name)
  | alter {name column : Text} {k : Kind} {alteration : Alteration}
      (h : AlterationRule k alteration) :
      CommandTypeRule .alter [.keyword .table, .word name, k, .word column]
        (.alter name alteration column)
  | insert {name : Text} {ks : List Kind} {values : List Literal} (h : ListRule ValueRule ks values) :
      CommandTypeRule .insert
        (.keyword .into :: .word name :: .keyword .values :: .parenOpen :: (ks ++ [.parenClose]))
        (.insert name values)
  | select {name : Text} {ks ks' : List Kind} {items : Items} {filter : Option Condition}
      (hi : ItemsRule ks items) (hf : OptionalRule FilterRule ks' filter) :
      CommandTypeRule .select (ks ++ .keyword .from :: .word name :: ks') (.select items name filter)
  | update {name : Text} {ks ks' : List Kind} {assignments : List Assignment} {filter : Condition}
      (ha : ListRule AssignmentRule ks assignments) (hf : FilterRule ks' filter) :
      CommandTypeRule .update (.word name :: .keyword .set :: (ks ++ ks'))
        (.update name assignments filter)
  | delete {name : Text} {ks : List Kind} {filter : Condition} (h : FilterRule ks filter) :
      CommandTypeRule .delete (.keyword .from :: .word name :: ks) (.delete name filter)
  | join {left right leftKey rightKey : Text} :
      CommandTypeRule .join
        [.word left, .keyword .and, .word right, .keyword .on, .word leftKey, .keyword .and,
          .word rightKey]
        (.join left right leftKey rightKey)

/-- A whole command. -/
inductive CommandRule : List Kind → Command → Prop where
  | intro {v : Verb} {ks : List Kind} {c : Command} (h : CommandTypeRule v ks c) :
      CommandRule (.verb v :: (ks ++ [.semicolon])) c

end FlatDb.Grammar

namespace FlatDb.Command

/-- The condition of a command, if it has one. -/
def restriction? : Command → Option Condition
  | select _ _ filter => filter
  | update _ _ filter | delete _ filter => some filter
  | _ => none

end FlatDb.Command
