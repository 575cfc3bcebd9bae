import FlatDb.Text.Basic

/-! # Tokens

The words and signs of the command language.

* `Verb` opens a command, `Keyword` stands inside one, and `Operator` compares; a reserved word
  is recognised in any mixture of upper and lower case (`Kind.ofWord`).
* Numbers, words and quoted texts carry their characters; a quoted text is carried without its
  quotes.
* A `Token` is a kind with the byte offset at which it begins. -/

namespace FlatDb

/-- The reserved words that open a command. -/
inductive Verb where
  | use | create | drop | alter | insert | select | update | delete | join
deriving DecidableEq, Repr

/-- The reserved words that give a command its structure. -/
inductive Keyword where
  | «from» | «where» | into | values | set | and | or | on | database | table | add
deriving DecidableEq, Repr

/-- The comparisons a condition may use. -/
inductive Operator where
  | equal | notEqual | greater | greaterOrEqual | less | lessOrEqual | like
deriving DecidableEq, Repr

/-- What a token is. -/
inductive Kind where
  | comma
  | parenOpen
  | parenClose
  | semicolon
  | star
  | assign
  | verb (v : Verb)
  | keyword (k : Keyword)
  | operator (op : Operator)
  | number (spelling : Text)
  | word (spelling : Text)
  | quoted (body : Text)
  | boolean (b : Bool)
  | null
deriving DecidableEq, Repr

/-- A token and the byte offset at which it begins. -/
structure Token where
  position : Nat
  kind : Kind
deriving DecidableEq, Repr

/-! ### Spelling -/

/-- The verbs in order of their declaration. -/
def Verb.all : List Verb := [use, create, drop, alter, insert, select, update, delete, join]

/-- The usual spelling of a verb. -/
def Verb.text : Verb → Text
  | use => "USE".toList
  | create => "CREATE".toList
  | drop => "DROP".toList
  | alter => "ALTER".toList
  | insert => "INSERT".toList
  | select => "SELECT".toList
  | update => "UPDATE".toList
  | delete => "DELETE".toList
  | join => "JOIN".toList

/-- The keywords in order of their declaration. -/
def Keyword.all : List Keyword :=
  [«from», «where», into, values, set, and, or, on, database, table, add]

/-- The usual spelling of a keyword. -/
def Keyword.text : Keyword → Text
  | «from» => "FROM".toList
  | «where» => "WHERE".toList
  | into => "INTO".toList
  | values => "VALUES".toList
  | set => "SET".toList
  | and => "AND".toList
  | or => "OR".toList
  | on => "ON".toList
  | database => "DATABASE".toList
  | table => "TABLE".toList
  | add => "ADD".toList

/-- The spelling of an operator. -/
def Operator.text : Operator → Text
  | equal => "==".toList
  | notEqual => "!=".toList
  | greater => ">".toList
  | greaterOrEqual => ">=".toList
  | less => "<".toList
  | lessOrEqual => "<=".toList
  | like => "LIKE".toList

/-- Every reserved word in its usual spelling, with what it stands for. -/
def Kind.reserved : List (Text × Kind) :=
  Verb.all.map (fun v => (v.text, .verb v)) ++
  Keyword.all.map (fun k => (k.text, .keyword k)) ++
  [(Operator.like.text, .operator .like), ("TRUE".toList, .boolean true),
    ("FALSE".toList, .boolean false), ("NULL".toList, .null)]

/-- What a run of letters and digits stands for: a reserved word in any case, or itself. -/
def Kind.ofWord (spelling : Text) : Kind :=
  match reserved.find? fun (name, _) => Text.sameName name spelling with
  | some (_, kind) => kind
  | none => .word spelling

end FlatDb
