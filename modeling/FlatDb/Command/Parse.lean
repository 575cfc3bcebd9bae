import FlatDb.Command
import FlatDb.Error

/-! # From tokens to commands

The grammar is read left to right with one token of lookahead.  A `Reader` consumes tokens from
the front of a list and refuses with the production it expected and the tokens left from the
first one that does not fit; the error is reported at that token, or at the end of the text if
there is none.

Conditions have a height of at most 64.  The recursion in `condition` follows the height that is
left, and the limit is checked before anything else is looked at. -/

namespace FlatDb

/-- A production that was expected and the tokens that stand there instead. -/
structure Refusal where
  expected : Production
  rest : List Token
deriving DecidableEq, Repr

/-- Where a refusal is reported in a text of `size` bytes: at the next token, or at the end. -/
def Refusal.position (size : Nat) (r : Refusal) : Nat :=
  match r.rest with
  | t :: _ => t.position
  | [] => size

/-- Reads a value from the front of a list of tokens. -/
abbrev Reader := StateT (List Token) (Except Refusal)

namespace Reader

/-- Refuses at the next token. -/
def refuse {α : Type} (expected : Production) : Reader α :=
  fun tokens => .error ⟨expected, tokens⟩

/-- Reads one token of the kinds accepted by `accept`. -/
def token {α : Type} (expected : Production) (accept : Kind → Option α) : Reader α
  | [] => .error ⟨expected, []⟩
  | t :: rest =>
    match accept t.kind with
    | some a => .ok (a, rest)
    | none => .error ⟨expected, t :: rest⟩

/-- Reads the token of one given kind. -/
def exactly (expected : Production) (kind : Kind) : Reader Unit :=
  token expected fun k => if k = kind then some () else none

/-- Reads a keyword. -/
def keyword (k : Keyword) : Reader Unit := exactly (.keyword k) (.keyword k)

/-- The next token is of a given kind. -/
def nextIs (kind : Kind) : Reader Bool :=
  fun tokens => .ok ((tokens.head?.map Token.kind) == some kind, tokens)

/-- Passes over the next token. -/
def skip : Reader Unit := fun tokens => .ok ((), tokens.tail)

/-- A list of at most `n + 1` items with commas between them. -/
def listUpTo {α : Type} (item : Reader α) : Nat → Reader (List α)
  | 0 => return [← item]
  | n + 1 => do
    let first ← item
    if ← nextIs .comma then
      skip
      return first :: (← listUpTo item n)
    return [first]

/-- A list of one or more items with commas between them.  An item takes at least one token, so
there are no more items than tokens. -/
def listOf {α : Type} (item : Reader α) : Reader (List α) :=
  fun tokens => listUpTo item tokens.length tokens

end Reader

/-! ### Words and values -/

/-- The spelling of a word that is not reserved. -/
def Kind.name? : Kind → Option Text
  | word spelling => some spelling
  | _ => none

/-- The literal a token stands for; a word does only if it is a single character. -/
def Kind.literal? : Kind → Option Literal
  | quoted body => some (.quoted body)
  | number spelling => some (.number spelling)
  | boolean b => some (.boolean b)
  | null => some .null
  | word [c] => some (.letter c)
  | _ => none

/-- The verb a token is. -/
def Kind.verb? : Kind → Option Verb
  | verb v => some v
  | _ => none

/-- The comparison a token is; a single equals sign is none. -/
def Kind.operator? : Kind → Option Operator
  | operator op => some op
  | _ => none

namespace Command

open Reader

/-- A name in a given role. -/
def name (role : Production) : Reader Text := token role Kind.name?

/-- A literal. -/
def value : Reader Literal := token .value Kind.literal?

/-- A list of column names. -/
def names : Reader (List Text) := listOf (name .attributeName)

/-- An assignment. -/
def assignment : Reader Assignment := do
  let column ← name .attributeName
  exactly .assign .assign
  return ⟨column, ← value⟩

/-! ### Conditions -/

/-- The greatest height of a condition. -/
def maxHeight : Nat := 64

/-- The connective between two conditions; true stands for AND. -/
def connective? : Kind → Option Bool
  | .keyword .and => some true
  | .keyword .or => some false
  | _ => none

/-- Two conditions in parentheses with a connective between them, behind the first parenthesis. -/
def compound (inner : Reader Condition) : Reader Condition := do
  let left ← inner
  exactly .parenClose .parenClose
  let isAnd ← token .boolOperator connective?
  exactly .parenOpen .parenOpen
  let right ← inner
  exactly .parenClose .parenClose
  return if isAnd then .both left right else .either left right

/-- A comparison behind its column. -/
def comparison (column : Text) : Reader Condition := do
  let op ← token .operator Kind.operator?
  return .compare column op (← value)

/-- A condition of at most the given height. -/
def condition : Nat → Reader Condition
  | 0 => refuse .shallowerCondition
  | height + 1 => fun tokens =>
    match tokens with
    | ⟨_, .parenOpen⟩ :: rest => compound (condition height) rest
    | ⟨_, .word column⟩ :: rest => comparison column rest
    | _ => .error ⟨.condition, tokens⟩

/-- A condition after the keyword WHERE. -/
def filter : Reader Condition := do
  keyword .where
  condition maxHeight

/-! ### Commands -/

/-- Whether DATABASE or TABLE follows; true stands for DATABASE. -/
def structure? : Kind → Option Bool
  | .keyword .database => some true
  | .keyword .table => some false
  | _ => none

/-- The alteration a token stands for. -/
def alteration? : Kind → Option Alteration
  | .keyword .add => some .add
  | .verb .drop => some .drop
  | _ => none

/-- A command after its verb CREATE. -/
def create : Reader Command := do
  if ← token .structureKind structure? then
    return .createDatabase (← name .databaseName)
  let table ← name .tableName
  if ← nextIs .parenOpen then
    skip
    let columns ← names
    exactly .parenClose .parenClose
    return .createTable table columns
  return .createTable table []

/-- A command after its verb DROP. -/
def dropAny : Reader Command := do
  if ← token .structureKind structure? then
    return .dropDatabase (← name .databaseName)
  return .dropTable (← name .tableName)

/-- A command after its verb ALTER. -/
def alterTable : Reader Command := do
  keyword .table
  let table ← name .tableName
  let alteration ← token .alteration alteration?
  return .alter table alteration (← name .attributeName)

/-- A command after its verb INSERT. -/
def insertInto : Reader Command := do
  keyword .into
  let table ← name .tableName
  keyword .values
  exactly .parenOpen .parenOpen
  let values ← listOf value
  exactly .parenClose .parenClose
  return .insert table values

/-- The items of a selection: a star or a list of columns. -/
def selected : Reader Items := fun tokens =>
  match tokens with
  | ⟨_, .star⟩ :: rest => .ok (.all, rest)
  | ⟨_, .word _⟩ :: _ => (names tokens).map fun (columns, rest) => (.listed columns, rest)
  | _ => .error ⟨.items, tokens⟩

/-- A command after its verb SELECT. -/
def selectFrom : Reader Command := do
  let items ← selected
  keyword .from
  let table ← name .tableName
  if ← nextIs (.keyword .where) then
    return .select items table (some (← filter))
  return .select items table none

/-- A command after its verb UPDATE. -/
def updateTable : Reader Command := do
  let table ← name .tableName
  keyword .set
  let assignments ← listOf assignment
  return .update table assignments (← filter)

/-- A command after its verb DELETE. -/
def deleteFrom : Reader Command := do
  keyword .from
  let table ← name .tableName
  return .delete table (← filter)

/-- A command after its verb JOIN. -/
def joinOn : Reader Command := do
  let left ← name .tableName
  keyword .and
  let right ← name .tableName
  keyword .on
  let leftKey ← name .attributeName
  keyword .and
  let rightKey ← name .attributeName
  return .join left right leftKey rightKey

/-- What follows a verb. -/
def afterVerb : Verb → Reader Command
  | .use => return .use (← name .databaseName)
  | .create => create
  | .drop => dropAny
  | .alter => alterTable
  | .insert => insertInto
  | .select => selectFrom
  | .update => updateTable
  | .delete => deleteFrom
  | .join => joinOn

/-- A command with its semicolon. -/
def terminated : Reader Command := do
  let v ← token .commandType Kind.verb?
  let command ← afterVerb v
  exactly .semicolon .semicolon
  return command

/-- The command that a list of tokens spells, with nothing left over. -/
def ofTokens? (tokens : List Token) : Except Refusal Command :=
  match terminated tokens with
  | .error r => .error r
  | .ok (command, []) => .ok command
  | .ok (_, rest) => .error ⟨.endOfCommand, rest⟩

/-- The command that a text spells. -/
def parse (t : Text) : Except Error Command :=
  match Token.scan t with
  | .error e => .error (.lexical e.fault e.position)
  | .ok tokens =>
    match ofTokens? tokens with
    | .error r => .error (.grammar r.expected (r.position t.size))
    | .ok command => .ok command

end Command

end FlatDb
