import FlatDb.Proofs.Checked.Lexer
import FlatDb.Proofs.Grammar

/-! # The parser, with a cursor

The parser keeps the index of the next token.  It moves on even behind the last token, so that an error
can be reported at the token just eaten; a word, a number or a quoted text is taken out of the text when
it is eaten.  How deep conditions may still nest is counted down on the way in and up on the way out.

* `AgreesAt` relates the parser at a cursor to a reader on the tokens from there on, and `Agrees` does so
  at all positions.  There is one lemma for each way of putting readers together.
* `agrees_token` is the step: what is eaten is at hand, the range of bytes is good, and the token before
  the cursor is there to be reported.
* `agrees_listOf` and `agrees_condition` are the loops: the tokens run out before the fuel does, and the
  depth before that.
* `parse_eq`: **the parser does not break off**, whatever the text. -/

namespace FlatDb

/-- A refusal as an error in a text of `size` bytes. -/
def Refusal.toError (size : Nat) (r : Refusal) : Error := .grammar r.expected (r.position size)

namespace Checked

/-- Where the parser stands: the index of the next token, and how deep conditions may still nest. -/
structure Cursor where
  pos : Nat
  depth : Nat

/-- Programs that move a cursor. -/
abbrev Parser := StateT Cursor (Checked Error)

variable {α β : Type}

/-! ### Moves of the cursor -/

section moves
variable (text : Text) (lexed : List Lexed)

/-- The next token, if there is one. -/
def peek : Parser (Option Lexeme) :=
  fun cursor => return (lexed[cursor.pos]?.map Lexed.lexeme, cursor)

/-- Passes over the next token, or moves on behind the last one. -/
def skip : Parser Unit := fun cursor => return ((), { cursor with pos := cursor.pos + 1 })

/-- The next token, which is passed over. -/
def eat : Parser (Option Lexeme) := do
  let lexeme ← peek lexed
  skip
  return lexeme

/-- The offset of the token at an index, or the end of the text. -/
def positionOf (i : Nat) : Nat :=
  match lexed[i]? with
  | some x => x.position
  | none => text.size

/-- Fails at the next token. -/
def refuse (expected : Production) : Parser α :=
  fun cursor => throw (.grammar expected (positionOf text lexed cursor.pos))

/-- Fails at the token just eaten. -/
def refusePrevious (expected : Production) : Parser α := fun cursor => do
  let i ← checked (minus? cursor.pos 1)
  throw (.grammar expected (positionOf text lexed i))

/-- Eats a token that `accept` takes. -/
def token (expected : Production) (accept : Lexeme → Checked Error (Option α)) : Parser α := do
  match ← eat lexed with
  | none => refusePrevious text lexed expected
  | some lexeme =>
    match ← accept lexeme with
    | some a => return a
    | none => refusePrevious text lexed expected

/-- Takes tokens that carry no text. -/
def onPlain (accept : Kind → Option α) : Lexeme → Checked Error (Option α)
  | .plain kind => return accept kind
  | _ => return none

/-- Eats the token of one given kind. -/
def exactly (expected : Production) (kind : Kind) : Parser Unit :=
  token text lexed expected (onPlain fun k => if k = kind then some () else none)

/-- Eats a keyword. -/
def keyword (k : Keyword) : Parser Unit := exactly text lexed (.keyword k) (.keyword k)

/-- The next token is of a given kind. -/
def nextIs (kind : Kind) : Parser Bool := do
  return (← peek lexed) == some (.plain kind)

/-- Items with commas between them, at most `fuel` of them. -/
def listUpTo (item : Parser α) : Nat → Parser (List α)
  | 0 => fun _ => broken
  | fuel + 1 => do
    let first ← item
    if ← nextIs lexed .comma then
      skip
      return first :: (← listUpTo item fuel)
    return [first]

/-- A list of one or more items with commas between them. -/
def listOf (item : Parser α) : Parser (List α) := listUpTo lexed item (lexed.length + 1)

/-- Goes one level deeper, if there is a level left, and comes back. -/
def deeper (p : Parser α) : Parser α := fun cursor => do
  if cursor.depth = 0 then
    throw (.grammar .shallowerCondition (positionOf text lexed cursor.pos))
  else
    let depth ← checked (minus? cursor.depth 1)
    let (a, after) ← p { cursor with depth }
    return (a, { after with depth := after.depth + 1 })

end moves

/-! ### Against a reader -/

/-- The parser has the result of a reader and stands where the tokens that the reader left begin. -/
def Leaves (tokens : List Token) (depth : Nat) (x : α × Cursor) (y : α × List Token) : Prop :=
  x.1 = y.1 ∧ y.2 = tokens.drop x.2.pos ∧ x.2.depth = depth

/-- At a cursor the parser does what a reader does on the tokens from there on. -/
def AgreesAt (text : Text) (tokens : List Token) (p : Parser α) (r : Reader α) (cursor : Cursor) :
    Prop :=
  Refines (Leaves tokens cursor.depth) (p cursor)
    ((r (tokens.drop cursor.pos)).mapError (Refusal.toError text.size))

/-- At every position the parser does what a reader does. -/
def Agrees (text : Text) (tokens : List Token) (depth : Nat) (p : Parser α) (r : Reader α) : Prop :=
  ∀ pos, AgreesAt text tokens p r ⟨pos, depth⟩

variable {text : Text} {tokens : List Token} {depth : Nat} {p : Parser α} {r : Reader α}

theorem mapError_bind {ε ε' : Type} (e : ε → ε') (x : Except ε α) (f : α → Except ε β) :
    (x >>= f).mapError e = x.mapError e >>= fun a => (f a).mapError e := by
  cases x <;> rfl

/-- Only what the reader does at the cursor counts. -/
theorem AgreesAt.of_eq {cursor : Cursor} {s : Reader α} (h : AgreesAt text tokens p r cursor)
    (he : s (tokens.drop cursor.pos) = r (tokens.drop cursor.pos)) :
    AgreesAt text tokens p s cursor := by
  unfold AgreesAt
  rw [he]
  exact h

theorem AgreesAt.bind {cursor : Cursor} {f : α → Parser β} {g : α → Reader β}
    (h : AgreesAt text tokens p r cursor)
    (hf : ∀ a next, r (tokens.drop cursor.pos) = .ok (a, tokens.drop next) →
      AgreesAt text tokens (f a) (g a) ⟨next, cursor.depth⟩) :
    AgreesAt text tokens (p >>= f) (r >>= g) cursor := by
  have hr : ((r >>= g) (tokens.drop cursor.pos)).mapError (Refusal.toError text.size) =
      (r (tokens.drop cursor.pos)).mapError (Refusal.toError text.size) >>=
        fun x => (g x.1 x.2).mapError (Refusal.toError text.size) := mapError_bind _ _ _
  unfold AgreesAt
  rw [hr]
  refine Refines.bind h ?_
  rintro ⟨a, next, _⟩ ⟨_, _⟩ ⟨rfl, rfl, rfl⟩ hok
  exact hf a next (mapError_eq_ok_iff.mp hok)

theorem Agrees.bind {f : α → Parser β} {g : α → Reader β} (h : Agrees text tokens depth p r)
    (hf : ∀ a, Agrees text tokens depth (f a) (g a)) :
    Agrees text tokens depth (p >>= f) (r >>= g) :=
  fun pos => (h pos).bind fun a next _ => hf a next

theorem agrees_pure (a : α) : Agrees text tokens depth (pure a) (pure a) :=
  fun _ => .ok ⟨rfl, rfl, rfl⟩

theorem Agrees.ite {q : Parser α} {s : Reader α} (b : Bool) (h : Agrees text tokens depth p r)
    (h' : Agrees text tokens depth q s) :
    Agrees text tokens depth (if b = true then p else q) (if b = true then r else s) := by
  cases b
  · exact h'
  · exact h

theorem agrees_skip : Agrees text tokens depth skip Reader.skip := by
  intro pos
  refine .ok ⟨rfl, ?_, rfl⟩
  show (tokens.drop pos).tail = tokens.drop (pos + 1)
  exact List.tail_drop

section lexed
variable {lexed : List Lexed} (hl : List.Forall₂ (Lexed.Means text) lexed tokens)
include hl

/-- What stands at an index: nothing on either side, or a token and its lexeme. -/
theorem at_cases (pos : Nat) :
    (lexed[pos]? = none ∧ tokens.drop pos = []) ∨
      ∃ x t, lexed[pos]? = some x ∧ x.Means text t ∧ tokens.drop pos = t :: tokens.drop (pos + 1) := by
  have hlen := hl.length_eq
  rcases Nat.lt_or_ge pos lexed.length with hpos | hpos
  · have hpos' : pos < tokens.length := hlen ▸ hpos
    exact .inr ⟨lexed[pos], tokens[pos], List.getElem?_eq_getElem hpos, hl.get hpos hpos',
      List.drop_eq_getElem_cons hpos'⟩
  · exact .inl ⟨List.getElem?_eq_none hpos, List.drop_eq_nil_of_le (hlen ▸ hpos)⟩

/-- An error is reported where a reader reports it. -/
theorem positionOf_eq (expected : Production) (pos : Nat) :
    Error.grammar expected (positionOf text lexed pos) =
      Refusal.toError text.size ⟨expected, tokens.drop pos⟩ := by
  unfold positionOf
  rcases at_cases hl pos with ⟨hx, hd⟩ | ⟨x, t, hx, hm, hd⟩
  · rw [hx, hd]
    rfl
  · rw [hx, hd]
    exact congrArg (Error.grammar expected) hm.position

theorem agrees_refuse (expected : Production) :
    Agrees text tokens depth (refuse text lexed expected : Parser α) (Reader.refuse expected) := by
  intro pos
  show Refines _ (throw (Error.grammar expected (positionOf text lexed pos))) _
  rw [positionOf_eq hl]
  exact .error _

/-- A look at the next token, which decides how to go on. -/
theorem agrees_peek {f : Option Lexeme → Parser α} {pos : Nat}
    (hnone : tokens.drop pos = [] → AgreesAt text tokens (f none) r ⟨pos, depth⟩)
    (hsome : ∀ lexeme position kind, lexeme.Means text kind →
      tokens.drop pos = ⟨position, kind⟩ :: tokens.drop (pos + 1) →
        AgreesAt text tokens (f (some lexeme)) r ⟨pos, depth⟩) :
    AgreesAt text tokens (peek lexed >>= f) r ⟨pos, depth⟩ := by
  have hpeek : (peek lexed >>= f) ⟨pos, depth⟩ = f (lexed[pos]?.map Lexed.lexeme) ⟨pos, depth⟩ := rfl
  unfold AgreesAt
  rw [hpeek]
  rcases at_cases hl pos with ⟨hx, hd⟩ | ⟨x, t, hx, hm, hd⟩
  · rw [hx]
    exact hnone hd
  · rw [hx]
    exact hsome _ t.position t.kind hm.kind hd

/-- **A token is eaten.**  Its range of bytes is good, and if it is refused there is a token before the
cursor to report, or the end of the text. -/
theorem agrees_token {expected : Production} {accept : Lexeme → Checked Error (Option α)}
    {accept' : Kind → Option α} (h : ∀ x k, x.Means text k → accept x = pure (accept' k)) :
    Agrees text tokens depth (token text lexed expected accept) (Reader.token expected accept') := by
  intro pos
  have hprevious : (refusePrevious text lexed expected : Parser α) ⟨pos + 1, depth⟩ =
      throw (Refusal.toError text.size ⟨expected, tokens.drop pos⟩) := by
    rw [← positionOf_eq hl]
    rfl
  have htoken : token text lexed expected accept ⟨pos, depth⟩ =
      (match lexed[pos]?.map Lexed.lexeme with
        | none => refusePrevious text lexed expected
        | some lexeme => do
          match ← accept lexeme with
          | some a => return a
          | none => refusePrevious text lexed expected : Parser α) ⟨pos + 1, depth⟩ := rfl
  unfold AgreesAt
  rw [htoken]
  rcases at_cases hl pos with ⟨hx, hd⟩ | ⟨x, t, hx, hm, hd⟩
  · rw [hx]
    dsimp only [Option.map_none]
    rw [hprevious, hd]
    exact .error _
  · rw [hx]
    dsimp only [Option.map_some]
    rw [h _ _ hm.kind, hd, Reader.token]
    cases hk : accept' t.kind with
    | none =>
        change Refines _ ((refusePrevious text lexed expected : Parser α) ⟨pos + 1, depth⟩) _
        rw [hprevious, hd]
        exact .error _
    | some a => exact .ok ⟨rfl, rfl, rfl⟩

omit hl in
theorem none_of_not_fixed {accept : Kind → Option α} (hn : ∀ s, accept (.number s) = none)
    (hw : ∀ s, accept (.word s) = none) (hq : ∀ s, accept (.quoted s) = none) (k : Kind)
    (hk : ¬ k.Fixed) : accept k = none := by
  cases k with
  | number s => exact hn s
  | word s => exact hw s
  | quoted s => exact hq s
  | _ => exact absurd trivial hk

/-- A token without a text is accepted by its kind. -/
theorem agrees_plain {expected : Production} {accept : Kind → Option α}
    (h : ∀ k, ¬ k.Fixed → accept k = none) :
    Agrees text tokens depth (token text lexed expected (onPlain accept))
      (Reader.token expected accept) := by
  refine agrees_token hl fun x k hm => ?_
  cases hm with
  | plain _ => rfl
  | number _ | word _ | quoted _ =>
      rw [h _ id]
      rfl

theorem agrees_exactly (expected : Production) {kind : Kind} (hk : kind.Fixed) :
    Agrees text tokens depth (exactly text lexed expected kind) (Reader.exactly expected kind) := by
  refine agrees_plain hl fun k hnot => if_neg ?_
  rintro rfl
  exact hnot hk

theorem agrees_keyword (k : Keyword) :
    Agrees text tokens depth (keyword text lexed k) (Reader.keyword k) :=
  agrees_exactly hl _ trivial

theorem agrees_nextIs {kind : Kind} (hk : kind.Fixed) :
    Agrees text tokens depth (nextIs lexed kind) (Reader.nextIs kind) := by
  intro pos
  refine .ok ⟨?_, rfl, rfl⟩
  show (lexed[pos]?.map Lexed.lexeme == some (.plain kind)) =
    ((tokens.drop pos).head?.map Token.kind == some kind)
  rcases at_cases hl pos with ⟨hx, hd⟩ | ⟨x, t, hx, hm, hd⟩
  · rw [hx, hd]
    rfl
  · obtain ⟨position, lexeme⟩ := x
    obtain ⟨position', k⟩ := t
    obtain ⟨-, hm⟩ : position = position' ∧ lexeme.Means text k := ⟨hm.position, hm.kind⟩
    rw [hx, hd, Option.map_some, List.head?_cons, Option.map_some]
    cases hm with
    | plain _ =>
        rw [Bool.eq_iff_iff, beq_iff_eq, beq_iff_eq, Option.some.injEq, Option.some.injEq,
          Lexeme.plain.injEq]
    | number _ | word _ | quoted _ =>
        refine (beq_eq_false_iff_ne.mpr (by simp)).trans (beq_eq_false_iff_ne.mpr ?_).symm
        rintro ⟨⟩
        exact hk

/-! ### Lists -/

/-- A reader takes at least one token. -/
def Shortens (r : Reader α) : Prop :=
  ∀ tokens a rest, r tokens = .ok (a, rest) → rest.length < tokens.length

/-- The induction is on the bound of the reader, which is the number of tokens that are left. -/
theorem agrees_listUpTo {item : Parser α} {reader : Reader α}
    (hi : Agrees text tokens depth item reader) (hs : Shortens reader) (n fuel pos : Nat)
    (hn : (tokens.drop pos).length ≤ n) (hfuel : n < fuel) :
    AgreesAt text tokens (listUpTo lexed item fuel) (Reader.listUpTo reader n) ⟨pos, depth⟩ := by
  induction n generalizing fuel pos with
  | zero =>
      obtain ⟨fuel, rfl⟩ := Nat.exists_eq_succ_of_ne_zero (Nat.ne_zero_of_lt hfuel)
      refine (hi pos).bind fun a next hread => ?_
      have hlt : (tokens.drop next).length < (tokens.drop pos).length := hs _ _ _ hread
      omega
  | succ n ih =>
      obtain ⟨fuel, rfl⟩ := Nat.exists_eq_succ_of_ne_zero (Nat.ne_zero_of_lt hfuel)
      refine (hi pos).bind fun a next hread => ?_
      have hlt : (tokens.drop next).length < (tokens.drop pos).length := hs _ _ _ hread
      refine (agrees_nextIs hl (show Kind.comma.Fixed from trivial) next).bind fun b next' hnext => ?_
      have hsame : tokens.drop next = tokens.drop next' := (Prod.mk.inj (Except.ok.inj hnext)).2
      cases b with
      | false => exact agrees_pure [a] next'
      | true =>
          refine (agrees_skip next').bind fun _ next'' hskip => ?_
          have hrest : (tokens.drop next').tail = tokens.drop next'' :=
            (Prod.mk.inj (Except.ok.inj hskip)).2
          have hlen : (tokens.drop next'').length ≤ n := by
            rw [← hrest, List.length_tail, ← hsame]
            omega
          exact (ih fuel next'' hlen (by omega)).bind fun more end' _ => agrees_pure (a :: more) end'

theorem agrees_listOf {item : Parser α} {reader : Reader α}
    (hi : Agrees text tokens depth item reader) (hs : Shortens reader) :
    Agrees text tokens depth (listOf lexed item) (Reader.listOf reader) := by
  intro pos
  have hfuel : (tokens.drop pos).length < lexed.length + 1 := by
    rw [hl.length_eq, List.length_drop]
    omega
  exact agrees_listUpTo hl hi hs (tokens.drop pos).length _ pos (Nat.le_refl _) hfuel

/-! ### Levels -/

omit hl in
/-- The level that is entered is left again. -/
theorem agrees_deeper (h : Agrees text tokens depth p r) :
    Agrees text tokens (depth + 1) (deeper text lexed p) r := by
  intro pos
  have hdeeper : deeper text lexed p ⟨pos, depth + 1⟩ = (do
      let (a, after) ← p ⟨pos, depth⟩
      return (a, { after with depth := after.depth + 1 })) := rfl
  unfold AgreesAt
  rw [hdeeper, ← bind_pure ((r _).mapError _)]
  refine Refines.bind (h pos) ?_
  rintro ⟨a, next, _⟩ ⟨_, _⟩ ⟨rfl, rfl, rfl⟩ -
  exact .ok ⟨rfl, rfl, rfl⟩

theorem agrees_deeper_zero :
    Agrees text tokens 0 (deeper text lexed p) (Reader.refuse .shallowerCondition) := by
  intro pos
  have hdeeper : deeper text lexed p ⟨pos, 0⟩ =
      throw (Error.grammar .shallowerCondition (positionOf text lexed pos)) := rfl
  unfold AgreesAt
  rw [hdeeper, positionOf_eq hl]
  exact .error _

end lexed

/-! ### Words and values -/

section productions
variable (text : Text) (lexed : List Lexed)

/-- The spelling of a word, taken out of the text. -/
def name? : Lexeme → Checked Error (Option Text)
  | .word s => return some (← checked (s.of? text))
  | _ => return none

/-- The literal a lexeme stands for, with its spelling taken out of the text. -/
def literal? : Lexeme → Checked Error (Option Literal)
  | .quoted s => return some (.quoted (← checked (s.of? text)))
  | .number s => return some (.number (← checked (s.of? text)))
  | .word s => return Kind.literal? (.word (← checked (s.of? text)))
  | .plain kind => return kind.literal?

/-- A name in a given role. -/
def name (role : Production) : Parser Text := token text lexed role (name? text)

/-- A literal. -/
def value : Parser Literal := token text lexed .value (literal? text)

/-- A list of column names. -/
def names : Parser (List Text) := listOf lexed (name text lexed .attributeName)

/-- An assignment. -/
def assignment : Parser Assignment := do
  let column ← name text lexed .attributeName
  exactly text lexed .assign .assign
  return ⟨column, ← value text lexed⟩

/-! ### Conditions -/

/-- Two conditions in parentheses with a connective between them, behind the first parenthesis. -/
def compound (inner : Parser Condition) : Parser Condition := do
  let left ← inner
  exactly text lexed .parenClose .parenClose
  let isAnd ← token text lexed .boolOperator (onPlain Command.connective?)
  exactly text lexed .parenOpen .parenOpen
  let right ← inner
  exactly text lexed .parenClose .parenClose
  return if isAnd then .both left right else .either left right

/-- A comparison from its column on. -/
def comparison : Parser Condition := do
  let column ← name text lexed .attributeName
  let op ← token text lexed .operator (onPlain Kind.operator?)
  return .compare column op (← value text lexed)

/-- A condition by its first token. -/
def conditionBody (inner : Parser Condition) : Parser Condition := do
  match ← peek lexed with
  | some (.plain .parenOpen) =>
    skip
    compound text lexed inner
  | some (.word _) => comparison text lexed
  | _ => refuse text lexed .condition

/-- A condition, on fewer than `fuel` levels. -/
def condition : Nat → Parser Condition
  | 0 => fun _ => broken
  | fuel + 1 => deeper text lexed (conditionBody text lexed (condition fuel))

/-- A condition after the keyword WHERE. -/
def filter : Parser Condition := do
  keyword text lexed .where
  condition text lexed (Command.maxHeight + 1)

/-! ### Commands -/

/-- A command after its verb CREATE. -/
def create : Parser Command := do
  if ← token text lexed .structureKind (onPlain Command.structure?) then
    return .createDatabase (← name text lexed .databaseName)
  let table ← name text lexed .tableName
  if ← nextIs lexed .parenOpen then
    skip
    let columns ← names text lexed
    exactly text lexed .parenClose .parenClose
    return .createTable table columns
  return .createTable table []

/-- A command after its verb DROP. -/
def dropAny : Parser Command := do
  if ← token text lexed .structureKind (onPlain Command.structure?) then
    return .dropDatabase (← name text lexed .databaseName)
  return .dropTable (← name text lexed .tableName)

/-- A command after its verb ALTER. -/
def alterTable : Parser Command := do
  keyword text lexed .table
  let table ← name text lexed .tableName
  let alteration ← token text lexed .alteration (onPlain Command.alteration?)
  return .alter table alteration (← name text lexed .attributeName)

/-- A command after its verb INSERT. -/
def insertInto : Parser Command := do
  keyword text lexed .into
  let table ← name text lexed .tableName
  keyword text lexed .values
  exactly text lexed .parenOpen .parenOpen
  let values ← listOf lexed (value text lexed)
  exactly text lexed .parenClose .parenClose
  return .insert table values

/-- The items of a selection: a star or a list of columns. -/
def selected : Parser Items := do
  match ← peek lexed with
  | some (.plain .star) =>
    skip
    return .all
  | some (.word _) => return .listed (← names text lexed)
  | _ => refuse text lexed .items

/-- A command after its verb SELECT. -/
def selectFrom : Parser Command := do
  let items ← selected text lexed
  keyword text lexed .from
  let table ← name text lexed .tableName
  if ← nextIs lexed (.keyword .where) then
    return .select items table (some (← filter text lexed))
  return .select items table none

/-- A command after its verb UPDATE. -/
def updateTable : Parser Command := do
  let table ← name text lexed .tableName
  keyword text lexed .set
  let assignments ← listOf lexed (assignment text lexed)
  return .update table assignments (← filter text lexed)

/-- A command after its verb DELETE. -/
def deleteFrom : Parser Command := do
  keyword text lexed .from
  let table ← name text lexed .tableName
  return .delete table (← filter text lexed)

/-- A command after its verb JOIN. -/
def joinOn : Parser Command := do
  let left ← name text lexed .tableName
  keyword text lexed .and
  let right ← name text lexed .tableName
  keyword text lexed .on
  let leftKey ← name text lexed .attributeName
  keyword text lexed .and
  let rightKey ← name text lexed .attributeName
  return .join left right leftKey rightKey

/-- What follows a verb. -/
def afterVerb : Verb → Parser Command
  | .use => return .use (← name text lexed .databaseName)
  | .create => create text lexed
  | .drop => dropAny text lexed
  | .alter => alterTable text lexed
  | .insert => insertInto text lexed
  | .select => selectFrom text lexed
  | .update => updateTable text lexed
  | .delete => deleteFrom text lexed
  | .join => joinOn text lexed

/-- A command with its semicolon. -/
def terminated : Parser Command := do
  let v ← token text lexed .commandType (onPlain Kind.verb?)
  let command ← afterVerb text lexed v
  exactly text lexed .semicolon .semicolon
  return command

/-- A command with its semicolon and nothing behind it. -/
def wholeCommand : Parser Command := do
  let command ← terminated text lexed
  if (← get).pos < lexed.length then refuse text lexed .endOfCommand
  else return command

end productions

/-! ### The parser against the reader -/

section agreement
variable {lexed : List Lexed} (hl : List.Forall₂ (Lexed.Means text) lexed tokens)
include hl

theorem agrees_name (role : Production) :
    Agrees text tokens depth (name text lexed role) (Command.name role) := by
  refine agrees_token hl fun x k hm => ?_
  cases hm with
  | plain h =>
      cases k with
      | word _ => cases h
      | _ => rfl
  | word h =>
      rw [name?, h]
      rfl
  | number _ | quoted _ => rfl

theorem agrees_value : Agrees text tokens depth (value text lexed) Command.value := by
  refine agrees_token hl fun x k hm => ?_
  cases hm with
  | plain _ => rfl
  | word h | number h | quoted h =>
      rw [literal?, h]
      rfl

theorem agrees_names : Agrees text tokens depth (names text lexed) Command.names :=
  agrees_listOf hl (agrees_name hl _) ((Command.ready_name _).obeys.shortens nofun)

theorem agrees_assignment : Agrees text tokens depth (assignment text lexed) Command.assignment :=
  (agrees_name hl _).bind fun column => (agrees_exactly hl _ (by trivial)).bind fun _ =>
    (agrees_value hl).bind fun v => agrees_pure _

theorem agrees_compound {inner : Parser Condition} {reader : Reader Condition}
    (h : Agrees text tokens depth inner reader) :
    Agrees text tokens depth (compound text lexed inner) (Command.compound reader) := by
  have hconnective : ∀ k, ¬ k.Fixed → Command.connective? k = none :=
    none_of_not_fixed (fun _ => rfl) (fun _ => rfl) (fun _ => rfl)
  refine h.bind fun left => (agrees_exactly hl _ (by trivial)).bind fun _ => ?_
  refine (agrees_plain hl hconnective).bind fun isAnd => ?_
  exact (agrees_exactly hl _ (by trivial)).bind fun _ => h.bind fun right =>
    (agrees_exactly hl _ (by trivial)).bind fun _ => agrees_pure _

theorem agrees_comparison :
    Agrees text tokens depth (comparison text lexed)
      (Command.name .attributeName >>= Command.comparison) := by
  have hoperator : ∀ k, ¬ k.Fixed → Kind.operator? k = none :=
    none_of_not_fixed (fun _ => rfl) (fun _ => rfl) (fun _ => rfl)
  exact (agrees_name hl _).bind fun column => (agrees_plain hl hoperator).bind fun op =>
    (agrees_value hl).bind fun v => agrees_pure _

theorem agrees_conditionBody {inner : Parser Condition} {height : Nat}
    (h : Agrees text tokens depth inner (Command.condition height)) :
    Agrees text tokens depth (conditionBody text lexed inner) (Command.condition (height + 1)) := by
  intro pos
  have hrefuse : AgreesAt text tokens (refuse text lexed .condition : Parser Condition)
    (Reader.refuse .condition) ⟨pos, depth⟩ := agrees_refuse hl _ pos
  refine agrees_peek hl (fun hd => ?_) fun lexeme position kind hm hd => ?_
  · exact hrefuse.of_eq (by rw [hd]; rfl)
  · cases hm with
    | plain hfixed =>
        cases kind with
        | parenOpen =>
            refine ((agrees_skip.bind fun _ => agrees_compound hl h) pos).of_eq ?_
            rw [hd]
            rfl
        | number _ | word _ | quoted _ => cases hfixed
        | _ => exact hrefuse.of_eq (by rw [hd]; rfl)
    | word _ => exact (agrees_comparison hl pos).of_eq (by rw [hd]; rfl)
    | number _ | quoted _ => exact hrefuse.of_eq (by rw [hd]; rfl)

/-- The levels of the parser are those of the reader, and the fuel is more. -/
theorem agrees_condition (height fuel : Nat) (h : height < fuel) :
    Agrees text tokens height (condition text lexed fuel) (Command.condition height) := by
  induction height generalizing fuel with
  | zero =>
      obtain ⟨fuel, rfl⟩ := Nat.exists_eq_succ_of_ne_zero (Nat.ne_zero_of_lt h)
      exact agrees_deeper_zero hl
  | succ height ih =>
      obtain ⟨fuel, rfl⟩ := Nat.exists_eq_succ_of_ne_zero (Nat.ne_zero_of_lt h)
      exact agrees_deeper (agrees_conditionBody hl (ih fuel (by omega)))

theorem agrees_filter : Agrees text tokens Command.maxHeight (filter text lexed) Command.filter :=
  (agrees_keyword hl _).bind fun _ => agrees_condition hl _ _ (Nat.lt_succ_self _)

/-! ### Commands, verb by verb -/

theorem agrees_structure :
    Agrees text tokens depth (token text lexed .structureKind (onPlain Command.structure?))
      (Reader.token .structureKind Command.structure?) :=
  agrees_plain hl (none_of_not_fixed (fun _ => rfl) (fun _ => rfl) (fun _ => rfl))

theorem agrees_create : Agrees text tokens depth (create text lexed) Command.create := by
  refine (agrees_structure hl).bind fun isDatabase => ?_
  refine .ite isDatabase ((agrees_name hl _).bind fun database => agrees_pure _) ?_
  refine (agrees_name hl _).bind fun table => (agrees_nextIs hl (by trivial)).bind fun listed => ?_
  refine .ite listed ?_ (agrees_pure _)
  exact agrees_skip.bind fun _ => (agrees_names hl).bind fun columns =>
    (agrees_exactly hl _ (by trivial)).bind fun _ => agrees_pure _

theorem agrees_dropAny : Agrees text tokens depth (dropAny text lexed) Command.dropAny := by
  refine (agrees_structure hl).bind fun isDatabase => .ite isDatabase ?_ ?_
  · exact (agrees_name hl _).bind fun database => agrees_pure _
  · exact (agrees_name hl _).bind fun table => agrees_pure _

theorem agrees_alterTable : Agrees text tokens depth (alterTable text lexed) Command.alterTable := by
  have halteration : ∀ k, ¬ k.Fixed → Command.alteration? k = none :=
    none_of_not_fixed (fun _ => rfl) (fun _ => rfl) (fun _ => rfl)
  refine (agrees_keyword hl _).bind fun _ => (agrees_name hl _).bind fun table => ?_
  exact (agrees_plain hl halteration).bind fun alteration => (agrees_name hl _).bind fun column =>
    agrees_pure _

theorem agrees_insertInto : Agrees text tokens depth (insertInto text lexed) Command.insertInto := by
  refine (agrees_keyword hl _).bind fun _ => (agrees_name hl _).bind fun table => ?_
  refine (agrees_keyword hl _).bind fun _ => (agrees_exactly hl _ (by trivial)).bind fun _ => ?_
  refine (agrees_listOf hl (agrees_value hl) ?_).bind fun values => ?_
  · exact Command.ready_value.obeys.shortens nofun
  · exact (agrees_exactly hl _ (by trivial)).bind fun _ => agrees_pure _

theorem agrees_selected : Agrees text tokens depth (selected text lexed) Command.selected := by
  intro pos
  have hrefuse : AgreesAt text tokens (refuse text lexed .items : Parser Items)
    (Reader.refuse .items) ⟨pos, depth⟩ := agrees_refuse hl _ pos
  refine agrees_peek hl (fun hd => ?_) fun lexeme position kind hm hd => ?_
  · exact hrefuse.of_eq (by rw [hd]; rfl)
  · cases hm with
    | plain hfixed =>
        cases kind with
        | star =>
            refine ((agrees_skip.bind fun _ => agrees_pure Items.all) pos).of_eq ?_
            rw [hd]
            rfl
        | number _ | word _ | quoted _ => cases hfixed
        | _ => exact hrefuse.of_eq (by rw [hd]; rfl)
    | word _ =>
        refine (((agrees_names hl).bind fun columns =>
          agrees_pure (Items.listed columns)) pos).of_eq ?_
        rw [hd]
        rfl
    | number _ | quoted _ => exact hrefuse.of_eq (by rw [hd]; rfl)

theorem agrees_selectFrom :
    Agrees text tokens Command.maxHeight (selectFrom text lexed) Command.selectFrom := by
  refine (agrees_selected hl).bind fun items => (agrees_keyword hl _).bind fun _ => ?_
  refine (agrees_name hl _).bind fun table => (agrees_nextIs hl (by trivial)).bind fun filtered => ?_
  exact .ite filtered ((agrees_filter hl).bind fun c => agrees_pure _) (agrees_pure _)

theorem agrees_updateTable :
    Agrees text tokens Command.maxHeight (updateTable text lexed) Command.updateTable := by
  refine (agrees_name hl _).bind fun table => (agrees_keyword hl _).bind fun _ => ?_
  refine (agrees_listOf hl (agrees_assignment hl) ?_).bind fun assignments => ?_
  · exact Command.ready_assignment.obeys.shortens nofun
  · exact (agrees_filter hl).bind fun c => agrees_pure _

theorem agrees_deleteFrom :
    Agrees text tokens Command.maxHeight (deleteFrom text lexed) Command.deleteFrom :=
  (agrees_keyword hl _).bind fun _ => (agrees_name hl _).bind fun _ =>
    (agrees_filter hl).bind fun _ => agrees_pure _

theorem agrees_joinOn : Agrees text tokens depth (joinOn text lexed) Command.joinOn :=
  (agrees_name hl _).bind fun _ => (agrees_keyword hl _).bind fun _ =>
    (agrees_name hl _).bind fun _ => (agrees_keyword hl _).bind fun _ =>
      (agrees_name hl _).bind fun _ => (agrees_keyword hl _).bind fun _ =>
        (agrees_name hl _).bind fun _ => agrees_pure _

theorem agrees_afterVerb (v : Verb) :
    Agrees text tokens Command.maxHeight (afterVerb text lexed v) (Command.afterVerb v) := by
  cases v with
  | use => exact (agrees_name hl _).bind fun database => agrees_pure _
  | create => exact agrees_create hl
  | drop => exact agrees_dropAny hl
  | alter => exact agrees_alterTable hl
  | insert => exact agrees_insertInto hl
  | select => exact agrees_selectFrom hl
  | update => exact agrees_updateTable hl
  | delete => exact agrees_deleteFrom hl
  | join => exact agrees_joinOn hl

theorem agrees_terminated :
    Agrees text tokens Command.maxHeight (terminated text lexed) Command.terminated := by
  have hverb : ∀ k, ¬ k.Fixed → Kind.verb? k = none :=
    none_of_not_fixed (fun _ => rfl) (fun _ => rfl) (fun _ => rfl)
  exact (agrees_plain hl hverb).bind fun v => (agrees_afterVerb hl v).bind fun command =>
    (agrees_exactly hl _ (by trivial)).bind fun _ => agrees_pure _

/-- All tokens are eaten, or the first one that is left is reported. -/
theorem refines_wholeCommand :
    Refines (fun x command => x.1 = command) (wholeCommand text lexed ⟨0, Command.maxHeight⟩)
      ((Command.ofTokens? tokens).mapError (Refusal.toError text.size)) := by
  have h : Refines (Leaves tokens Command.maxHeight) (terminated text lexed ⟨0, Command.maxHeight⟩)
    ((Command.terminated tokens).mapError (Refusal.toError text.size)) := agrees_terminated hl 0
  have hwhole : wholeCommand text lexed ⟨0, Command.maxHeight⟩ =
      (terminated text lexed ⟨0, Command.maxHeight⟩ >>= fun (command, after) =>
        (if after.pos < lexed.length then refuse text lexed .endOfCommand
        else pure command : Parser Command) after) := rfl
  unfold Command.ofTokens?
  rw [hwhole]
  cases hr : Command.terminated tokens with
  | error e =>
      rw [hr] at h
      rw [h.of_error]
      exact .error _
  | ok read =>
      obtain ⟨command, rest⟩ := read
      rw [hr] at h
      obtain ⟨⟨command', pos, _⟩, hx, hcommand, hrest, rfl⟩ := h.of_ok
      have hcommand : command' = command := hcommand
      have hrest : rest = tokens.drop pos := hrest
      have hlen := hl.length_eq
      subst hcommand hrest
      rw [hx]
      change Refines _ ((if pos < lexed.length then refuse text lexed .endOfCommand else
        pure command' : Parser Command) ⟨pos, Command.maxHeight⟩) _
      rcases Nat.lt_or_ge pos tokens.length with hpos | hpos
      · have hrefuse : AgreesAt text tokens (refuse text lexed .endOfCommand : Parser Command)
          (Reader.refuse .endOfCommand) ⟨pos, Command.maxHeight⟩ := agrees_refuse hl _ pos
        rw [if_pos (hlen ▸ hpos), hrefuse.of_error, List.drop_eq_getElem_cons hpos]
        exact .error _
      · rw [if_neg (by omega), List.drop_eq_nil_of_le hpos]
        exact .ok rfl

end agreement

/-- The command that a text spells. -/
def parse (text : Text) : Checked Error Command := do
  let lexed ← ExceptT.adapt (fun e => .lexical e.fault e.position) (lex text)
  let (command, _) ← wholeCommand text lexed ⟨0, Command.maxHeight⟩
  return command

/-- **The parser does not break off.**  Whatever the text, it reads the command that the text spells or
fails with the same error. -/
theorem parse_eq (text : Text) : parse text = safe (Command.parse text) := by
  have hparse : Command.parse text =
      ((Token.scan text).mapError fun e => Error.lexical e.fault e.position) >>= fun tokens =>
        (Command.ofTokens? tokens).mapError (Refusal.toError text.size) >>= pure := by
    unfold Command.parse
    cases Token.scan text with
    | error e => rfl
    | ok tokens =>
        dsimp only
        change _ = (Command.ofTokens? tokens).mapError (Refusal.toError text.size) >>= pure
        cases Command.ofTokens? tokens <;> rfl
  rw [hparse]
  refine Refines.eq_safe (((refines_lex text).adapt _).bind fun lexed tokens hl _ => ?_)
  refine (refines_wholeCommand hl).bind ?_
  rintro ⟨command, after⟩ _ rfl -
  exact .ok rfl

end Checked

end FlatDb
