import FlatDb.Proofs.Checked.Basic
import FlatDb.Proofs.Readable
import FlatDb.Proofs.Scanning
import Mathlib.Data.List.Forall2

/-! # The lexer, with positions

The lexer goes over the characters of a text by their positions.  It remembers where each one begins
and keeps a number, a word or a quoted text as a range of bytes.

* Every lookup of a character, every range and every step of the cursor is checked.
* `peekAt_eq`, `offsetAt_eq` and `scanWhile_eq` say what the cursor sees in terms of the text that is
  left, wherever the cursor stands.
* `Lexeme.Means` says that a lexeme stands for a kind of token: its range lies in the text and takes
  the right characters out of it.
* `refines_lexToken`: at every character the lexer reads what `Token.readToken` reads there.
* `refines_lex`: **the lexer does not break off**, whatever the text, and every token has the range of
  bytes it was read from. -/

namespace FlatDb

open Text

/-! ### Tokens as ranges -/

/-- A token as the lexer keeps it. -/
inductive Lexeme where
  | plain (kind : Kind)
  | number (spelling : Slice)
  | word (spelling : Slice)
  | quoted (body : Slice)
deriving DecidableEq, Repr

/-- A lexeme and the byte offset at which it begins. -/
structure Lexed where
  position : Nat
  lexeme : Lexeme
deriving DecidableEq, Repr

/-- A kind of token that carries no text. -/
def Kind.Fixed : Kind → Prop
  | number _ | word _ | quoted _ => False
  | _ => True

/-- A lexeme stands for a kind: what it points at is in the text. -/
inductive Lexeme.Means (t : Text) : Lexeme → Kind → Prop where
  | plain {kind : Kind} (h : kind.Fixed) : Means t (.plain kind) kind
  | number {s : Slice} {spelling : Text} (h : s.of? t = some spelling) :
    Means t (.number s) (.number spelling)
  | word {s : Slice} {spelling : Text} (h : s.of? t = some spelling) :
    Means t (.word s) (.word spelling)
  | quoted {s : Slice} {body : Text} (h : s.of? t = some body) :
    Means t (.quoted s) (.quoted body)

/-- A lexeme stands for a token at the same offset. -/
structure Lexed.Means (t : Text) (x : Lexed) (token : Token) : Prop where
  position : x.position = token.position
  kind : x.lexeme.Means t token.kind

theorem Kind.fixed_of_reserved : ∀ e ∈ Kind.reserved, e.2.Fixed := by
  intro e he
  have hnot := Kind.not_mem_reserved e he
  obtain ⟨name, kind⟩ := e
  cases kind with
  | number t => exact (hnot t).2.1 rfl
  | word t => exact (hnot t).1 rfl
  | quoted t => exact (hnot t).2.2 rfl
  | _ => trivial

namespace Checked

/-! ### The cursor -/

/-- The characters of a text with the offsets of their first bytes. -/
def indexed : Nat → Text → List (Nat × Char)
  | _, [] => []
  | offset, c :: t => (offset, c) :: indexed (offset + c.utf8Size) t

section cursor
variable (t : Text)

/-- The character at a position. -/
def peekAt (i : Nat) : Option Char := (indexed 0 t)[i]?.map Prod.snd

/-- The offset of the character at a position, or the end of the text. -/
def offsetAt (i : Nat) : Nat :=
  match (indexed 0 t)[i]? with
  | some (offset, _) => offset
  | none => t.size

/-- The first position from a position on whose character does not have a property. -/
def scanWhile (keep : Char → Bool) (i : Nat) : Checked LexError Nat :=
  if _h : i < (indexed 0 t).length then do
    let (_, c) ← checked (indexed 0 t)[i]?
    if keep c then scanWhile keep (i + 1) else return i
  else return i
termination_by (indexed 0 t).length - i

theorem getElem?_indexed (offset i : Nat) :
    (indexed offset t)[i]? = t[i]?.map fun c => (offset + size (t.take i), c) := by
  induction t generalizing offset i with
  | nil => rfl
  | cons c t ih =>
      cases i with
      | zero => rfl
      | succ i =>
          rw [indexed, List.getElem?_cons_succ, ih, List.getElem?_cons_succ, List.take_succ_cons, size,
            Nat.add_assoc]

theorem length_indexed (offset : Nat) : (indexed offset t).length = t.length := by
  induction t generalizing offset with
  | nil => rfl
  | cons c t ih => rw [indexed, List.length_cons, ih, List.length_cons]

theorem peekAt_eq (i : Nat) : peekAt t i = t[i]? := by
  rw [peekAt, getElem?_indexed, Option.map_map]
  exact Option.map_id'

theorem offsetAt_eq (i : Nat) : offsetAt t i = size (t.take i) := by
  unfold offsetAt
  rw [getElem?_indexed]
  rcases Nat.lt_or_ge i t.length with hi | hi
  · rw [List.getElem?_eq_getElem hi]
    exact Nat.zero_add _
  · rw [List.getElem?_eq_none hi, List.take_of_length_le hi]
    rfl

/-- The text from a position on. -/
theorem drop_cases (i : Nat) :
    (t.length ≤ i ∧ t[i]? = none ∧ t.drop i = []) ∨
      ∃ c, i < t.length ∧ t[i]? = some c ∧ t.drop i = c :: t.drop (i + 1) := by
  rcases Nat.lt_or_ge i t.length with hi | hi
  · exact .inr ⟨t[i], hi, List.getElem?_eq_getElem hi, List.drop_eq_getElem_cons hi⟩
  · exact .inl ⟨hi, List.getElem?_eq_none hi, List.drop_eq_nil_of_le hi⟩

theorem scanWhile_eq (keep : Char → Bool) (i : Nat) :
    scanWhile t keep i = pure (i + ((t.drop i).takeWhile keep).length) := by
  generalize hn : t.length - i = n
  induction n generalizing i with
  | zero =>
      rw [scanWhile, dif_neg (by rw [length_indexed]; omega), List.drop_eq_nil_of_le (by omega)]
      rfl
  | succ n ih =>
      obtain ⟨c, hi, hc, hdrop⟩ := (drop_cases t i).resolve_left (by omega)
      rw [scanWhile, dif_pos (by rw [length_indexed]; exact hi), getElem?_indexed, hc, hdrop,
        List.takeWhile_cons]
      simp only [Option.map_some, checked_some, pure_bind]
      split
      · rw [ih (i + 1) (by omega), List.length_cons]
        congr 1
        omega
      · rfl

variable {t}

theorem drop_passed {i : Nat} {used rest : Text} (h : t.drop i = used ++ rest) :
    t.drop (i + used.length) = rest := by
  rw [← List.drop_drop, h, List.drop_left]

theorem size_take_passed {i : Nat} {used rest : Text} (h : t.drop i = used ++ rest) :
    size (t.take (i + used.length)) = size (t.take i) + size used := by
  rw [List.take_add, h, List.take_left, size_append]

theorem drop_succ {i : Nat} {c : Char} {cs : Text} (h : t.drop i = c :: cs) : t.drop (i + 1) = cs :=
  @drop_passed t i [c] cs h

theorem size_take_succ {i : Nat} {c : Char} {cs : Text} (h : t.drop i = c :: cs) :
    size (t.take (i + 1)) = size (t.take i) + c.utf8Size :=
  @size_take_passed t i [c] cs h

/-- The range of the characters that the cursor has passed over. -/
theorem of?_passed {i : Nat} {used rest : Text} (h : t.drop i = used ++ rest) :
    (⟨size (t.take i), offsetAt t (i + used.length)⟩ : Slice).of? t = some used := by
  refine Slice.of?_eq_some_iff.mpr ⟨t.take i, rest, ?_, rfl, ?_⟩
  · rw [← h, List.take_append_drop]
  · rw [offsetAt_eq, size_take_passed h]

theorem drop_add_takeWhile (keep : Char → Bool) (i : Nat) :
    t.drop (i + ((t.drop i).takeWhile keep).length) = (t.drop i).dropWhile keep :=
  drop_passed List.takeWhile_append_dropWhile.symm

end cursor

/-! ### Reading a token -/

section token
variable (t : Text)

/-- The token that a character is alone or with the one behind it, and how many characters it has. -/
def sign? : Char → Option Char → Option (Kind × Nat)
  | ',', _ => some (.comma, 1)
  | '(', _ => some (.parenOpen, 1)
  | ')', _ => some (.parenClose, 1)
  | ';', _ => some (.semicolon, 1)
  | '*', _ => some (.star, 1)
  | '=', some '=' => some (.operator .equal, 2)
  | '=', _ => some (.assign, 1)
  | '>', some '=' => some (.operator .greaterOrEqual, 2)
  | '>', _ => some (.operator .greater, 1)
  | '<', some '=' => some (.operator .lessOrEqual, 2)
  | '<', _ => some (.operator .less, 1)
  | '!', some '=' => some (.operator .notEqual, 2)
  | _, _ => none

theorem lt_of_peekAt {i : Nat} {c : Char} (h : peekAt t i = some c) : i < t.length := by
  rw [peekAt_eq] at h
  exact (List.getElem?_eq_some_iff.mp h).1

/-- The position of the next quote, for a quoted text that begins at byte `start`. -/
def quoteEnd (start i : Nat) : Except LexError Nat :=
  match _h : peekAt t i with
  | none => .error ⟨.unterminated, start⟩
  | some c =>
    if c = '\t' then .error ⟨.tabInText, offsetAt t i⟩
    else if c = '\n' ∨ c = '\r' then .error ⟨.lineBreakInText, offsetAt t i⟩
    else if c = '\'' then .ok i
    else quoteEnd start (i + 1)
termination_by t.length - i
decreasing_by
  have := lt_of_peekAt t _h
  omega

/-- The quoted text that begins at a position, and the position behind it. -/
def lexQuoted (start i : Nat) : Except LexError (Lexeme × Nat) := do
  let last ← quoteEnd t start (i + 1)
  return (.quoted ⟨start + 1, offsetAt t last⟩, last + 1)

/-- The letters and digits from a position on: a reserved word or a word. -/
def lexWord (start i : Nat) : Checked LexError (Lexeme × Nat) := do
  let stop ← scanWhile t Char.isAlphanum i
  let s : Slice := ⟨start, offsetAt t stop⟩
  let spelling ← checked (s.of? t)
  match Kind.reserved.find? fun (name, _) => Text.sameName name spelling with
  | some (_, kind) => return (.plain kind, stop)
  | none => return (.word s, stop)

/-- The position behind the digits from a position on and their fraction, and whether they have one. -/
def numberEnd (i : Nat) : Checked LexError (Nat × Bool) := do
  let stop ← scanWhile t Char.isDigit i
  if peekAt t stop = some '.' ∧ (peekAt t (stop + 1)).any Char.isDigit then
    return (← scanWhile t Char.isDigit (stop + 1), true)
  else return (stop, false)

/-- The number that begins at a position.  Digits that run into a letter are a word, unless they have a
sign or a fraction. -/
def lexNumeric (start i : Nat) (signed : Bool) : Checked LexError (Lexeme × Nat) := do
  let (stop, fractional) ← numberEnd t (i + signed.toNat)
  if (peekAt t stop).any Char.isAlpha ∧ ¬ signed ∧ ¬ fractional then lexWord t start i
  else return (.number ⟨start, offsetAt t stop⟩, stop)

/-- The token that begins with the character `c` at a position, and the position behind it. -/
def lexToken (start i : Nat) (c : Char) : Checked LexError (Lexeme × Nat) :=
  match sign? c (peekAt t (i + 1)) with
  | some (kind, width) => return (.plain kind, i + width)
  | none =>
    if c = '\'' then safe (lexQuoted t start i)
    else if (c = '+' ∨ c = '-') ∧ (peekAt t (i + 1)).any Char.isDigit then lexNumeric t start i true
    else if c.isDigit then lexNumeric t start i false
    else if c.isAlpha then lexWord t start i
    else throw ⟨.unexpected c, start⟩

/-! ### Signs -/

/-- A sign carries no text. -/
theorem fixed_of_sign? {c : Char} {next : Option Char} {kind : Kind} {width : Nat}
    (h : sign? c next = some (kind, width)) : kind.Fixed ∧ 0 < width := by
  unfold sign? at h
  split at h <;> cases h <;> exact ⟨trivial, by decide⟩

theorem readToken_of_sign? {c : Char} {cs : Text} {kind : Kind} {width : Nat}
    (h : sign? c cs.head? = some (kind, width)) : Token.readToken c cs = .ok (kind, width - 1) := by
  unfold sign? at h
  split at h
  case h_6 | h_8 | h_10 | h_12 =>
    next hnext =>
      cases h
      obtain ⟨more, rfl⟩ := List.head?_eq_some_iff.mp hnext
      rfl
  case h_7 | h_9 | h_11 =>
    next hnext =>
      cases h
      rw [Token.readToken]
      rintro more rfl
      exact hnext rfl
  case h_13 => cases h
  all_goals
    cases h
    rfl

/-- A character that is no sign and no quote begins a number or a word, or nothing. -/
theorem readToken_of_sign?_eq_none {c : Char} {cs : Text} (h : sign? c cs.head? = none)
    (hq : c ≠ '\'') :
    Token.readToken c cs =
      if (c = '+' ∨ c = '-') ∧ Token.startsWithDigit cs then
        .ok (.number (c :: Token.unsignedNumber cs), (Token.unsignedNumber cs).length)
      else if c.isDigit ∧ !Token.isDigitWord (c :: cs) then
        .ok (.number (Token.unsignedNumber (c :: cs)), (Token.unsignedNumber (c :: cs)).length - 1)
      else if c.isAlphanum then
        .ok (Kind.ofWord (Token.wordAt (c :: cs)), (Token.wordAt (c :: cs)).length - 1)
      else .error ⟨.unexpected c, 0⟩ := by
  unfold Token.readToken
  split
  case h_13 => exact absurd rfl hq
  case h_14 => rfl
  case h_7 | h_9 | h_11 =>
    unfold sign? at h
    split at h <;> simp_all
  all_goals cases h

/-! ### Quoted texts, words and numbers -/

/-- What was read at a position is a token there, and the cursor stands behind it. -/
def Reads (t : Text) (i : Nat) (x : Lexeme × Nat) (y : Kind × Nat) : Prop :=
  x.1.Means t y.1 ∧ x.2 = i + 1 + y.2

/-- A fault seen from the beginning of the text. -/
def shift (offset : Nat) (e : LexError) : LexError := ⟨e.fault, offset + e.position⟩

variable {t}

/-- The cursor stops at the quote that ends the body. -/
theorem quoteEnd_eq {start i offset : Nat} (h : start + offset = size (t.take i)) :
    quoteEnd t start i =
      ((Token.quotedBody offset (t.drop i)).map fun body => i + body.length).mapError (shift start) := by
  generalize hn : t.length - i = n
  induction n generalizing i offset with
  | zero =>
      obtain ⟨-, hi, hdrop⟩ := (drop_cases t i).resolve_right (by rintro ⟨c, hlt, -⟩; omega)
      rw [quoteEnd, hdrop]
      split
      · rfl
      · next c hc =>
          rw [peekAt_eq, hi] at hc
          cases hc
  | succ n ih =>
      obtain ⟨c, hi, hc, hdrop⟩ := (drop_cases t i).resolve_left (by omega)
      have hsize : start + (offset + c.utf8Size) = size (t.take (i + 1)) := by
        rw [size_take_succ hdrop, ← h, Nat.add_assoc]
      rw [quoteEnd, hdrop, Token.quotedBody]
      split
      · next hnone =>
          rw [peekAt_eq, hc] at hnone
          cases hnone
      · next d hd =>
          rw [peekAt_eq, hc, Option.some.injEq] at hd
          subst hd
          have hat : offsetAt t i = start + offset := by rw [offsetAt_eq, h]
          by_cases hq : c = '\''
          · subst hq
            rfl
          · rw [if_neg hq, if_neg hq, hat]
            split
            · rfl
            · split
              · rfl
              · rw [ih hsize (by omega)]
                cases Token.quotedBody (offset + c.utf8Size) (t.drop (i + 1)) with
                | error e => rfl
                | ok body =>
                    change Except.ok (i + 1 + body.length) = Except.ok (i + (body.length + 1))
                    congr 1
                    omega

theorem refines_lexQuoted {i : Nat} {cs : Text} (h : t.drop i = '\'' :: cs) :
    Refines (Reads t i) (safe (lexQuoted t (size (t.take i)) i))
      (((Token.quotedBody 1 cs).map fun body => (Kind.quoted body, body.length + 1)).mapError
        (shift (size (t.take i)))) := by
  have hsize : size (t.take i) + 1 = size (t.take (i + 1)) := (size_take_succ h).symm
  have hcs : t.drop (i + 1) = cs := drop_succ h
  rw [lexQuoted, quoteEnd_eq hsize, hcs]
  cases hq : Token.quotedBody 1 cs with
  | error e => exact .error _
  | ok body =>
      obtain ⟨-, rest, hrest⟩ := Token.quotedBody_eq_ok_iff.mp hq
      refine .ok ⟨.quoted ?_, ?_⟩
      · rw [hsize]
        exact of?_passed (hcs.trans hrest)
      · change i + 1 + body.length + 1 = i + 1 + (body.length + 1)
        omega

theorem lexWord_eq (i : Nat) :
    ∃ lexeme, lexWord t (size (t.take i)) i =
        pure (lexeme, i + (Token.wordAt (t.drop i)).length) ∧
      lexeme.Means t (Kind.ofWord (Token.wordAt (t.drop i))) := by
  have hw : (t.drop i).takeWhile Char.isAlphanum = Token.wordAt (t.drop i) := rfl
  have hs := of?_passed (t := t) (i := i)
    (List.takeWhile_append_dropWhile (p := Char.isAlphanum) (l := t.drop i)).symm
  rw [hw] at hs
  rw [lexWord, scanWhile_eq, hw]
  simp only [pure_bind, checked_some, hs]
  unfold Kind.ofWord
  cases hf : Kind.reserved.find? fun (name, _) => sameName name (Token.wordAt (t.drop i)) with
  | none => exact ⟨_, rfl, .word hs⟩
  | some e => exact ⟨_, rfl, .plain (Kind.fixed_of_reserved e (List.mem_of_find?_eq_some hf))⟩

/-- A fraction is what a point with a digit behind it begins. -/
theorem fraction_eq (rest : Text) :
    Token.fraction rest =
      if rest[0]? = some '.' ∧ (rest[1]?).any Char.isDigit then
        '.' :: (rest.drop 1).takeWhile Char.isDigit
      else [] := by
  unfold Token.fraction
  split
  · next d cs =>
      simp
  · next hno =>
      rw [if_neg]
      rintro ⟨h0, h1⟩
      match rest, h0, h1 with
      | [], h0, _ => cases h0
      | [_], _, h1 => cases h1
      | c :: d :: cs, h0, _ =>
          cases h0
          exact hno d cs rfl

theorem numberEnd_eq (i : Nat) :
    numberEnd t i = pure (i + (Token.unsignedNumber (t.drop i)).length,
      decide (Token.fraction ((t.drop i).dropWhile Char.isDigit) ≠ [])) := by
  have hdrop := drop_add_takeWhile (t := t) Char.isDigit i
  have hget (k : Nat) : peekAt t (i + ((t.drop i).takeWhile Char.isDigit).length + k) =
      ((t.drop i).dropWhile Char.isDigit)[k]? := by
    rw [peekAt_eq, ← hdrop, List.getElem?_drop]
  have h0 := hget 0
  rw [Nat.add_zero] at h0
  simp only [numberEnd, scanWhile_eq, pure_bind, h0, hget 1]
  rw [Token.unsignedNumber, List.length_append, fraction_eq]
  split
  · rw [← List.drop_drop, hdrop, decide_eq_true (List.cons_ne_nil _ _), List.length_cons]
    congr 2
    omega
  · rfl

/-- A letter behind digits without a fraction. -/
theorem isDigitWord_eq (rest : Text) :
    Token.isDigitWord rest = true ↔
      (rest.dropWhile Char.isDigit)[0]?.any Char.isAlpha = true ∧
        Token.fraction (rest.dropWhile Char.isDigit) = [] := by
  unfold Token.isDigitWord
  cases h : rest.dropWhile Char.isDigit with
  | nil => simp
  | cons c cs =>
      rw [fraction_eq, List.getElem?_cons_zero]
      constructor
      · intro hc
        refine ⟨hc, if_neg ?_⟩
        rintro ⟨he, -⟩
        cases he
        cases hc
      · exact fun hc => hc.1

theorem lexNumeric_signed (i : Nat) {c : Char} {cs : Text} (h : t.drop i = c :: cs) :
    ∃ lexeme, lexNumeric t (size (t.take i)) i true =
        pure (lexeme, i + 1 + (Token.unsignedNumber cs).length) ∧
      lexeme.Means t (.number (c :: Token.unsignedNumber cs)) := by
  have hcs : t.drop (i + 1) = cs := drop_succ h
  obtain ⟨rest, hrest⟩ := Token.append_unsignedNumber cs
  have htext : t.drop i = (c :: Token.unsignedNumber cs) ++ rest := by rw [h, List.cons_append, ← hrest]
  have hs := of?_passed htext
  rw [List.length_cons, Nat.add_comm _ 1, ← Nat.add_assoc] at hs
  refine ⟨_, ?_, .number hs⟩
  simp only [lexNumeric, Bool.toNat_true, numberEnd_eq, hcs, pure_bind]
  rw [if_neg (by simp)]

/-- What the cursor sees behind a number. -/
theorem peekAt_behind_number (i : Nat) :
    ((peekAt t (i + (Token.unsignedNumber (t.drop i)).length)).any Char.isAlpha = true ∧
        Token.fraction ((t.drop i).dropWhile Char.isDigit) = []) ↔
      Token.isDigitWord (t.drop i) = true := by
  rw [isDigitWord_eq, ← drop_add_takeWhile, peekAt_eq, Token.unsignedNumber]
  refine and_congr_left fun hf => ?_
  rw [← drop_add_takeWhile, hf, List.append_nil, List.getElem?_drop, Nat.add_zero]

theorem lexNumeric_word (i start : Nat) (h : Token.isDigitWord (t.drop i) = true) :
    lexNumeric t start i false = lexWord t start i := by
  obtain ⟨hpeek, hf⟩ := (peekAt_behind_number i).mpr h
  simp only [lexNumeric, Bool.toNat_false, Nat.add_zero, numberEnd_eq, pure_bind]
  exact if_pos ⟨hpeek, by simp, by simpa using hf⟩

theorem lexNumeric_unsigned (i : Nat) (h : Token.isDigitWord (t.drop i) = false) :
    ∃ lexeme, lexNumeric t (size (t.take i)) i false =
        pure (lexeme, i + (Token.unsignedNumber (t.drop i)).length) ∧
      lexeme.Means t (.number (Token.unsignedNumber (t.drop i))) := by
  obtain ⟨rest, hrest⟩ := Token.append_unsignedNumber (t.drop i)
  refine ⟨_, ?_, .number (of?_passed hrest)⟩
  simp only [lexNumeric, Bool.toNat_false, Nat.add_zero, numberEnd_eq, pure_bind]
  refine if_neg ?_
  rintro ⟨hpeek, -, hf⟩
  have hword := (peekAt_behind_number i).mp ⟨hpeek, by simpa using hf⟩
  rw [h] at hword
  cases hword

/-! ### Any token -/

theorem length_takeWhile_pos {keep : Char → Bool} {c : Char} (h : keep c = true) (cs : Text) :
    0 < ((c :: cs).takeWhile keep).length := by
  rw [List.takeWhile_cons, if_pos h]
  exact Nat.succ_pos _

theorem refines_lexWord {i : Nat} {c : Char} {cs : Text} (h : t.drop i = c :: cs)
    (hc : c.isAlphanum = true) :
    Refines (Reads t i) (lexWord t (size (t.take i)) i)
      (.ok (Kind.ofWord (Token.wordAt (c :: cs)), (Token.wordAt (c :: cs)).length - 1)) := by
  obtain ⟨lexeme, he, hm⟩ := lexWord_eq (t := t) i
  have hlen : 0 < (Token.wordAt (c :: cs)).length := length_takeWhile_pos hc cs
  rw [h] at he hm
  rw [he]
  refine .ok ⟨hm, ?_⟩
  show i + (Token.wordAt (c :: cs)).length = i + 1 + ((Token.wordAt (c :: cs)).length - 1)
  omega

/-- Digits are a number, or a word if they run into a letter. -/
theorem refines_lexNumeric {i : Nat} {c : Char} {cs : Text} (h : t.drop i = c :: cs)
    (hc : c.isDigit = true) :
    Refines (Reads t i) (lexNumeric t (size (t.take i)) i false)
      (if !Token.isDigitWord (c :: cs) then
        .ok (.number (Token.unsignedNumber (c :: cs)), (Token.unsignedNumber (c :: cs)).length - 1)
      else .ok (Kind.ofWord (Token.wordAt (c :: cs)), (Token.wordAt (c :: cs)).length - 1)) := by
  cases hw : Token.isDigitWord (c :: cs) with
  | false =>
      obtain ⟨lexeme, he, hm⟩ := lexNumeric_unsigned (t := t) i (by rw [h, hw])
      have hlen : 0 < (Token.unsignedNumber (c :: cs)).length := by
        rw [Token.unsignedNumber, List.length_append]
        exact Nat.add_pos_left (length_takeWhile_pos hc cs) _
      rw [h] at he hm
      rw [he]
      refine .ok ⟨hm, ?_⟩
      show i + (Token.unsignedNumber (c :: cs)).length =
        i + 1 + ((Token.unsignedNumber (c :: cs)).length - 1)
      omega
  | true =>
      rw [lexNumeric_word i _ (by rw [h, hw])]
      exact refines_lexWord h (isAlphanum_of_isDigit hc)

/-- **At every character the lexer reads** the token that begins there. -/
theorem refines_lexToken {i : Nat} {c : Char} {cs : Text} (h : t.drop i = c :: cs) :
    Refines (Reads t i) (lexToken t (size (t.take i)) i c)
      ((Token.readToken c cs).mapError (shift (size (t.take i)))) := by
  have hpeek : peekAt t (i + 1) = cs.head? := by
    rw [peekAt_eq, ← List.head?_drop, drop_succ h]
  have hdigit : (cs.head?.any Char.isDigit) = Token.startsWithDigit cs := by cases cs <;> rfl
  unfold lexToken
  rw [hpeek, hdigit]
  split
  · next kind width hsign =>
      obtain ⟨hfixed, hwidth⟩ := fixed_of_sign? hsign
      rw [readToken_of_sign? hsign]
      refine .ok ⟨.plain hfixed, ?_⟩
      show i + width = i + 1 + (width - 1)
      omega
  · next hsign =>
      by_cases hq : c = '\''
      · subst hq
        exact refines_lexQuoted h
      rw [if_neg hq, readToken_of_sign?_eq_none hsign hq]
      by_cases hs : (c = '+' ∨ c = '-') ∧ Token.startsWithDigit cs = true
      · obtain ⟨lexeme, he, hm⟩ := lexNumeric_signed i h
        rw [if_pos hs, if_pos hs, he]
        exact .ok ⟨hm, rfl⟩
      rw [if_neg hs, if_neg hs]
      by_cases hd : c.isDigit = true
      · have hr := refines_lexNumeric h hd
        rw [if_pos hd, if_pos (isAlphanum_of_isDigit hd)]
        cases hw : Token.isDigitWord (c :: cs) with
        | false =>
            rw [hw] at hr
            rw [if_pos ⟨hd, rfl⟩]
            exact hr
        | true =>
            rw [hw] at hr
            rw [if_neg (by simp)]
            exact hr
      · have hnum : ¬ (c.isDigit = true ∧ (!Token.isDigitWord (c :: cs)) = true) := fun hw => hd hw.1
        rw [if_neg hd, if_neg hnum]
        by_cases ha : c.isAlpha = true
        · rw [if_pos ha, if_pos (isAlphanum_of_isAlpha ha)]
          exact refines_lexWord h (isAlphanum_of_isAlpha ha)
        · have hno : ¬ c.isAlphanum = true := fun hno =>
            ha (isAlpha_of_isAlphanum hno (by simpa using hd))
          rw [if_neg ha, if_neg hno]
          exact .error _

end token

/-! ### The whole text -/

/-- The tokens from a position on.  There are fewer of them than `fuel`. -/
def lexFrom (t : Text) : Nat → Nat → Checked LexError (List Lexed)
  | 0, _ => broken
  | fuel + 1, i => do
    let i ← scanWhile t Text.isBlank i
    if i < (indexed 0 t).length then
      let (start, c) ← checked (indexed 0 t)[i]?
      let (lexeme, next) ← lexToken t start i c
      return ⟨start, lexeme⟩ :: (← lexFrom t fuel next)
    else return []

/-- The tokens of a text. -/
def lex (t : Text) : Checked LexError (List Lexed) := lexFrom t (t.length + 1) 0

theorem scanFrom_dropWhile (position : Nat) (t : Text) :
    Token.scanFrom 0 position t =
      Token.scanFrom 0 (position + size (t.takeWhile isBlank)) (t.dropWhile isBlank) := by
  induction t generalizing position with
  | nil => rfl
  | cons c t ih =>
      rw [List.takeWhile_cons, List.dropWhile_cons]
      split
      · next hc => rw [Token.scanFrom, if_pos hc, ih, size, Nat.add_assoc]
      · rfl

theorem scanFrom_cons {c : Char} (hc : isBlank c = false) (position : Nat) (cs : Text) :
    Token.scanFrom 0 position (c :: cs) = (do
      let (kind, more) ← (Token.readToken c cs).mapError (shift position)
      let tokens ← Token.scanFrom more (position + c.utf8Size) cs
      return ⟨position, kind⟩ :: tokens) := by
  rw [Token.scanFrom, if_neg (by rw [hc]; exact Bool.false_ne_true)]
  cases Token.readToken c cs with
  | error e => rfl
  | ok read => rfl

/-- The induction is on the fuel: every token takes at least one character. -/
theorem refines_lexFrom (t : Text) (fuel i : Nat) (h : t.length - i < fuel) :
    Refines (List.Forall₂ (Lexed.Means t)) (lexFrom t fuel i)
      (Token.scanFrom 0 (size (t.take i)) (t.drop i)) := by
  induction fuel generalizing i with
  | zero => omega
  | succ fuel ih =>
      have hblank : t.drop i = (t.drop i).takeWhile isBlank ++ (t.drop i).dropWhile isBlank :=
        List.takeWhile_append_dropWhile.symm
      rw [lexFrom, scanWhile_eq, pure_bind, scanFrom_dropWhile, ← size_take_passed hblank,
        ← drop_passed hblank]
      generalize hj : i + ((t.drop i).takeWhile isBlank).length = j
      rcases drop_cases t j with ⟨hlen, -, hnil⟩ | ⟨c, hlt, hc, hcons⟩
      · rw [if_neg (by rw [length_indexed]; omega), hnil]
        exact .ok .nil
      · have hhead : ((t.drop i).dropWhile isBlank).head? = some c := by
          rw [← drop_passed hblank, hj, hcons, List.head?_cons]
        have hnot : isBlank c = false := not_isBlank_of_head?_dropWhile c hhead
        rw [if_pos (by rw [length_indexed]; exact hlt), getElem?_indexed, hc, hcons,
          scanFrom_cons hnot]
        simp only [Option.map_some, checked_some, pure_bind, Nat.zero_add]
        refine (refines_lexToken hcons).bind ?_
        rintro ⟨lexeme, next⟩ ⟨kind, more⟩ ⟨hm, hnext⟩ hread
        obtain ⟨used, rest, hused, rfl, -⟩ :=
          Token.spelling_of_readToken (mapError_eq_ok_iff.mp hread)
        have hscan : Token.scanFrom used.length (size (t.take j) + c.utf8Size) (t.drop (j + 1)) =
            Token.scanFrom 0 (size (t.take next)) (t.drop next) := by
          change next = j + 1 + used.length at hnext
          rw [hused, Token.scanFrom_append, hnext, size_take_passed hused, size_take_succ hcons,
            drop_passed hused]
        have hfuel : t.length - next < fuel := by
          change next = j + 1 + used.length at hnext
          omega
        dsimp only
        rw [hscan]
        exact (ih next hfuel).bind fun lexed tokens hall _ => .ok (.cons ⟨rfl, hm⟩ hall)

/-- **The lexer does not break off.**  It finds the tokens of the text, and every range of bytes it keeps
lies in the text, between boundaries of characters. -/
theorem refines_lex (t : Text) : Refines (List.Forall₂ (Lexed.Means t)) (lex t) (Token.scan t) :=
  refines_lexFrom t (t.length + 1) 0 (Nat.lt_succ_self _)

end Checked

end FlatDb
