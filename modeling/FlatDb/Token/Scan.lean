import FlatDb.Text.Blank
import FlatDb.Token

/-! # From text to tokens

White space separates tokens and is otherwise ignored; the first character that begins no token
fails the whole text.

* Operators are read as long as possible; an exclamation mark stands only before an equals sign.
* A number is an optional sign, digits, and an optional point with digits.  A sign needs a digit
  right behind it, a point needs digits on both sides, and an unsigned run of digits that runs
  into a letter is a word.
* A quoted text reaches to the next quote.  It holds no tab and no line break, because rows are
  stored one per line with tabs between cells.

`readToken` reads one token at the head of a text and says how many characters belong to it;
`scanFrom` walks over a text, character by character, and skips those. -/

namespace FlatDb

/-- Why a text does not divide into tokens. -/
inductive LexFault where
  | unexpected (c : Char)
  | unterminated
  | tabInText
  | lineBreakInText
deriving DecidableEq, Repr

/-- A fault and the byte offset it is reported at. -/
structure LexError where
  fault : LexFault
  position : Nat
deriving DecidableEq, Repr

namespace Token

/-- The characters up to the closing quote, given the offset of the first one from the opening
quote.  A missing quote is reported at the opening quote, a forbidden character where it stands. -/
def quotedBody : Nat → Text → Except LexError Text
  | _, [] => .error ⟨.unterminated, 0⟩
  | offset, c :: cs =>
    if c = '\'' then .ok []
    else if c = '\t' then .error ⟨.tabInText, offset⟩
    else if c = '\n' ∨ c = '\r' then .error ⟨.lineBreakInText, offset⟩
    else (quotedBody (offset + c.utf8Size) cs).map (c :: ·)

/-- The point and the digits behind it, if a point with a digit behind it comes next. -/
def fraction : Text → Text
  | '.' :: d :: cs => if d.isDigit then '.' :: (d :: cs).takeWhile Char.isDigit else []
  | _ => []

/-- The digits at the head of a text, with their fraction. -/
def unsignedNumber (t : Text) : Text :=
  t.takeWhile Char.isDigit ++ fraction (t.dropWhile Char.isDigit)

/-- The letters and digits at the head of a text. -/
def wordAt (t : Text) : Text := t.takeWhile Char.isAlphanum

/-- A text begins with a digit. -/
def startsWithDigit : Text → Bool
  | d :: _ => d.isDigit
  | [] => false

/-- A run of digits, with no fraction, that runs into a letter. -/
def isDigitWord (t : Text) : Bool :=
  match t.dropWhile Char.isDigit with
  | c :: _ => c.isAlpha
  | [] => false

/-- The token that begins with the character `c` before the text `cs`: its kind, and how many
characters of `cs` belong to it.  A fault is reported by its offset from `c`. -/
def readToken (c : Char) (cs : Text) : Except LexError (Kind × Nat) :=
  match c, cs with
  | ',', _ => .ok (.comma, 0)
  | '(', _ => .ok (.parenOpen, 0)
  | ')', _ => .ok (.parenClose, 0)
  | ';', _ => .ok (.semicolon, 0)
  | '*', _ => .ok (.star, 0)
  | '=', '=' :: _ => .ok (.operator .equal, 1)
  | '=', _ => .ok (.assign, 0)
  | '>', '=' :: _ => .ok (.operator .greaterOrEqual, 1)
  | '>', _ => .ok (.operator .greater, 0)
  | '<', '=' :: _ => .ok (.operator .lessOrEqual, 1)
  | '<', _ => .ok (.operator .less, 0)
  | '!', '=' :: _ => .ok (.operator .notEqual, 1)
  | '\'', _ => (quotedBody 1 cs).map fun body => (.quoted body, body.length + 1)
  | _, _ =>
    if (c = '+' ∨ c = '-') ∧ startsWithDigit cs then
      let digits := unsignedNumber cs
      .ok (.number (c :: digits), digits.length)
    else if c.isDigit ∧ !isDigitWord (c :: cs) then
      let digits := unsignedNumber (c :: cs)
      .ok (.number digits, digits.length - 1)
    else if c.isAlphanum then
      let spelling := wordAt (c :: cs)
      .ok (Kind.ofWord spelling, spelling.length - 1)
    else .error ⟨.unexpected c, 0⟩

/-- The tokens of a text that begins at byte offset `position`, where the first `skip` characters
still belong to the token before. -/
def scanFrom : Nat → Nat → Text → Except LexError (List Token)
  | _, _, [] => .ok []
  | skip + 1, position, c :: cs => scanFrom skip (position + c.utf8Size) cs
  | 0, position, c :: cs =>
    if Text.isBlank c then scanFrom 0 (position + c.utf8Size) cs
    else
      match readToken c cs with
      | .error e => .error ⟨e.fault, position + e.position⟩
      | .ok (kind, more) =>
        (scanFrom more (position + c.utf8Size) cs).map (⟨position, kind⟩ :: ·)

/-- The tokens of a text. -/
def scan (t : Text) : Except LexError (List Token) := scanFrom 0 0 t

end Token

end FlatDb
