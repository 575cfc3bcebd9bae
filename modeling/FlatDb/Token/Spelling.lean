import FlatDb.Token

/-! # How tokens are spelled

The spellings of each kind of token, said without reading a text.

* An identifier is made of letters and digits, at least one of which is a letter, and is no
  reserved word in any case (`Text.IsIdentifier`).
* A number is an optional sign, digits, and optionally a point and digits (`Text.IsNumber`).
* The inside of a quoted text holds no quote, no tab and no line break (`Text.IsQuotable`).
* `Kind.Spelling` relates a spelling to the kind it stands for. -/

namespace FlatDb

namespace Text

/-- Letters and digits of the ASCII alphabet, at least one of them a letter. -/
def IsWord (t : Text) : Prop := (∀ c ∈ t, c.isAlphanum = true) ∧ ∃ c ∈ t, c.isAlpha = true

/-- A word that is not reserved. -/
def IsIdentifier (t : Text) : Prop := IsWord t ∧ ∀ e ∈ Kind.reserved, sameName e.1 t = false

/-- One or more digits. -/
def IsDigits (t : Text) : Prop := t ≠ [] ∧ ∀ c ∈ t, c.isDigit = true

/-- Digits, and maybe a point and more digits. -/
inductive IsDecimal : Text → Prop where
  | whole {t : Text} (h : IsDigits t) : IsDecimal t
  | point {t fraction : Text} (h : IsDigits t) (hf : IsDigits fraction) :
      IsDecimal (t ++ '.' :: fraction)

/-- A decimal with a sign or without one. -/
inductive IsNumber : Text → Prop where
  | unsigned {t : Text} (h : IsDecimal t) : IsNumber t
  | signed {c : Char} {t : Text} (hc : c = '+' ∨ c = '-') (h : IsDecimal t) : IsNumber (c :: t)

/-- What may stand between quotes. -/
def IsQuotable (t : Text) : Prop := '\'' ∉ t ∧ '\t' ∉ t ∧ '\n' ∉ t ∧ '\r' ∉ t

instance (t : Text) : Decidable (IsWord t) :=
  decidable_of_iff (t.all Char.isAlphanum = true ∧ t.any Char.isAlpha = true) (by simp [IsWord])

instance (t : Text) : Decidable (IsIdentifier t) := inferInstanceAs (Decidable (_ ∧ _))

instance (t : Text) : Decidable (IsDigits t) :=
  decidable_of_iff (t ≠ [] ∧ t.all Char.isDigit = true) (by simp [IsDigits])

instance (t : Text) : Decidable (IsQuotable t) := inferInstanceAs (Decidable (_ ∧ _))

end Text

open Text

/-- A text spells a kind of token. -/
inductive Kind.Spelling : Text → Kind → Prop where
  | comma : Spelling [','] .comma
  | parenOpen : Spelling ['('] .parenOpen
  | parenClose : Spelling [')'] .parenClose
  | semicolon : Spelling [';'] .semicolon
  | star : Spelling ['*'] .star
  | assign : Spelling ['='] .assign
  | operator {op : Operator} (h : op ≠ .like) : Spelling op.text (.operator op)
  | reserved {name t : Text} {k : Kind} (h : (name, k) ∈ Kind.reserved)
      (ht : sameName name t = true) : Spelling t k
  | number {t : Text} (h : IsNumber t) : Spelling t (.number t)
  | word {t : Text} (h : IsIdentifier t) : Spelling t (.word t)
  | quoted {t : Text} (h : IsQuotable t) : Spelling ('\'' :: (t ++ ['\''])) (.quoted t)

/-- Every kind has a spelling. -/
def Spelled (ks : List Kind) : Prop := ∀ k ∈ ks, ∃ s, Kind.Spelling s k

theorem spelled_cons {k : Kind} {ks : List Kind} :
    Spelled (k :: ks) ↔ (∃ s, Kind.Spelling s k) ∧ Spelled ks := List.forall_mem_cons

theorem spelled_append {ks ks' : List Kind} :
    Spelled (ks ++ ks') ↔ Spelled ks ∧ Spelled ks' := List.forall_mem_append

end FlatDb
