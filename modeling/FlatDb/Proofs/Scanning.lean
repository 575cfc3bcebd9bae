import FlatDb.Proofs.Names
import FlatDb.Token.Scan
import FlatDb.Token.Spelling

/-! # Reading tokens

Tokens are read as they are spelled.

* `Token.readToken_of_spelling`: **a spelling is read as its kind and to its end**, if what follows
  cannot go on with it.
* `Token.spelling_of_readToken`: **what is read as a token spells it**.
* `Lexes` says of a text that it is read as tokens of given kinds, if what follows it first is
  admitted.  There is one lemma for putting texts together. -/

namespace FlatDb

open Text

/-! ### Letters and digits -/

namespace Text

theorem isAlphanum_eq (c : Char) : c.isAlphanum = (c.isAlpha || c.isDigit) := rfl

theorem isAlphanum_of_isDigit {c : Char} (h : c.isDigit = true) : c.isAlphanum = true := by
  rw [isAlphanum_eq, h, Bool.or_true]

theorem isAlphanum_of_isAlpha {c : Char} (h : c.isAlpha = true) : c.isAlphanum = true := by
  rw [isAlphanum_eq, h, Bool.true_or]

theorem isAlpha_of_isAlphanum {c : Char} (h : c.isAlphanum = true) (hd : c.isDigit = false) :
    c.isAlpha = true := by
  rwa [isAlphanum_eq, hd, Bool.or_false] at h

theorem isAlpha_toLower_eq {c : Char} (h : c.isAlphanum = true) : c.toLower.isAlpha = c.isAlpha :=
  forall_ascii (p := fun c => c.isAlphanum = true → c.toLower.isAlpha = c.isAlpha)
    (by decide +kernel) (toNat_lt_of_isAlphanum h) h

theorem isDigit_eq_false_of_isAlpha {c : Char} (h : c.isAlpha = true) : c.isDigit = false :=
  forall_ascii (p := fun c => c.isAlpha = true → c.isDigit = false) (by decide +kernel)
    (toNat_lt_of_isAlphanum (isAlphanum_of_isAlpha h)) h

theorem IsWord.isName {t : Text} (h : IsWord t) : IsName t := by
  obtain ⟨hall, c, hc, -⟩ := h
  exact ⟨List.ne_nil_of_mem hc, hall⟩

/-- What is the same as a word up to case is a word. -/
theorem isWord_of_sameName {a b : Text} (ha : IsWord a) (h : sameName a b = true) : IsWord b := by
  have hb := isName_of_sameName ha.isName h
  obtain ⟨hall, c, hc, halpha⟩ := ha
  refine ⟨hb.2, ?_⟩
  have hm : c.toLower ∈ foldCase b := by
    rw [← sameName_iff.mp h]
    exact List.mem_map_of_mem hc
  obtain ⟨d, hd, he⟩ := List.mem_map.mp hm
  refine ⟨d, hd, ?_⟩
  rw [← isAlpha_toLower_eq (hb.2 d hd), he, isAlpha_toLower_eq (hall c hc)]
  exact halpha

theorem isWord_reserved : ∀ e ∈ Kind.reserved, IsWord e.1 := by decide +kernel

/-! ### Runs of characters -/

section runs
variable {p : Char → Bool} {used rest : Text}

/-- The next character, if there is one, does not have a property. -/
def Stops (p : Char → Bool) (next : Option Char) : Prop := ∀ c, next = some c → p c = false

theorem stops_some {c : Char} (h : p c = false) : Stops p (some c) := by
  rintro d ⟨⟩
  exact h

theorem takeWhile_of_stops (h : Stops p rest.head?) : rest.takeWhile p = [] := by
  cases rest with
  | nil => rfl
  | cons c rest => rw [List.takeWhile_cons, h c rfl, if_neg Bool.false_ne_true]

theorem dropWhile_of_stops (h : Stops p rest.head?) : rest.dropWhile p = rest := by
  cases rest with
  | nil => rfl
  | cons c rest => rw [List.dropWhile_cons, h c rfl, if_neg Bool.false_ne_true]

theorem takeWhile_append_stops (hu : ∀ c ∈ used, p c = true) (h : Stops p rest.head?) :
    (used ++ rest).takeWhile p = used := by
  rw [List.takeWhile_append_of_pos hu, takeWhile_of_stops h, List.append_nil]

theorem dropWhile_append_stops (hu : ∀ c ∈ used, p c = true) (h : Stops p rest.head?) :
    (used ++ rest).dropWhile p = rest := by
  rw [List.dropWhile_append_of_pos hu, dropWhile_of_stops h]

end runs

end Text

namespace Token

/-! ### Words and numbers in front of a text -/

/-- What goes on with a number. -/
def goesOn (c : Char) : Bool := c.isAlphanum || c == '.'

theorem wordAt_append {t rest : Text} (h : IsWord t) (hr : Stops Char.isAlphanum rest.head?) :
    wordAt (t ++ rest) = t := takeWhile_append_stops h.1 hr

theorem fraction_of_stops {rest : Text} (h : Stops goesOn rest.head?) : fraction rest = [] := by
  unfold fraction
  split
  · exact absurd (h '.' rfl) (by decide)
  · rfl

theorem fraction_append {digits rest : Text} (h : IsDigits digits)
    (hr : Stops Char.isDigit rest.head?) :
    fraction ('.' :: (digits ++ rest)) = '.' :: digits := by
  obtain ⟨hne, hall⟩ := h
  cases digits with
  | nil => exact absurd rfl hne
  | cons d ds =>
      change (if d.isDigit then '.' :: (d :: ds ++ rest).takeWhile Char.isDigit else []) = _
      rw [if_pos (hall d List.mem_cons_self), takeWhile_append_stops hall hr]

theorem stops_isDigit {next : Option Char} (h : Stops goesOn next) : Stops Char.isDigit next := by
  intro c hc
  have hg := h c hc
  rw [goesOn, isAlphanum_eq, Bool.or_eq_false_iff, Bool.or_eq_false_iff] at hg
  exact hg.1.2

theorem stops_isAlphanum {next : Option Char} (h : Stops goesOn next) :
    Stops Char.isAlphanum next :=
  fun c hc => (Bool.or_eq_false_iff.mp (h c hc)).1

theorem unsignedNumber_append {t rest : Text} (h : IsDecimal t) (hr : Stops goesOn rest.head?) :
    unsignedNumber (t ++ rest) = t := by
  have hdigit := stops_isDigit hr
  unfold unsignedNumber
  cases h with
  | whole h =>
      rw [takeWhile_append_stops h.2 hdigit, dropWhile_append_stops h.2 hdigit,
        fraction_of_stops hr, List.append_nil]
  | @point whole digits h hf =>
      have hpoint : Stops Char.isDigit ('.' :: (digits ++ rest)).head? := stops_some (by decide)
      rw [List.append_assoc, List.cons_append, takeWhile_append_stops h.2 hpoint,
        dropWhile_append_stops h.2 hpoint, fraction_append hf hdigit]

/-- The inside of a quoted text ends at the first quote. -/
theorem quotedBody_eq_ok_iff {offset : Nat} {cs body : Text} :
    quotedBody offset cs = .ok body ↔ IsQuotable body ∧ ∃ rest, cs = body ++ '\'' :: rest := by
  induction cs generalizing offset body with
  | nil =>
      refine ⟨fun h => (nomatch h), fun ⟨_, rest, h⟩ => ?_⟩
      cases body <;> cases h
  | cons c cs ih =>
      have hcons (more : Text) : IsQuotable (c :: more) ↔
          (c ≠ '\'' ∧ c ≠ '\t' ∧ c ≠ '\n' ∧ c ≠ '\r') ∧ IsQuotable more := by
        simp only [IsQuotable, List.mem_cons, not_or]
        grind
      rw [quotedBody]
      constructor
      · intro h
        split at h
        · next hq =>
            cases h
            exact ⟨by decide, cs, by rw [hq, List.nil_append]⟩
        · next hq =>
            split at h
            · cases h
            · next ht =>
                split at h
                · cases h
                · next hb =>
                    rw [not_or] at hb
                    cases hm : quotedBody (offset + c.utf8Size) cs with
                    | error e =>
                        rw [hm] at h
                        cases h
                    | ok more =>
                        rw [hm] at h
                        cases h
                        obtain ⟨hmore, rest, rfl⟩ := ih.mp hm
                        exact ⟨(hcons more).mpr ⟨⟨hq, ht, hb.1, hb.2⟩, hmore⟩, rest, rfl⟩
      · rintro ⟨hb, rest, he⟩
        cases body with
        | nil =>
            cases he
            exact if_pos rfl
        | cons d more =>
            cases he
            obtain ⟨⟨hq, ht, hn, hr⟩, hmore⟩ := (hcons more).mp hb
            rw [if_neg hq, if_neg ht, if_neg (not_or.mpr ⟨hn, hr⟩), ih.mpr ⟨hmore, rest, rfl⟩]
            rfl

end Token

/-! ### A token and what follows it -/

namespace Kind

/-- A character that would be read as a part of a token it follows. -/
def goesOn : Kind → Char → Bool
  | assign | operator .greater | operator .less => (· == '=')
  | verb _ | keyword _ | operator .like | boolean _ | null | word _ => Char.isAlphanum
  | number _ => Token.goesOn
  | _ => fun _ => false

theorem goesOn_reserved : ∀ e ∈ reserved, e.2.goesOn = Char.isAlphanum := by
  intro e he
  simp only [reserved, List.mem_append, List.mem_map] at he
  rcases he with (⟨v, -, rfl⟩ | ⟨k, -, rfl⟩) | he
  · rfl
  · rfl
  · simp only [List.mem_cons, List.not_mem_nil, or_false] at he
    rcases he with rfl | rfl | rfl | rfl <;> rfl

theorem find?_reserved : ∀ e ∈ reserved,
    (reserved.find? fun (name, _) => sameName name e.1).map Prod.snd = some e.2 := by
  decide +kernel

/-- A reserved word in any case stands for what it is reserved for. -/
theorem ofWord_of_mem_reserved {name t : Text} {k : Kind} (h : (name, k) ∈ reserved)
    (ht : sameName name t = true) : ofWord t = k := by
  have hp : (fun e : Text × Kind => sameName e.1 t) = fun e => sameName e.1 name := by
    funext e
    rw [sameName, sameName, sameName_iff.mp ht]
  have hf := find?_reserved (name, k) h
  change Option.map _ (reserved.find? fun e : Text × Kind => sameName e.1 name) = _ at hf
  rw [← hp] at hf
  obtain ⟨⟨n, kind⟩, he, rfl⟩ := Option.map_eq_some_iff.mp hf
  unfold ofWord
  rw [he]

theorem ofWord_of_isIdentifier {t : Text} (h : IsIdentifier t) : ofWord t = .word t := by
  have hn : reserved.find? (fun e => sameName e.1 t) = none :=
    List.find?_eq_none.mpr fun e he => by rw [h.2 e he]; exact Bool.false_ne_true
  unfold ofWord
  rw [hn]

theorem spelling_ofWord {t : Text} (h : IsWord t) : Spelling t (ofWord t) := by
  unfold ofWord
  split
  · next name kind hf =>
      have hs := List.find?_some hf
      exact .reserved (List.mem_of_find?_eq_some hf) hs
  · next hf =>
      refine .word ⟨h, fun e he => ?_⟩
      simpa using List.find?_eq_none.mp hf e he

end Kind

namespace Token

/-- The signs that are read as tokens of their own, and the quote. -/
def signs : Text := ",();*=><!'".toList

/-- A character that is no sign begins a number or a word, or nothing. -/
theorem readToken_eq_of_not_mem {c : Char} (h : c ∉ signs) (cs : Text) :
    readToken c cs =
      if (c = '+' ∨ c = '-') ∧ startsWithDigit cs then
        .ok (.number (c :: unsignedNumber cs), (unsignedNumber cs).length)
      else if c.isDigit ∧ !isDigitWord (c :: cs) then
        .ok (.number (unsignedNumber (c :: cs)), (unsignedNumber (c :: cs)).length - 1)
      else if c.isAlphanum then
        .ok (Kind.ofWord (wordAt (c :: cs)), (wordAt (c :: cs)).length - 1)
      else .error ⟨.unexpected c, 0⟩ := by
  unfold readToken
  split
  case h_14 => rfl
  all_goals exact absurd (by decide) h

theorem not_mem_signs {c : Char} (h : c.isAlphanum = true) : c ∉ signs := by
  intro hm
  have hs : signs.all (fun c => !c.isAlphanum) = true := by decide +kernel
  have hc := List.all_eq_true.mp hs c hm
  rw [h] at hc
  cases hc

theorem isDigitWord_append_word {t rest : Text} (h : IsWord t) : isDigitWord (t ++ rest) = true := by
  obtain ⟨hall, hex⟩ := h
  induction t with
  | nil => simp at hex
  | cons c t ih =>
      by_cases hc : c.isDigit = true
      · have hd : (c :: t ++ rest).dropWhile Char.isDigit = (t ++ rest).dropWhile Char.isDigit := by
          rw [List.cons_append, List.dropWhile_cons, if_pos hc]
        obtain ⟨d, hd', halpha⟩ := hex
        have ih := ih (fun a ha => hall a (List.mem_cons_of_mem _ ha)) ⟨d, ?_, halpha⟩
        · unfold isDigitWord at ih ⊢
          rw [hd]
          exact ih
        · rcases List.mem_cons.mp hd' with rfl | hm
          · rw [isDigit_eq_false_of_isAlpha halpha] at hc
            cases hc
          · exact hm
      · have hd : (c :: t ++ rest).dropWhile Char.isDigit = c :: (t ++ rest) := by
          rw [List.cons_append, List.dropWhile_cons, if_neg hc]
        unfold isDigitWord
        rw [hd]
        exact isAlpha_of_isAlphanum (hall c List.mem_cons_self) (by simpa using hc)

theorem readToken_word {c : Char} {cs rest : Text} (h : IsWord (c :: cs))
    (hr : Stops Char.isAlphanum rest.head?) :
    readToken c (cs ++ rest) = .ok (Kind.ofWord (c :: cs), cs.length) := by
  have hc : c.isAlphanum = true := h.1 c List.mem_cons_self
  have hw : wordAt (c :: (cs ++ rest)) = c :: cs := wordAt_append h hr
  have hd : isDigitWord (c :: (cs ++ rest)) = true := isDigitWord_append_word h
  rw [readToken_eq_of_not_mem (not_mem_signs hc), if_neg, if_neg, if_pos hc, hw]
  · rfl
  · rw [hd]
    simp
  · rintro ⟨rfl | rfl, -⟩
    · exact absurd hc (by decide)
    · exact absurd hc (by decide)

/-- A decimal begins with a digit. -/
theorem head_of_isDecimal {t : Text} (h : IsDecimal t) :
    ∃ d more, t = d :: more ∧ d.isDigit = true := by
  have hhead {digits : Text} (hd : IsDigits digits) :
      ∃ d more, digits = d :: more ∧ d.isDigit = true := by
    cases digits with
    | nil => exact absurd rfl hd.1
    | cons d more => exact ⟨d, more, rfl, hd.2 d List.mem_cons_self⟩
  cases h with
  | whole h => exact hhead h
  | point h _ =>
      obtain ⟨d, more, rfl, hd⟩ := hhead h
      exact ⟨d, _, rfl, hd⟩

theorem isDigitWord_append_decimal {t rest : Text} (h : IsDecimal t)
    (hr : Stops goesOn rest.head?) : isDigitWord (t ++ rest) = false := by
  unfold isDigitWord
  cases h with
  | whole h =>
      rw [dropWhile_append_stops h.2 (stops_isDigit hr)]
      split
      · next c more =>
          have hg := stops_isAlphanum hr c rfl
          rw [isAlphanum_eq, Bool.or_eq_false_iff] at hg
          exact hg.1
      · rfl
  | @point whole digits h _ =>
      have hpoint : Stops Char.isDigit ('.' :: (digits ++ rest)).head? := stops_some (by decide)
      rw [List.append_assoc, List.cons_append, dropWhile_append_stops h.2 hpoint]
      rfl

theorem readToken_signed {c : Char} {t rest : Text} (hc : c = '+' ∨ c = '-') (h : IsDecimal t)
    (hr : Stops goesOn rest.head?) :
    readToken c (t ++ rest) = .ok (.number (c :: t), t.length) := by
  have hs : c ∉ signs := by rcases hc with rfl | rfl <;> decide +kernel
  have hd : startsWithDigit (t ++ rest) = true := by
    obtain ⟨d, more, rfl, hd⟩ := head_of_isDecimal h
    exact hd
  rw [readToken_eq_of_not_mem hs, if_pos ⟨hc, hd⟩, unsignedNumber_append h hr]

/-- Digits that do not run into a letter are a number. -/
theorem readToken_decimal {c : Char} {cs rest : Text} (h : IsDecimal (c :: cs))
    (hw : isDigitWord (c :: (cs ++ rest)) = false)
    (hu : unsignedNumber (c :: (cs ++ rest)) = c :: cs) :
    readToken c (cs ++ rest) = .ok (.number (c :: cs), cs.length) := by
  obtain ⟨_, _, ⟨⟩, hc⟩ := head_of_isDecimal h
  rw [readToken_eq_of_not_mem (not_mem_signs (isAlphanum_of_isDigit hc)), if_neg, if_pos, hu]
  · rfl
  · rw [hw]
    exact ⟨hc, rfl⟩
  · rintro ⟨rfl | rfl, -⟩ <;> cases hc

theorem readToken_unsigned {c : Char} {cs rest : Text} (h : IsDecimal (c :: cs))
    (hr : Stops goesOn rest.head?) :
    readToken c (cs ++ rest) = .ok (.number (c :: cs), cs.length) :=
  readToken_decimal h (isDigitWord_append_decimal h hr) (unsignedNumber_append h hr)

/-! ### Tokens are read as they are spelled -/

/-- A sign that an equals sign would go on with. -/
theorem stops_equals {rest : Text} (h : Stops (· == '=') rest.head?) (more : Text) :
    rest ≠ '=' :: more := by
  rintro rfl
  exact absurd (h '=' rfl) (by decide)

/-- **A spelling is read as its kind and to its end**, if what follows cannot go on with it. -/
theorem readToken_of_spelling {c : Char} {cs rest : Text} {k : Kind}
    (h : Kind.Spelling (c :: cs) k) (hr : Stops k.goesOn rest.head?) :
    readToken c (cs ++ rest) = .ok (k, cs.length) := by
  generalize ht : c :: cs = t at h
  cases h with
  | comma | parenOpen | parenClose | semicolon | star =>
      cases ht
      rfl
  | assign =>
      cases ht
      rw [List.nil_append, readToken]
      · rfl
      · exact fun more => stops_equals hr more
  | @operator op h =>
      cases op with
      | equal | notEqual | greaterOrEqual | lessOrEqual =>
          cases ht
          rfl
      | greater =>
          have ht : c :: cs = ['>'] := ht
          cases ht
          rw [List.nil_append, readToken]
          · rfl
          · exact fun more => stops_equals hr more
      | less =>
          have ht : c :: cs = ['<'] := ht
          cases ht
          rw [List.nil_append, readToken]
          · rfl
          · exact fun more => stops_equals hr more
      | like => exact absurd rfl h
  | reserved h hs =>
      subst ht
      have hw := isWord_of_sameName (isWord_reserved _ h) hs
      rw [Kind.goesOn_reserved _ h] at hr
      rw [readToken_word hw hr, Kind.ofWord_of_mem_reserved h hs]
  | word h =>
      subst ht
      rw [readToken_word h.1 hr, Kind.ofWord_of_isIdentifier h]
  | number h =>
      cases h with
      | unsigned h =>
          subst ht
          exact readToken_unsigned h hr
      | signed hc h =>
          cases ht
          exact readToken_signed hc h hr
  | @quoted body h =>
      cases ht
      have hq : quotedBody 1 (body ++ ['\''] ++ rest) = .ok body :=
        quotedBody_eq_ok_iff.mpr ⟨h, rest, by simp⟩
      change (quotedBody 1 (body ++ ['\''] ++ rest)).map _ = _
      rw [hq]
      simp [Except.map]

/-! ### What is read spells its kind -/

/-- A fraction is nothing, or a point and digits. -/
theorem fraction_spec (t : Text) :
    (∃ rest, t = fraction t ++ rest) ∧
      (fraction t = [] ∨ ∃ digits, IsDigits digits ∧ fraction t = '.' :: digits) := by
  unfold fraction
  split
  · next d cs =>
      split
      · next hd =>
          refine ⟨⟨(d :: cs).dropWhile Char.isDigit, ?_⟩, .inr ⟨_, ⟨?_, ?_⟩, rfl⟩⟩
          · rw [List.cons_append, List.takeWhile_append_dropWhile]
          · rw [List.takeWhile_cons, if_pos hd]
            exact List.cons_ne_nil _ _
          · exact fun c hc => List.all_eq_true.mp List.all_takeWhile c hc
      · exact ⟨⟨_, rfl⟩, .inl rfl⟩
  · exact ⟨⟨_, rfl⟩, .inl rfl⟩

theorem append_unsignedNumber (t : Text) : ∃ rest, t = unsignedNumber t ++ rest := by
  obtain ⟨rest, hr⟩ := (fraction_spec (t.dropWhile Char.isDigit)).1
  refine ⟨rest, ?_⟩
  rw [unsignedNumber, List.append_assoc, ← hr, List.takeWhile_append_dropWhile]

theorem isDecimal_unsignedNumber {t : Text} (h : startsWithDigit t = true) :
    IsDecimal (unsignedNumber t) := by
  have hw : IsDigits (t.takeWhile Char.isDigit) := by
    refine ⟨?_, fun c hc => List.all_eq_true.mp List.all_takeWhile c hc⟩
    cases t with
    | nil => cases h
    | cons d more =>
        have hd : d.isDigit = true := h
        rw [List.takeWhile_cons, if_pos hd]
        exact List.cons_ne_nil _ _
  rw [unsignedNumber]
  rcases (fraction_spec (t.dropWhile Char.isDigit)).2 with hf | ⟨digits, hd, hf⟩
  · rw [hf, List.append_nil]
    exact .whole hw
  · rw [hf]
    exact .point hw hd

/-- Digits that run into a letter have the letter in their run of letters and digits. -/
theorem exists_isAlpha_of_isDigitWord {t : Text} (h : isDigitWord t = true) :
    ∃ c ∈ wordAt t, c.isAlpha = true := by
  induction t with
  | nil => cases h
  | cons c t ih =>
      by_cases hc : c.isDigit = true
      · have hd : (c :: t).dropWhile Char.isDigit = t.dropWhile Char.isDigit := by
          rw [List.dropWhile_cons, if_pos hc]
        unfold isDigitWord at h ih
        rw [hd] at h
        obtain ⟨d, hm, halpha⟩ := ih h
        refine ⟨d, ?_, halpha⟩
        rw [wordAt, List.takeWhile_cons, if_pos (isAlphanum_of_isDigit hc)]
        exact List.mem_cons_of_mem _ hm
      · have hd : (c :: t).dropWhile Char.isDigit = c :: t := by
          rw [List.dropWhile_cons, if_neg hc]
        unfold isDigitWord at h
        rw [hd] at h
        refine ⟨c, ?_, h⟩
        rw [wordAt, List.takeWhile_cons, if_pos (isAlphanum_of_isAlpha h)]
        exact List.mem_cons_self

theorem isWord_wordAt {c : Char} {cs : Text} (hc : c.isAlphanum = true)
    (hd : ¬ (c.isDigit = true ∧ (!isDigitWord (c :: cs)) = true)) : IsWord (wordAt (c :: cs)) := by
  refine ⟨fun a ha => List.all_eq_true.mp List.all_takeWhile a ha, ?_⟩
  by_cases hdigit : c.isDigit = true
  · exact exists_isAlpha_of_isDigitWord (by simpa [hdigit] using hd)
  · refine ⟨c, ?_, isAlpha_of_isAlphanum hc (by simpa using hdigit)⟩
    rw [wordAt, List.takeWhile_cons, if_pos hc]
    exact List.mem_cons_self

/-- A token and the characters that belong to it. -/
def Taken (c : Char) (cs : Text) (k : Kind) (n : Nat) : Prop :=
  ∃ used rest, cs = used ++ rest ∧ used.length = n ∧ Kind.Spelling (c :: used) k

theorem taken_of_spelling {c : Char} {cs used rest : Text} {k : Kind} (h : c :: cs = used ++ rest)
    (hu : Kind.Spelling used k) (hne : used ≠ []) : Taken c cs k (used.length - 1) := by
  cases used with
  | nil => exact absurd rfl hne
  | cons d used =>
      obtain ⟨rfl, rfl⟩ := List.cons.inj h
      exact ⟨used, rest, rfl, rfl, hu⟩

/-- **What is read as a token spells it.** -/
theorem spelling_of_readToken {c : Char} {cs : Text} {k : Kind} {n : Nat}
    (h : readToken c cs = .ok (k, n)) : Taken c cs k n := by
  have single {k : Kind} (hk : Kind.Spelling [c] k) : Taken c cs k 0 := ⟨[], cs, rfl, rfl, hk⟩
  unfold readToken at h
  split at h
  case h_1 => cases h; exact single .comma
  case h_2 => cases h; exact single .parenOpen
  case h_3 => cases h; exact single .parenClose
  case h_4 => cases h; exact single .semicolon
  case h_5 => cases h; exact single .star
  case h_6 rest => cases h; exact ⟨['='], rest, rfl, rfl, @Kind.Spelling.operator .equal (by decide)⟩
  case h_7 => cases h; exact single .assign
  case h_8 rest =>
    cases h
    exact ⟨['='], rest, rfl, rfl, @Kind.Spelling.operator .greaterOrEqual (by decide)⟩
  case h_9 => cases h; exact single (@Kind.Spelling.operator .greater (by decide))
  case h_10 rest =>
    cases h
    exact ⟨['='], rest, rfl, rfl, @Kind.Spelling.operator .lessOrEqual (by decide)⟩
  case h_11 => cases h; exact single (@Kind.Spelling.operator .less (by decide))
  case h_12 rest =>
    cases h
    exact ⟨['='], rest, rfl, rfl, @Kind.Spelling.operator .notEqual (by decide)⟩
  case h_13 =>
    cases hq : quotedBody 1 cs with
    | error e =>
        rw [hq] at h
        cases h
    | ok body =>
        rw [hq] at h
        cases h
        obtain ⟨hb, rest, rfl⟩ := quotedBody_eq_ok_iff.mp hq
        exact ⟨body ++ ['\''], rest, by simp, by simp, .quoted hb⟩
  case h_14 =>
    split at h
    · next hc =>
        cases h
        obtain ⟨rest, hr⟩ := append_unsignedNumber cs
        exact ⟨_, rest, hr, rfl, .number (.signed hc.1 (isDecimal_unsignedNumber hc.2))⟩
    · split at h
      · next hd =>
          cases h
          obtain ⟨rest, hr⟩ := append_unsignedNumber (c :: cs)
          have hdec : IsDecimal (unsignedNumber (c :: cs)) := isDecimal_unsignedNumber hd.1
          refine taken_of_spelling hr (.number (.unsigned hdec)) ?_
          obtain ⟨d, more, he, -⟩ := head_of_isDecimal hdec
          rw [he]
          exact List.cons_ne_nil _ _
      · next hd =>
          split at h
          · next hc =>
              cases h
              have hw := isWord_wordAt hc hd
              exact taken_of_spelling List.takeWhile_append_dropWhile.symm (Kind.spelling_ofWord hw)
                hw.isName.1
          · cases h

/-- Every token of a text has a spelling. -/
theorem spelling_of_scanFrom {skip position : Nat} {t : Text} {tokens : List Token}
    (h : scanFrom skip position t = .ok tokens) :
    ∀ token ∈ tokens, ∃ s, Kind.Spelling s token.kind := by
  induction t generalizing skip position tokens with
  | nil =>
      have e : tokens = [] := by cases skip <;> cases h <;> rfl
      subst e
      exact fun _ hm => nomatch hm
  | cons c cs ih =>
      cases skip with
      | succ skip => exact ih h
      | zero =>
          rw [scanFrom] at h
          split at h
          · exact ih h
          · split at h
            · cases h
            · next kind more hr =>
                cases hs : scanFrom more (position + c.utf8Size) cs with
                | error e =>
                    rw [hs] at h
                    cases h
                | ok rest =>
                    rw [hs] at h
                    cases h
                    intro token ht
                    rcases List.mem_cons.mp ht with rfl | ht
                    · obtain ⟨used, -, -, -, hk⟩ := spelling_of_readToken hr
                      exact ⟨c :: used, hk⟩
                    · exact ih hs token ht

end Token

/-- A spelling begins with a character that is no white space. -/
theorem Kind.Spelling.head {t : Text} {k : Kind} (h : Spelling t k) :
    ∃ c cs, t = c :: cs ∧ isBlank c = false := by
  have word {t : Text} (h : IsWord t) : ∃ c cs, t = c :: cs ∧ isBlank c = false := by
    cases t with
    | nil => exact absurd rfl h.isName.1
    | cons c cs => exact ⟨c, cs, rfl, isBlank_of_isAlphanum (h.1 c List.mem_cons_self)⟩
  cases h with
  | comma | parenOpen | parenClose | semicolon | star | assign =>
      exact ⟨_, _, rfl, by decide⟩
  | @operator op h =>
      cases op with
      | like => exact absurd rfl h
      | equal | notEqual | greater | greaterOrEqual | less | lessOrEqual =>
          exact ⟨_, _, rfl, by decide⟩
  | reserved h ht => exact word (isWord_of_sameName (isWord_reserved _ h) ht)
  | word h => exact word h.1
  | number h =>
      cases h with
      | unsigned h =>
          obtain ⟨d, more, rfl, hd⟩ := Token.head_of_isDecimal h
          exact ⟨d, more, rfl, isBlank_of_isAlphanum (isAlphanum_of_isDigit hd)⟩
      | signed hc h =>
          refine ⟨_, _, rfl, ?_⟩
          rcases hc with rfl | rfl <;> decide
  | quoted _ => exact ⟨_, _, rfl, by decide⟩

theorem Kind.not_mem_reserved : ∀ e ∈ Kind.reserved, ∀ t,
    e.2 ≠ .word t ∧ e.2 ≠ .number t ∧ e.2 ≠ .quoted t := by
  intro e he t
  simp only [Kind.reserved, List.mem_append, List.mem_map] at he
  rcases he with (⟨v, -, rfl⟩ | ⟨k, -, rfl⟩) | he
  · exact ⟨nofun, nofun, nofun⟩
  · exact ⟨nofun, nofun, nofun⟩
  · simp only [List.mem_cons, List.not_mem_nil, or_false] at he
    rcases he with rfl | rfl | rfl | rfl <;> exact ⟨nofun, nofun, nofun⟩

theorem Kind.Spelling.isIdentifier {s t : Text} (h : Spelling s (.word t)) : IsIdentifier t := by
  cases h with
  | reserved h _ => exact absurd rfl (Kind.not_mem_reserved _ h t).1
  | word h => exact h

theorem Kind.Spelling.isNumber {s t : Text} (h : Spelling s (.number t)) : IsNumber t := by
  cases h with
  | reserved h _ => exact absurd rfl (Kind.not_mem_reserved _ h t).2.1
  | number h => exact h

theorem Kind.Spelling.isQuotable {s t : Text} (h : Spelling s (.quoted t)) : IsQuotable t := by
  cases h with
  | reserved h _ => exact absurd rfl (Kind.not_mem_reserved _ h t).2.2
  | quoted h => exact h

/-! ### Texts that are read token by token -/

namespace Token

theorem scanFrom_append {used : Text} (position : Nat) (rest : Text) :
    scanFrom used.length position (used ++ rest) = scanFrom 0 (position + size used) rest := by
  induction used generalizing position with
  | nil => rfl
  | cons c used ih =>
      rw [List.cons_append, List.length_cons, scanFrom, ih, size, Nat.add_assoc]

end Token

/-- Anything may follow. -/
def Text.Anything (_ : Option Char) : Prop := True

/-- A text is read as tokens of the given kinds, if what follows it first is admitted. -/
def Lexes (t : Text) (ks : List Kind) (ahead : Option Char → Prop) : Prop :=
  ∀ position rest, ahead rest.head? → ∃ tokens, tokens.map Token.kind = ks ∧
    Token.scanFrom 0 position (t ++ rest) =
      (Token.scanFrom 0 (position + size t) rest).map (tokens ++ ·)

namespace Lexes

variable {t t' : Text} {ks ks' : List Kind} {ahead ahead' : Option Char → Prop}

theorem mono (h : Lexes t ks ahead) (hn : ∀ next, ahead' next → ahead next) : Lexes t ks ahead' :=
  fun position rest hr => h position rest (hn _ hr)

/-- Texts one after the other, if the second one may follow the first. -/
theorem append (h : Lexes t ks ahead) (h' : Lexes t' ks' ahead')
    (hn : ∀ next, ahead' next → ahead (t'.head?.or next)) : Lexes (t ++ t') (ks ++ ks') ahead' := by
  intro position rest hr
  have hhead : (t' ++ rest).head? = t'.head?.or rest.head? := List.head?_append
  obtain ⟨tokens, hk, hs⟩ := h position (t' ++ rest) (by rw [hhead]; exact hn _ hr)
  obtain ⟨tokens', hk', hs'⟩ := h' (position + size t) rest hr
  refine ⟨tokens ++ tokens', by rw [List.map_append, hk, hk'], ?_⟩
  rw [List.append_assoc, hs, hs', size_append, Nat.add_assoc]
  cases Token.scanFrom 0 (position + (size t + size t')) rest with
  | error e => rfl
  | ok more =>
      exact congrArg Except.ok (List.append_assoc tokens tokens' more).symm

theorem anywhere (h : Lexes t ks Anything) : Lexes t ks ahead := h.mono fun _ _ => True.intro

theorem followed_by (h : Lexes t ks Anything) (h' : Lexes t' ks' ahead) :
    Lexes (t ++ t') (ks ++ ks') ahead := h.append h' fun _ _ => True.intro

theorem nil : Lexes [] [] Anything := by
  intro position rest _
  refine ⟨[], rfl, ?_⟩
  change Token.scanFrom 0 position rest = (Token.scanFrom 0 position rest).map _
  cases Token.scanFrom 0 position rest <;> rfl

/-- A blank is passed over. -/
theorem blank {c : Char} (h : isBlank c = true) : Lexes [c] [] Anything := by
  intro position rest _
  refine ⟨[], rfl, ?_⟩
  change (if isBlank c then Token.scanFrom 0 (position + c.utf8Size) rest else _) =
    (Token.scanFrom 0 (position + c.utf8Size) rest).map _
  rw [if_pos h]
  cases Token.scanFrom 0 (position + c.utf8Size) rest <;> rfl

/-- A spelling is read as one token. -/
theorem spelling {k : Kind} (h : Kind.Spelling t k) : Lexes t [k] (Stops k.goesOn) := by
  intro position rest hr
  obtain ⟨c, cs, rfl, hc⟩ := h.head
  refine ⟨[⟨position, k⟩], rfl, ?_⟩
  rw [List.cons_append, Token.scanFrom, if_neg (by rw [hc]; exact Bool.false_ne_true),
    Token.readToken_of_spelling h hr]
  dsimp only
  rw [Token.scanFrom_append, size, Nat.add_assoc]
  rfl

/-- A text that is read to its end. -/
theorem scan (h : Lexes t ks ahead) (hn : ahead none) :
    ∃ tokens, Token.scan t = .ok tokens ∧ tokens.map Token.kind = ks := by
  obtain ⟨tokens, hk, hs⟩ := h 0 [] hn
  refine ⟨tokens, ?_, hk⟩
  rw [List.append_nil] at hs
  rw [Token.scan, hs]
  change Except.ok (tokens ++ []) = _
  rw [List.append_nil]

end Lexes

end FlatDb
