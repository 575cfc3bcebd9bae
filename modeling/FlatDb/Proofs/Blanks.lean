import FlatDb.Proofs.Grammar
import FlatDb.Proofs.Pieces
import FlatDb.Proofs.Scanning
import Mathlib.Data.List.TakeWhile

/-! # White space around a text

White space before and behind a text changes where its tokens stand and which error is reported, but
neither whether it divides into tokens nor into which.

* `Token.readToken_append_rest`: a token that is no quoted text is read without looking past white
  space; a quoted text goes on through white space, but white space does not end it
  (`Token.quotedBody_append_blanks`).
* `Token.kinds?` are the kinds of the tokens of a text, if it has tokens.  `Token.kinds?_trim`: **they
  are those of the text without white space around it**.
* `Command.parse_trim`: **so are the commands that a text spells**.  A carriage return counts as white
  space (`Text.trim_dropReturn`). -/

namespace FlatDb

open Text

namespace Text

section runs
variable {p : Char → Bool} {rest : Text}

/-- A run ends at the end of a text, if what follows does not go on with it. -/
theorem takeWhile_append_rest (h : Stops p rest.head?) (t : Text) :
    (t ++ rest).takeWhile p = t.takeWhile p := by
  induction t with
  | nil => exact takeWhile_of_stops h
  | cons c t ih =>
      rw [List.cons_append, List.takeWhile_cons, List.takeWhile_cons]
      split
      · rw [ih]
      · rfl

theorem dropWhile_append_rest (h : Stops p rest.head?) (t : Text) :
    (t ++ rest).dropWhile p = t.dropWhile p ++ rest := by
  induction t with
  | nil => exact dropWhile_of_stops h
  | cons c t ih =>
      rw [List.cons_append, List.dropWhile_cons, List.dropWhile_cons]
      split
      · exact ih
      · rfl

end runs

/-- Nothing but white space. -/
def Blanks (t : Text) : Prop := ∀ c ∈ t, isBlank c = true

theorem blanks_iff {t : Text} : Blanks t ↔ allBlank t = true := by
  simp [Blanks, allBlank]

theorem blanks_nil : Blanks [] := fun _ h => absurd h List.not_mem_nil

/-- White space goes on with no token. -/
theorem Blanks.stops {t : Text} (h : Blanks t) : Stops Token.goesOn t.head? := by
  intro c hc
  have hblank := h c (List.mem_of_head? hc)
  rw [Token.goesOn, Bool.or_eq_false_iff, Bool.eq_false_iff, Bool.eq_false_iff]
  constructor
  · intro ha
    rw [isBlank_of_isAlphanum ha] at hblank
    cases hblank
  · intro hdot
    rw [eq_of_beq hdot] at hblank
    exact absurd hblank (by decide)

theorem Blanks.stops_equals {t : Text} (h : Blanks t) : Stops (· == '=') t.head? := by
  intro c hc
  rw [beq_eq_false_iff_ne]
  rintro rfl
  exact absurd (h _ (List.mem_of_head? hc)) (by decide)

end Text

namespace Token

/-! ### Single tokens -/

section rest
variable {rest : Text} (h : Stops goesOn rest.head?)
include h

theorem fraction_append_rest (t : Text) : fraction (t ++ rest) = fraction t := by
  cases t with
  | nil => exact fraction_of_stops h
  | cons c t =>
      by_cases hc : c = '.'
      · subst hc
        cases t with
        | cons d t =>
            change (if d.isDigit then '.' :: (d :: t ++ rest).takeWhile Char.isDigit else []) = _
            rw [takeWhile_append_rest (stops_isDigit h)]
            rfl
        | nil =>
            cases rest with
            | nil => rfl
            | cons d rest =>
                have hd : d.isDigit = false := stops_isDigit h d rfl
                change (if d.isDigit then _ else []) = _
                rw [hd]
                rfl
      · have hne (more : Text) : fraction (c :: more) = [] := by
          unfold fraction
          split
          · next heq =>
              cases heq
              exact absurd rfl hc
          · rfl
        rw [List.cons_append, hne, hne]

theorem unsignedNumber_append_rest (t : Text) : unsignedNumber (t ++ rest) = unsignedNumber t := by
  have hdigit := stops_isDigit h
  unfold unsignedNumber
  rw [takeWhile_append_rest hdigit, dropWhile_append_rest hdigit, fraction_append_rest h]

theorem wordAt_append_rest (t : Text) : wordAt (t ++ rest) = wordAt t :=
  takeWhile_append_rest (stops_isAlphanum h) t

theorem startsWithDigit_append_rest (t : Text) :
    startsWithDigit (t ++ rest) = startsWithDigit t := by
  cases t with
  | cons c t => rfl
  | nil =>
      cases rest with
      | nil => rfl
      | cons c rest => exact stops_isDigit h c rfl

theorem isDigitWord_append_rest (t : Text) : isDigitWord (t ++ rest) = isDigitWord t := by
  unfold isDigitWord
  rw [dropWhile_append_rest (stops_isDigit h)]
  cases t.dropWhile Char.isDigit with
  | cons c more => rfl
  | nil =>
      cases rest with
      | nil => rfl
      | cons c rest =>
          have hc := stops_isAlphanum h c rfl
          rw [isAlphanum_eq, Bool.or_eq_false_iff] at hc
          exact hc.1

end rest

theorem readToken_bang {cs : Text} (h : ∀ more, cs ≠ '=' :: more) :
    readToken '!' cs = .error ⟨.unexpected '!', 0⟩ := by
  rw [readToken]
  · have hsign : ¬ ('!' = '+' ∨ '!' = '-') := by decide
    rw [if_neg fun hc => hsign hc.1]
    rfl
  all_goals first | decide | exact fun _ he => absurd he (by decide) | exact fun more _ => h more

/-- A sign is read alike before texts that do not begin with an equals sign. -/
theorem readToken_sign_congr {c : Char} (hm : c ∈ signs) (hc : c ≠ '\'') {cs cs' : Text}
    (h : ∀ more, cs ≠ '=' :: more) (h' : ∀ more, cs' ≠ '=' :: more) :
    readToken c cs = readToken c cs' := by
  have hall : c ∈ [',', '(', ')', ';', '*', '=', '>', '<', '!', '\''] := hm
  simp only [List.mem_cons, List.not_mem_nil, or_false] at hall
  rcases hall with rfl | rfl | rfl | rfl | rfl | rfl | rfl | rfl | rfl | rfl
  case inr.inr.inr.inr.inr.inr.inr.inr.inl => rw [readToken_bang h, readToken_bang h']
  case inr.inr.inr.inr.inr.inr.inr.inr.inr => exact absurd rfl hc
  all_goals first
    | rfl
    | rw [readToken, readToken]
      · exact h'
      · exact h

/-- A token that is no quoted text is read without looking at the white space behind it. -/
theorem readToken_append_rest {rest : Text} (h : Stops goesOn rest.head?)
    (he : Stops (· == '=') rest.head?) {c : Char} (hc : c ≠ '\'') (cs : Text) :
    readToken c (cs ++ rest) = readToken c cs := by
  by_cases hm : c ∈ signs
  · by_cases heq : ∃ more, cs = '=' :: more
    · obtain ⟨more, rfl⟩ := heq
      have hall : c ∈ [',', '(', ')', ';', '*', '=', '>', '<', '!', '\''] := hm
      simp only [List.mem_cons, List.not_mem_nil, or_false] at hall
      rcases hall with rfl | rfl | rfl | rfl | rfl | rfl | rfl | rfl | rfl | rfl
      case inr.inr.inr.inr.inr.inr.inr.inr.inr => exact absurd rfl hc
      all_goals rfl
    · have hne : ∀ more, cs ≠ '=' :: more := fun more hcs => heq ⟨more, hcs⟩
      refine readToken_sign_congr hm hc (fun more => ?_) hne
      cases cs with
      | nil => exact stops_equals he more
      | cons d cs =>
          rintro ⟨⟩
          exact hne cs rfl
  · have hnumber := unsignedNumber_append_rest h (c :: cs)
    have hword := wordAt_append_rest h (c :: cs)
    have hdigits := isDigitWord_append_rest h (c :: cs)
    rw [List.cons_append] at hnumber hword hdigits
    rw [readToken_eq_of_not_mem hm, readToken_eq_of_not_mem hm, startsWithDigit_append_rest h,
      unsignedNumber_append_rest h, hnumber, hword, hdigits]

theorem toOption_map {ε α β : Type} (f : α → β) (x : Except ε α) :
    (x.map f).toOption = x.toOption.map f := by
  cases x <;> rfl

/-- White space does not end a quoted text. -/
theorem quotedBody_append_blanks {blanks : Text} (hb : Blanks blanks) (offset : Nat) (cs : Text) :
    (quotedBody offset (cs ++ blanks)).toOption = (quotedBody offset cs).toOption := by
  induction cs generalizing offset with
  | nil =>
      cases hq : quotedBody offset ([] ++ blanks) with
      | error e => rfl
      | ok body =>
          obtain ⟨-, rest, hrest⟩ := quotedBody_eq_ok_iff.mp hq
          have hmem : '\'' ∈ blanks := by
            rw [← List.nil_append blanks, hrest]
            exact List.mem_append_right _ List.mem_cons_self
          exact absurd (hb _ hmem) (by decide)
  | cons c cs ih =>
      rw [List.cons_append, quotedBody, quotedBody]
      split
      · rfl
      · split
        · rfl
        · split
          · rfl
          · rw [toOption_map, toOption_map, ih]

/-- A token is read in front of white space just as at the end of a text, if it can be read at all. -/
theorem readToken_append_blanks {blanks : Text} (hb : Blanks blanks) (c : Char) (cs : Text) :
    (readToken c (cs ++ blanks)).toOption = (readToken c cs).toOption := by
  by_cases hc : c = '\''
  · subst hc
    change ((quotedBody 1 (cs ++ blanks)).map _).toOption = ((quotedBody 1 cs).map _).toOption
    rw [toOption_map, toOption_map, quotedBody_append_blanks hb]
  · rw [readToken_append_rest hb.stops hb.stops_equals hc]

/-! ### Texts -/

/-- Reading on after a token, if one is read. -/
theorem toOption_scanFrom {c : Char} (hc : isBlank c = false) (position : Nat) (cs : Text) :
    (scanFrom 0 position (c :: cs)).toOption =
      (readToken c cs).toOption.bind fun x =>
        (scanFrom x.2 (position + c.utf8Size) cs).toOption.map (⟨position, x.1⟩ :: ·) := by
  rw [scanFrom, if_neg (by rw [hc]; exact Bool.false_ne_true)]
  cases readToken c cs with
  | error e => rfl
  | ok x => exact toOption_map _ _

theorem scanFrom_blanks {blanks : Text} (hb : Blanks blanks) (skip position : Nat) :
    scanFrom skip position blanks = .ok [] := by
  induction blanks generalizing skip position with
  | nil => cases skip <;> rfl
  | cons c blanks ih =>
      have hmore : Blanks blanks := fun d hd => hb d (List.mem_cons_of_mem _ hd)
      cases skip with
      | succ skip => exact ih hmore skip _
      | zero =>
          rw [scanFrom, if_pos (hb c List.mem_cons_self)]
          exact ih hmore 0 _

theorem scanFrom_blanks_append {blanks : Text} (hb : Blanks blanks) (position : Nat) (t : Text) :
    scanFrom 0 position (blanks ++ t) = scanFrom 0 (position + size blanks) t := by
  induction blanks generalizing position with
  | nil => rfl
  | cons c blanks ih =>
      have hmore : Blanks blanks := fun d hd => hb d (List.mem_cons_of_mem _ hd)
      rw [List.cons_append, scanFrom, if_pos (hb c List.mem_cons_self), ih hmore, size,
        Nat.add_assoc]

/-- White space behind a text changes nothing but the error, if there is one. -/
theorem scanFrom_append_blanks {blanks : Text} (hb : Blanks blanks) (skip position : Nat) (t : Text) :
    (scanFrom skip position (t ++ blanks)).toOption = (scanFrom skip position t).toOption := by
  induction t generalizing skip position with
  | nil => rw [List.nil_append, scanFrom_blanks hb, scanFrom_blanks blanks_nil]
  | cons c cs ih =>
      cases skip with
      | succ skip => exact ih skip _
      | zero =>
          cases hc : isBlank c with
          | true =>
              rw [List.cons_append, scanFrom, scanFrom, if_pos hc, if_pos hc]
              exact ih 0 _
          | false =>
              rw [List.cons_append, toOption_scanFrom hc, toOption_scanFrom hc,
                readToken_append_blanks hb]
              simp only [ih]

/-- The kinds of the tokens do not depend on where a text begins. -/
theorem kinds_scanFrom (skip position other : Nat) (t : Text) :
    (scanFrom skip position t).toOption.map (List.map kind) =
      (scanFrom skip other t).toOption.map (List.map kind) := by
  induction t generalizing skip position other with
  | nil => cases skip <;> rfl
  | cons c cs ih =>
      cases skip with
      | succ skip => exact ih skip _ _
      | zero =>
          cases hc : isBlank c with
          | true =>
              rw [scanFrom, scanFrom, if_pos hc, if_pos hc]
              exact ih 0 _ _
          | false =>
              have hcons (x : Kind × Nat) (here : Nat) (tokens : Option (List Token)) :
                  (tokens.map (⟨here, x.1⟩ :: ·)).map (List.map kind) =
                    (tokens.map (List.map kind)).map (x.1 :: ·) := by
                cases tokens <;> rfl
              rw [toOption_scanFrom hc, toOption_scanFrom hc, Option.map_bind, Option.map_bind]
              refine Option.bind_congr fun x _ => ?_
              rw [Function.comp_apply, Function.comp_apply, hcons, hcons,
                ih x.2 (position + c.utf8Size) (other + c.utf8Size)]

/-- The kinds of the tokens of a text, if it divides into tokens. -/
def kinds? (t : Text) : Option (List Kind) := (scan t).toOption.map (List.map kind)

theorem kinds?_append_blanks {blanks : Text} (hb : Blanks blanks) (t : Text) :
    kinds? (t ++ blanks) = kinds? t := congrArg (Option.map _) (scanFrom_append_blanks hb 0 0 t)

theorem kinds?_blanks_append {blanks : Text} (hb : Blanks blanks) (t : Text) :
    kinds? (blanks ++ t) = kinds? t := by
  unfold kinds? scan
  rw [scanFrom_blanks_append hb]
  exact kinds_scanFrom 0 _ _ t

end Token

namespace Text

/-- A text is what is left of it without the white space around it, and the white space. -/
theorem exists_blanks_trim (t : Text) :
    ∃ before after, Blanks before ∧ Blanks after ∧ t = before ++ (t.trim ++ after) := by
  have hblanks (s : Text) : Blanks (s.takeWhile isBlank) := fun c hc => List.mem_takeWhile_imp hc
  refine ⟨t.takeWhile isBlank, ((t.dropWhile isBlank).reverse.takeWhile isBlank).reverse, hblanks _,
    fun c hc => hblanks _ c (List.mem_reverse.mp hc), ?_⟩
  rw [trim, trimEnd, ← List.reverse_append, List.takeWhile_append_dropWhile, List.reverse_reverse,
    List.takeWhile_append_dropWhile]

theorem trimEnd_append_blanks {blanks : Text} (hb : Blanks blanks) (t : Text) :
    trimEnd (t ++ blanks) = trimEnd t := by
  have hrev : ∀ c ∈ blanks.reverse, isBlank c = true := fun c hc => hb c (List.mem_reverse.mp hc)
  rw [trimEnd, List.reverse_append, List.dropWhile_append_of_pos hrev]
  rfl

/-- White space behind a text does not count when it is trimmed. -/
theorem trim_append_blanks {blanks : Text} (hb : Blanks blanks) (t : Text) :
    (t ++ blanks).trim = t.trim := by
  unfold trim
  by_cases ht : Blanks t
  · have hdrop {s : Text} (hs : Blanks s) : s.dropWhile isBlank = [] :=
      List.dropWhile_eq_nil_iff.mpr hs
    rw [hdrop ht, hdrop fun c hc => (List.mem_append.mp hc).elim (ht c) (hb c)]
  · have hne : t.dropWhile isBlank ≠ [] := fun h => ht (List.dropWhile_eq_nil_iff.mp h)
    rw [List.dropWhile_append, if_neg (by simpa using hne), trimEnd_append_blanks hb]

/-- The carriage return of a line end does not count when a line is trimmed. -/
theorem trim_dropReturn (line : Text) : trim (dropReturn '\r' line) = line.trim := by
  unfold dropReturn
  split
  · next hlast =>
      obtain ⟨before, rfl⟩ := List.getLast?_eq_some_iff.mp hlast
      have hreturn : Blanks ['\r'] := by
        intro c hc
        rw [List.mem_singleton.mp hc]
        decide
      rw [List.dropLast_concat, trim_append_blanks hreturn]
  · rfl

theorem trim_eq_nil_iff {t : Text} : t.trim = [] ↔ Blanks t := by
  constructor
  · intro h
    obtain ⟨before, after, hbefore, hafter, ht⟩ := exists_blanks_trim t
    rw [h, List.nil_append] at ht
    rw [ht]
    exact fun c hc => (List.mem_append.mp hc).elim (hbefore c) (hafter c)
  · intro h
    rw [trim, List.dropWhile_eq_nil_iff.mpr h]
    rfl

end Text

/-- **White space around a text** does not change its tokens. -/
theorem Token.kinds?_trim (t : Text) : kinds? t.trim = kinds? t := by
  obtain ⟨before, after, hbefore, hafter, ht⟩ := exists_blanks_trim t
  have hkinds := congrArg kinds? ht
  rw [kinds?_blanks_append hbefore, kinds?_append_blanks hafter] at hkinds
  exact hkinds.symm

namespace Command

/-- A command is spelled by the kinds of tokens. -/
theorem parse_eq_ok_iff_kinds? {t : Text} {c : Command} :
    parse t = .ok c ↔ ∃ ks, Token.kinds? t = some ks ∧ Accepted ks c := by
  unfold Token.kinds?
  cases hs : Token.scan t with
  | error e =>
      refine iff_of_false (fun h => ?_) (by simp [Except.toOption])
      obtain ⟨tokens, htokens⟩ := scan_of_parse h
      rw [hs] at htokens
      cases htokens
  | ok tokens =>
      rw [parse_of_scan hs, ofTokens?_eq_ok_iff]
      simp [Except.toOption]

/-- **White space around a text** does not change the command that it spells. -/
theorem parse_trim (t : Text) (c : Command) : parse t.trim = .ok c ↔ parse t = .ok c := by
  rw [parse_eq_ok_iff_kinds?, parse_eq_ok_iff_kinds?, Token.kinds?_trim]

end Command

end FlatDb
