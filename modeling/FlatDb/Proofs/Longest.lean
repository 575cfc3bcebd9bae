import FlatDb.Proofs.Blanks

/-! # The longest token

Where several tokens could begin, the longest one does.

* `Text.Longest` says of a spelling and what follows it that no longer text goes by the same rule.
* `Kind.Maximal` says which rule that is for which kind of token: words, numbers, and the equals sign
  with the comparisons.  Digits that run into letters are a word, not a number.
* `Token.readToken_eq_ok_iff`: **a token is read exactly if it is spelled there and maximal**.  So the
  lexer needs no other description; that it does not see what is behind a blank
  (`Kind.Maximal.append`), nor misses what is cut off (`Kind.Maximal.of_append`), is seen from this. -/

namespace FlatDb

open Text

namespace Text

/-- No text that begins like `spelling` and goes on with what follows is longer and goes by the
rule. -/
def Longest (rule : Text → Prop) (spelling rest : Text) : Prop :=
  ∀ t, t <+: spelling ++ rest → rule t → t.length ≤ spelling.length

/-- An equals sign, or a comparison that is spelled by signs. -/
def IsSign (t : Text) : Prop := t = ['='] ∨ ∃ op : Operator, op ≠ .like ∧ t = op.text

/-- A rule that admits no blank. -/
def Solid (rule : Text → Prop) : Prop := ∀ t, rule t → ∀ c ∈ t, isBlank c = false

section longest
variable {rule : Text → Prop} {spelling rest more : Text}

theorem Longest.of_append (h : Longest rule spelling (rest ++ more)) : Longest rule spelling rest := by
  intro t ht hrule
  refine h t ?_ hrule
  rw [← List.append_assoc]
  exact ht.trans (List.prefix_append _ _)

/-- What goes by a rule without blanks does not reach over a blank. -/
theorem prefix_of_solid (hsolid : Solid rule) (hmore : ∀ c, more.head? = some c → isBlank c = true)
    {t text : Text} (ht : t <+: text ++ more) (hrule : rule t) : t <+: text := by
  rcases List.prefix_or_prefix_of_prefix ht (List.prefix_append text more) with h | ⟨used, rfl⟩
  · exact h
  cases used with
  | nil => exact (List.append_nil text).symm ▸ List.prefix_rfl
  | cons c used =>
      obtain ⟨behind, rfl⟩ := (List.prefix_append_right_inj text).mp ht
      have hblank := hmore c rfl
      rw [hsolid _ hrule c (List.mem_append_right _ List.mem_cons_self)] at hblank
      cases hblank

theorem Longest.append (h : Longest rule spelling rest) (hsolid : Solid rule)
    (hmore : ∀ c, more.head? = some c → isBlank c = true) : Longest rule spelling (rest ++ more) := by
  intro t ht hrule
  rw [← List.append_assoc] at ht
  exact h t (prefix_of_solid hsolid hmore ht hrule) hrule

end longest

theorem solid_isWord : Solid IsWord := fun _ h c hc => isBlank_of_isAlphanum (h.1 c hc)

theorem solid_isDigits : Solid IsDigits :=
  fun _ h c hc => isBlank_of_isAlphanum (isAlphanum_of_isDigit (h.2 c hc))

theorem solid_isDecimal : Solid IsDecimal := by
  rintro _ (h | @⟨t, fraction, h, hf⟩) c hc
  · exact solid_isDigits _ h c hc
  · rcases List.mem_append.mp hc with hc | hc
    · exact solid_isDigits _ h c hc
    · rcases List.mem_cons.mp hc with rfl | hc
      · decide
      · exact solid_isDigits _ hf c hc

theorem solid_isNumber : Solid IsNumber := by
  rintro _ (h | ⟨hsign, h⟩) c hc
  · exact solid_isDecimal _ h c hc
  · rcases List.mem_cons.mp hc with rfl | hc
    · rcases hsign with rfl | rfl <;> decide
    · exact solid_isDecimal _ h c hc

theorem isSign_cases {t : Text} (h : IsSign t) :
    (∃ c, t = [c]) ∨ ∃ c, t = [c, '='] := by
  rcases h with rfl | ⟨op, hop, rfl⟩
  · exact .inl ⟨_, rfl⟩
  · cases op with
    | like => exact absurd rfl hop
    | greater | less => exact .inl ⟨_, rfl⟩
    | equal | notEqual | greaterOrEqual | lessOrEqual => exact .inr ⟨_, rfl⟩

theorem isSign_operator {op : Operator} (h : op ≠ .like) : IsSign op.text := .inr ⟨op, h, rfl⟩

theorem solid_isSign : Solid IsSign := by
  rintro _ (rfl | ⟨op, hop, rfl⟩)
  · exact List.forall_mem_singleton.mpr rfl
  · cases op with
    | like => exact absurd rfl hop
    | greater | less => exact List.forall_mem_singleton.mpr rfl
    | equal | notEqual | greaterOrEqual | lessOrEqual =>
        exact List.forall_mem_cons.mpr ⟨rfl, List.forall_mem_singleton.mpr rfl⟩

end Text

/-! ### Which tokens are maximal -/

namespace Kind

/-- A token is as long as its rule allows before what follows; digits that run into letters are no
number. -/
def Maximal (spelling rest : Text) : Kind → Prop
  | comma | parenOpen | parenClose | semicolon | star | quoted _ => True
  | assign | operator .equal | operator .notEqual | operator .greater | operator .greaterOrEqual
  | operator .less | operator .lessOrEqual => Longest IsSign spelling rest
  | number _ => Longest IsNumber spelling rest ∧ ∀ t, t <+: spelling ++ rest → ¬ IsWord t
  | operator .like | verb _ | keyword _ | boolean _ | null | word _ => Longest IsWord spelling rest

theorem maximal_reserved {spelling rest : Text} :
    ∀ e ∈ reserved, e.2.Maximal spelling rest ↔ Longest IsWord spelling rest := by
  intro e he
  simp only [reserved, List.mem_append, List.mem_map] at he
  rcases he with (⟨v, -, rfl⟩ | ⟨k, -, rfl⟩) | he
  · exact Iff.rfl
  · exact Iff.rfl
  · simp only [List.mem_cons, List.not_mem_nil, or_false] at he
    rcases he with rfl | rfl | rfl | rfl <;> exact Iff.rfl

theorem maximal_ofWord {t spelling rest : Text} :
    (ofWord t).Maximal spelling rest ↔ Longest IsWord spelling rest := by
  unfold ofWord
  split
  · next name kind hf => exact maximal_reserved _ (List.mem_of_find?_eq_some hf)
  · exact Iff.rfl

variable {spelling rest more : Text} {k : Kind}

/-- What is cut off a text does not make a token longer. -/
theorem Maximal.of_append (h : k.Maximal spelling (rest ++ more)) : k.Maximal spelling rest := by
  cases k with
  | comma | parenOpen | parenClose | semicolon | star | quoted _ => trivial
  | number _ =>
      refine ⟨h.1.of_append, fun t ht => h.2 t ?_⟩
      rw [← List.append_assoc]
      exact ht.trans (List.prefix_append _ _)
  | operator op => cases op <;> exact Longest.of_append h
  | assign | verb _ | keyword _ | boolean _ | null | word _ => exact Longest.of_append h

/-- What is behind a blank does not make a token longer. -/
theorem Maximal.append (h : k.Maximal spelling rest)
    (hmore : ∀ c, more.head? = some c → isBlank c = true) : k.Maximal spelling (rest ++ more) := by
  cases k with
  | comma | parenOpen | parenClose | semicolon | star | quoted _ => trivial
  | number _ =>
      refine ⟨h.1.append solid_isNumber hmore, fun t ht hword => h.2 t ?_ hword⟩
      rw [← List.append_assoc] at ht
      exact prefix_of_solid solid_isWord hmore ht hword
  | assign => exact Longest.append h solid_isSign hmore
  | operator op =>
      cases op with
      | like => exact Longest.append h solid_isWord hmore
      | equal | notEqual | greater | greaterOrEqual | less | lessOrEqual =>
          exact Longest.append h solid_isSign hmore
  | verb _ | keyword _ | boolean _ | null | word _ => exact Longest.append h solid_isWord hmore

end Kind

namespace Token

/-! ### What is read is maximal -/

theorem length_le_takeWhile {p : Char → Bool} {t text : Text} (ht : t <+: text)
    (hall : ∀ c ∈ t, p c = true) : t.length ≤ (text.takeWhile p).length := by
  obtain ⟨rest, rfl⟩ := ht
  rw [List.takeWhile_append_of_pos hall, List.length_append]
  exact Nat.le_add_right _ _

/-- The decimal that is read is as long as any other. -/
theorem length_le_unsignedNumber {t text : Text} (ht : t <+: text) (h : IsDecimal t) :
    t.length ≤ (unsignedNumber text).length := by
  rw [unsignedNumber, List.length_append]
  cases h with
  | whole h => exact (length_le_takeWhile ht h.2).trans (Nat.le_add_right _ _)
  | @point whole digits h hf =>
      obtain ⟨rest, rfl⟩ := ht
      have hpoint : Stops Char.isDigit ('.' :: (digits ++ rest)).head? := stops_some (by decide)
      rw [List.append_assoc, List.cons_append, takeWhile_append_stops h.2 hpoint,
        dropWhile_append_stops h.2 hpoint, List.length_append]
      refine Nat.add_le_add_left ?_ _
      cases digits with
      | nil => exact absurd rfl hf.1
      | cons d ds =>
          have hfraction : fraction ('.' :: (d :: ds ++ rest)) =
              '.' :: (d :: ds ++ rest).takeWhile Char.isDigit := if_pos (hf.2 d List.mem_cons_self)
          rw [hfraction]
          exact Nat.succ_le_succ (length_le_takeWhile (List.prefix_append _ _) hf.2)

/-- A number that begins with a digit has no sign. -/
theorem isDecimal_of_isNumber {c : Char} {t : Text} (hc : c.isDigit = true) (h : IsNumber (c :: t)) :
    IsDecimal (c :: t) := by
  cases h with
  | unsigned h => exact h
  | signed hsign h => rcases hsign with rfl | rfl <;> cases hc

theorem longest_unsigned {c : Char} {cs rest : Text} (hc : c.isDigit = true)
    (ht : c :: cs = unsignedNumber (c :: cs) ++ rest) :
    Longest IsNumber (unsignedNumber (c :: cs)) rest := by
  intro t hprefix hnumber
  rw [← ht] at hprefix
  cases t with
  | nil => exact Nat.zero_le _
  | cons d t =>
      obtain rfl : d = c := (List.cons_prefix_cons.mp hprefix).1
      exact length_le_unsignedNumber hprefix (isDecimal_of_isNumber hc hnumber)

theorem longest_signed {c : Char} {cs rest : Text} (hc : c = '+' ∨ c = '-')
    (ht : cs = unsignedNumber cs ++ rest) : Longest IsNumber (c :: unsignedNumber cs) rest := by
  intro t hprefix hnumber
  rw [List.cons_append, ← ht] at hprefix
  cases hnumber with
  | unsigned h =>
      obtain ⟨d, more, rfl, hd⟩ := head_of_isDecimal h
      obtain ⟨rfl, -⟩ := List.cons_prefix_cons.mp hprefix
      rcases hc with rfl | rfl <;> cases hd
  | signed _ h =>
      exact Nat.succ_le_succ (length_le_unsignedNumber (List.cons_prefix_cons.mp hprefix).2 h)

/-- A sign is no letter and no digit, so it begins no word. -/
theorem not_isWord_of_signed {c : Char} {cs t : Text} (hc : c = '+' ∨ c = '-') (ht : t <+: c :: cs) :
    ¬ IsWord t := by
  intro h
  cases t with
  | nil => exact h.isName.1 rfl
  | cons d t =>
      obtain rfl := (List.cons_prefix_cons.mp ht).1
      have ha := h.1 d List.mem_cons_self
      rcases hc with rfl | rfl <;> cases ha

theorem not_isWord_of_isDigitWord {text t : Text} (h : isDigitWord text = false) (ht : t <+: text) :
    ¬ IsWord t := by
  intro hword
  obtain ⟨rest, rfl⟩ := ht
  rw [isDigitWord_append_word hword] at h
  cases h

theorem longest_word {text rest : Text} (ht : text = wordAt text ++ rest) :
    Longest IsWord (wordAt text) rest := by
  intro t hprefix hword
  rw [← ht] at hprefix
  exact length_le_takeWhile hprefix hword.1

/-- A sign of one character ends where no equals sign follows. -/
theorem longest_sign {c : Char} {cs : Text} (h : ∀ more, cs ≠ '=' :: more) :
    Longest IsSign [c] cs := by
  intro t hprefix hsign
  rcases isSign_cases hsign with ⟨d, rfl⟩ | ⟨d, rfl⟩
  · exact Nat.le_refl 1
  · obtain ⟨more, hmore⟩ := (List.cons_prefix_cons.mp hprefix).2
    exact absurd hmore.symm (h more)

theorem longest_sign_pair {spelling rest : Text} (h : spelling.length = 2) :
    Longest IsSign spelling rest := by
  intro t _ hsign
  rcases isSign_cases hsign with ⟨d, rfl⟩ | ⟨d, rfl⟩ <;> simp [h]

theorem maximal_unsigned {s : Text} {c : Char} {cs rest : Text} (hc : c.isDigit = true)
    (hword : isDigitWord (c :: cs) = false) (ht : c :: cs = unsignedNumber (c :: cs) ++ rest) :
    (Kind.number s).Maximal (unsignedNumber (c :: cs)) rest := by
  refine ⟨longest_unsigned hc ht, fun t hprefix => ?_⟩
  rw [← ht] at hprefix
  exact not_isWord_of_isDigitWord hword hprefix

theorem maximal_signed {s : Text} {c : Char} {cs rest : Text} (hc : c = '+' ∨ c = '-')
    (ht : cs = unsignedNumber cs ++ rest) :
    (Kind.number s).Maximal (c :: unsignedNumber cs) rest :=
  ⟨longest_signed hc ht, fun _ hprefix => not_isWord_of_signed hc hprefix⟩

/-- What is read as a token is as long as it can be. -/
theorem maximal_of_readToken {c : Char} {cs used rest : Text} {k : Kind} {n : Nat}
    (h : readToken c cs = .ok (k, n)) (hcs : cs = used ++ rest) (hn : used.length = n) :
    k.Maximal (c :: used) rest := by
  have single {k : Kind} (hk : k.Maximal [c] cs) (hn : used.length = 0) :
      k.Maximal (c :: used) rest := by
    obtain rfl := List.eq_nil_of_length_eq_zero hn
    rwa [hcs] at hk
  have pair (hn : used.length = 1) : Longest IsSign (c :: used) rest :=
    longest_sign_pair (congrArg Nat.succ hn)
  have front {t behind : Text} (ht : c :: cs = t ++ behind) (hne : t ≠ [])
      (hn : used.length = t.length - 1) : t = c :: used ∧ behind = rest := by
    have hpos := List.length_pos_iff.mpr hne
    rw [hcs, ← List.cons_append] at ht
    exact List.append_inj ht.symm (by rw [List.length_cons]; omega)
  unfold readToken at h
  split at h
  case h_1 | h_2 | h_3 | h_4 | h_5 => cases h; trivial
  case h_6 | h_8 | h_10 | h_12 => cases h; exact pair hn
  case h_7 | h_9 | h_11 =>
    next hnext =>
      cases h
      exact single (longest_sign hnext) hn
  case h_13 =>
    cases hq : quotedBody 1 cs with
    | error e =>
        rw [hq] at h
        cases h
    | ok body =>
        rw [hq] at h
        cases h
        trivial
  case h_14 =>
    split at h
    · next hc =>
        cases h
        obtain ⟨behind, hbehind⟩ := append_unsignedNumber cs
        obtain ⟨rfl, rfl⟩ := List.append_inj (hcs.symm.trans hbehind) hn
        exact maximal_signed hc.1 hbehind
    · split at h
      · next hd =>
          cases h
          obtain ⟨behind, hbehind⟩ := append_unsignedNumber (c :: cs)
          obtain ⟨d, more, hdigits, -⟩ := head_of_isDecimal (@isDecimal_unsignedNumber (c :: cs) hd.1)
          have hmax := @maximal_unsigned (c :: used) _ _ _ hd.1 (by simpa using hd.2) hbehind
          obtain ⟨hu, rfl⟩ := front hbehind (by rw [hdigits]; exact List.cons_ne_nil _ _) hn
          rw [hu] at hmax
          exact hmax
      · next hd =>
          split at h
          · next hc =>
              cases h
              have hbehind : c :: cs = wordAt (c :: cs) ++ (c :: cs).dropWhile Char.isAlphanum :=
                List.takeWhile_append_dropWhile.symm
              have hlong := longest_word hbehind
              obtain ⟨hw, hrest⟩ := front hbehind (isWord_wordAt hc hd).isName.1 hn
              rw [hrest, hw] at hlong
              exact Kind.maximal_ofWord.mpr hlong
          · cases h

/-! ### What is maximal is read -/

theorem stops_of_longest_sign {c : Char} {rest : Text} (h : Longest IsSign [c] rest)
    (hpair : IsSign [c, '=']) : Stops (· == '=') rest.head? := by
  intro d hd
  rw [beq_eq_false_iff_ne]
  rintro rfl
  obtain ⟨more, rfl⟩ := List.head?_eq_some_iff.mp hd
  exact Nat.not_succ_le_self 1 (h [c, '='] ⟨more, rfl⟩ hpair)

theorem stops_of_longest_word {t rest : Text} (h : Longest IsWord t rest) (ht : IsWord t) :
    Stops Char.isAlphanum rest.head? := by
  intro d hd
  obtain ⟨more, rfl⟩ := List.head?_eq_some_iff.mp hd
  by_contra hc
  have hword : IsWord (t ++ [d]) := by
    refine ⟨fun a ha => ?_, ?_⟩
    · rcases List.mem_append.mp ha with ha | ha
      · exact ht.1 a ha
      · rw [List.mem_singleton.mp ha]
        simpa using hc
    · obtain ⟨a, ha, halpha⟩ := ht.2
      exact ⟨a, List.mem_append_left _ ha, halpha⟩
  have hlong := h (t ++ [d]) ⟨more, by simp⟩ hword
  rw [List.length_append] at hlong
  exact Nat.not_succ_le_self _ hlong

/-- The longest decimal at the head of a text is read. -/
theorem unsignedNumber_of_longest {t rest : Text} (h : IsDecimal t)
    (hlong : ∀ u, u <+: t ++ rest → IsDecimal u → u.length ≤ t.length) :
    unsignedNumber (t ++ rest) = t := by
  have hstarts : startsWithDigit (t ++ rest) = true := by
    obtain ⟨d, more, rfl, hd⟩ := head_of_isDecimal h
    exact hd
  obtain ⟨behind, hbehind⟩ := append_unsignedNumber (t ++ rest)
  have hle := hlong _ ⟨behind, hbehind.symm⟩ (isDecimal_unsignedNumber hstarts)
  have hge := length_le_unsignedNumber (List.prefix_append t rest) h
  exact (List.append_inj hbehind (Nat.le_antisymm hge hle)).1.symm

/-- A number is read where it is as long as it can be and begins no word. -/
theorem readToken_number {c : Char} {used rest : Text} (h : IsNumber (c :: used))
    (hmax : (Kind.number (c :: used)).Maximal (c :: used) rest) :
    readToken c (used ++ rest) = .ok (.number (c :: used), used.length) := by
  obtain ⟨hlong, hnoword⟩ := hmax
  cases h with
  | unsigned hdec =>
      obtain ⟨_, _, ⟨⟩, hc⟩ := head_of_isDecimal hdec
      refine readToken_decimal hdec ?_
        (unsignedNumber_of_longest hdec fun u hu hdec => hlong u hu (.unsigned hdec))
      by_contra hdigits
      rw [Bool.not_eq_false] at hdigits
      have hword : IsWord (wordAt (c :: (used ++ rest))) :=
        isWord_wordAt (isAlphanum_of_isDigit hc) (by simp [hdigits])
      exact hnoword _ (List.takeWhile_prefix _) hword
  | signed hsign hdec =>
      have hstarts : startsWithDigit (used ++ rest) = true := by
        obtain ⟨d, more, rfl, hd⟩ := head_of_isDecimal hdec
        exact hd
      have hnot : c ∉ signs := by rcases hsign with rfl | rfl <;> decide +kernel
      have hu : unsignedNumber (used ++ rest) = used :=
        unsignedNumber_of_longest hdec fun u hu hdec =>
          Nat.le_of_succ_le_succ
            (hlong (c :: u) (List.cons_prefix_cons.mpr ⟨rfl, hu⟩) (.signed hsign hdec))
      rw [readToken_eq_of_not_mem hnot, if_pos ⟨hsign, hstarts⟩, hu]

theorem readToken_of_maximal {c : Char} {used rest : Text} {k : Kind}
    (h : Kind.Spelling (c :: used) k) (hmax : k.Maximal (c :: used) rest) :
    readToken c (used ++ rest) = .ok (k, used.length) := by
  have hspelling := h
  generalize ht : c :: used = t at h
  cases h with
  | comma | parenOpen | parenClose | semicolon | star =>
      exact readToken_of_spelling hspelling fun _ _ => rfl
  | assign =>
      cases ht
      exact readToken_of_spelling hspelling
        (stops_of_longest_sign hmax (@isSign_operator .equal (by decide)))
  | @operator op hop =>
      refine readToken_of_spelling hspelling ?_
      cases op with
      | equal | notEqual | greaterOrEqual | lessOrEqual => exact fun _ _ => rfl
      | like => exact absurd rfl hop
      | greater =>
          cases ht
          exact stops_of_longest_sign hmax (@isSign_operator .greaterOrEqual (by decide))
      | less =>
          cases ht
          exact stops_of_longest_sign hmax (@isSign_operator .lessOrEqual (by decide))
  | reserved hmem hs =>
      refine readToken_of_spelling hspelling ?_
      have hlong := (Kind.maximal_reserved _ hmem).mp hmax
      rw [Kind.goesOn_reserved _ hmem]
      rw [ht] at hlong
      exact stops_of_longest_word hlong (isWord_of_sameName (isWord_reserved _ hmem) hs)
  | word hword =>
      refine readToken_of_spelling hspelling ?_
      rw [ht] at hmax
      exact stops_of_longest_word hmax hword.1
  | number hnumber =>
      subst ht
      exact readToken_number hnumber hmax
  | quoted hbody => exact readToken_of_spelling hspelling fun _ _ => rfl

/-- **A token is read exactly if it is spelled there and maximal.** -/
theorem readToken_eq_ok_iff {c : Char} {cs : Text} {k : Kind} {n : Nat} :
    readToken c cs = .ok (k, n) ↔ ∃ used rest, cs = used ++ rest ∧ used.length = n ∧
      Kind.Spelling (c :: used) k ∧ k.Maximal (c :: used) rest := by
  constructor
  · intro h
    obtain ⟨used, rest, hcs, hn, hspelling⟩ := spelling_of_readToken h
    exact ⟨used, rest, hcs, hn, hspelling, maximal_of_readToken h hcs hn⟩
  · rintro ⟨used, rest, rfl, rfl, hspelling, hmax⟩
    exact readToken_of_maximal hspelling hmax

end Token

end FlatDb
