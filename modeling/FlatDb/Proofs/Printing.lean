import FlatDb.Command.Print
import FlatDb.Proofs.Words

/-! # Printing and reading commands

A well-formed command is read from the text it is printed as, although the text has hardly any blanks.

* `Ends` is what may follow a name or a value.  There is one lemma for each production on the pieces of
  text that are printed for it, up to `lexes_print`: the text of a command falls apart into tokens
  that the grammar reads as the command.
* `parse_print`: **printing and reading are inverse**. -/

namespace FlatDb

open Grammar Text

/-! ### Pieces of printed text -/

/-- Nothing that would go on with a name or a value. -/
def Ends : Option Char → Prop := Stops Token.goesOn

namespace Lexes

variable {t : Text} {ks : List Kind} {k : Kind} {ahead : Option Char → Prop}

/-- A spelling that nothing can go on with. -/
theorem closed (h : Kind.Spelling t k) (hg : k.goesOn = fun _ => false) : Lexes t [k] Anything := by
  refine (spelling h).mono fun next _ c _ => ?_
  rw [hg]

/-- A spelling that only some characters can go on with. -/
theorem stopped {p : Char → Bool} (h : Kind.Spelling t k)
    (hg : ∀ c, k.goesOn c = true → p c = true) : Lexes t [k] (Stops p) := by
  refine (spelling h).mono fun next hn c hc => ?_
  by_contra hk
  rw [Bool.not_eq_false] at hk
  exact Bool.false_ne_true ((hn c hc).symm.trans (hg c hk))

theorem name (h : IsIdentifier t) : Lexes t [.word t] (Stops Char.isAlphanum) := spelling (.word h)

theorem name_ends (h : IsIdentifier t) : Lexes t [.word t] Ends :=
  (name h).mono fun _ hn => Token.stops_isAlphanum hn

/-- A reserved word that no letter or digit follows. -/
theorem reserved (h : (t, k) ∈ Kind.reserved) : Lexes t [k] (Stops Char.isAlphanum) := by
  have hl := spelling (.reserved h (sameName_refl t))
  rwa [Kind.goesOn_reserved _ h] at hl

/-- A reserved word and a blank after it. -/
theorem reserved_blank (h : (t, k) ∈ Kind.reserved) : Lexes (t ++ [' ']) [k] Anything := by
  have hb : isBlank ' ' = true := by decide
  have hl := (reserved h).append (blank hb) fun _ _ => stops_some (by decide)
  rwa [List.append_nil] at hl

/-- A blank before a text. -/
theorem after_blank (h : Lexes t ks ahead) : Lexes (' ' :: t) ks ahead := by
  have hb : isBlank ' ' = true := by decide
  exact (blank hb).followed_by h

end Lexes

theorem mem_reserved_verb (v : Verb) : (v.text, .verb v) ∈ Kind.reserved := by
  cases v <;> decide +kernel

theorem mem_reserved_keyword (k : Keyword) : (k.text, .keyword k) ∈ Kind.reserved := by
  cases k <;> decide +kernel

/-- A verb and the blank after it. -/
theorem lexes_verb (v : Verb) : Lexes (v.text ++ [' ']) [.verb v] Anything :=
  .reserved_blank (mem_reserved_verb v)

/-- A keyword and the blank after it. -/
theorem lexes_keyword (k : Keyword) : Lexes (k.text ++ [' ']) [.keyword k] Anything :=
  .reserved_blank (mem_reserved_keyword k)

/-! ### Values and operators -/

theorem isIdentifier_letter {c : Char} (h : c.isAlpha = true) : IsIdentifier [c] := by
  refine ⟨⟨?_, c, List.mem_cons_self, h⟩, fun e he => ?_⟩
  · intro d hd
    rw [List.mem_singleton.mp hd]
    exact isAlphanum_of_isAlpha h
  · -- no reserved word is a single letter
    have hlen : ∀ e ∈ Kind.reserved, e.1.length ≠ 1 := by decide +kernel
    rw [← Bool.not_eq_true, sameName_iff]
    intro hf
    have hl := congrArg List.length hf
    rw [foldCase, foldCase, List.length_map, List.length_map] at hl
    exact hlen e he hl

/-- A value is printed as a spelling of the kind it is read from. -/
theorem spelling_value {v : Literal} (h : v.WellFormed) :
    ∃ k, ValueRule [k] v ∧ Kind.Spelling v.print k ∧
      ∀ c, k.goesOn c = true → Token.goesOn c = true := by
  have halnum : ∀ c : Char, c.isAlphanum = true → Token.goesOn c = true := by
    intro c hc
    rw [Token.goesOn, hc, Bool.true_or]
  cases v with
  | number spelling => exact ⟨_, .number spelling, .number h, fun _ hc => hc⟩
  | quoted body => exact ⟨_, .quoted body, .quoted h, fun _ hc => absurd hc Bool.false_ne_true⟩
  | letter c => exact ⟨_, .letter c, .word (isIdentifier_letter h), halnum⟩
  | boolean b =>
      have hm : ((Literal.boolean b).print, Kind.boolean b) ∈ Kind.reserved := by
        cases b <;> decide +kernel
      exact ⟨_, .boolean b, .reserved hm (sameName_refl _), halnum⟩
  | null =>
      have hm : (Literal.null.print, Kind.null) ∈ Kind.reserved := by decide +kernel
      exact ⟨_, .null, .reserved hm (sameName_refl _), halnum⟩

/-- Only two kinds are spelled with an equals sign first. -/
theorem kind_of_equals {cs : Text} {k : Kind} (h : Kind.Spelling ('=' :: cs) k) :
    k = .assign ∨ k = .operator .equal := by
  have hr : Stops k.goesOn ([] : Text).head? := fun _ hc => nomatch hc
  have ht := Token.readToken_of_spelling h hr
  rw [List.append_nil] at ht
  cases cs with
  | nil => exact .inl (congrArg Prod.fst (Except.ok.inj ht)).symm
  | cons c cs =>
      by_cases hc : c = '='
      · subst hc
        exact .inr (congrArg Prod.fst (Except.ok.inj ht)).symm
      · rw [Token.readToken] at ht
        · exact .inl (congrArg Prod.fst (Except.ok.inj ht)).symm
        · rintro more ⟨⟩
          exact hc rfl

/-- A value as it is printed, and why a sign before it ends where it should. -/
theorem lexes_value {v : Literal} (h : v.WellFormed) :
    ∃ k, ValueRule [k] v ∧ Lexes v.print [k] Ends ∧
      ∀ next, Stops (· == '=') (v.print.head?.or next) := by
  obtain ⟨k, hv, hs, hg⟩ := spelling_value h
  refine ⟨k, hv, .stopped hs hg, ?_⟩
  obtain ⟨c, cs, hp, -⟩ := hs.head
  rw [hp] at hs ⊢
  rintro next d ⟨⟩
  rw [beq_eq_false_iff_ne]
  rintro rfl
  rcases kind_of_equals hs with rfl | rfl <;> cases hv

/-- An operator as it is printed; only LIKE stands between blanks. -/
theorem lexes_operator (op : Operator) :
    Lexes op.print [.operator op] (Stops (· == '=')) ∧
      ∀ next, Stops Char.isAlphanum (op.print.head?.or next) := by
  constructor
  · by_cases h : op = .like
    · subst h
      have hm : (Operator.like.text, Kind.operator .like) ∈ Kind.reserved := by decide +kernel
      exact (Lexes.reserved_blank hm).after_blank.anywhere
    · have hp : op.print = op.text := by
        cases op with
        | like => exact absurd rfl h
        | _ => rfl
      rw [hp]
      refine .stopped (.operator h) fun c hc => ?_
      cases op with
      | like => exact absurd rfl h
      | greater | less => exact hc
      | _ => cases hc
  · cases op <;> rintro next c ⟨⟩ <;> decide

/-! ### Lists and conditions -/

section lists
variable {α : Type} {rule : List Kind → α → Prop} {print : α → Text}

/-- The items of a list are printed with commas alone between them. -/
theorem lexes_join {l : List α} (hne : l ≠ [])
    (h : ∀ a ∈ l, ∃ ks, rule ks a ∧ Lexes (print a) ks Ends) :
    ∃ ks, ListRule rule ks l ∧ Lexes (join ',' (l.map print)) ks Ends := by
  induction l with
  | nil => exact absurd rfl hne
  | cons a l ih =>
      obtain ⟨ks, ha, hl⟩ := h a List.mem_cons_self
      cases l with
      | nil => exact ⟨ks, .last ha, hl⟩
      | cons b l =>
          obtain ⟨more, hr, hm⟩ := ih (List.cons_ne_nil _ _) fun c hc => h c (List.mem_cons_of_mem _ hc)
          exact ⟨_, .more ha hr, hl.append ((Lexes.closed .comma rfl).followed_by hm)
            fun _ _ => stops_some (by decide)⟩

end lists

theorem lexes_names {columns : List Text} (hne : columns ≠ []) (h : ∀ n ∈ columns, IsIdentifier n) :
    ∃ ks, ListRule NameRule ks columns ∧ Lexes (join ',' columns) ks Ends := by
  have hl := @lexes_join _ NameRule id columns hne fun n hn =>
    ⟨_, .word n, Lexes.name_ends (h n hn)⟩
  rwa [List.map_id] at hl

theorem lexes_values {values : List Literal} (hne : values ≠ [])
    (h : ∀ v ∈ values, v.WellFormed) :
    ∃ ks, ListRule ValueRule ks values ∧ Lexes (join ',' (values.map Literal.print)) ks Ends := by
  refine lexes_join hne fun v hv => ?_
  obtain ⟨k, hr, hl, -⟩ := lexes_value (h v hv)
  exact ⟨_, hr, hl⟩

theorem lexes_assignment {a : Assignment} (h : a.WellFormed) :
    ∃ ks, AssignmentRule ks a ∧ Lexes a.print ks Ends := by
  obtain ⟨k, hv, hl, hn⟩ := lexes_value h.2
  have hassign : Lexes ['='] [.assign] (Stops (· == '=')) := .spelling .assign
  refine ⟨_, .intro hv, (Lexes.name h.1).append (hassign.append hl fun next _ => hn next) ?_⟩
  rintro next - c ⟨⟩
  decide

/-- What is printed between the two sides of a compound condition. -/
theorem lexes_connective (k : Keyword) :
    Lexes (')' :: ' ' :: (k.text ++ [' ']) ++ ['(']) [.parenClose, .keyword k, .parenOpen]
      Anything :=
  ((Lexes.closed .parenClose rfl).followed_by (lexes_keyword k).after_blank).followed_by
    (.closed .parenOpen rfl)

/-- Two texts in parentheses with a connective between them. -/
theorem lexes_compound {t t' : Text} {ks ks' : List Kind} (h : Lexes t ks Ends)
    (h' : Lexes t' ks' Ends) (k : Keyword) :
    Lexes ('(' :: t ++ (')' :: ' ' :: (k.text ++ [' ']) ++ ['(']) ++ t' ++ [')'])
      (.parenOpen :: (ks ++ .parenClose :: .keyword k :: .parenOpen :: (ks' ++ [.parenClose])))
      Anything := by
  have hleft := (Lexes.closed .parenOpen rfl).followed_by h
  have hmiddle := hleft.append (lexes_connective k) fun _ _ => stops_some (by decide)
  have hright := (hmiddle.followed_by h').append (.closed .parenClose rfl) fun _ _ =>
    stops_some (by decide)
  simpa only [List.cons_append, List.nil_append, List.append_assoc] using hright

theorem lexes_condition {c : Condition} (h : c.WellFormed) :
    ∃ ks, ConditionRule ks c ∧ Lexes c.print ks Ends := by
  induction c with
  | compare column op value =>
      obtain ⟨k, hv, hl, hn⟩ := lexes_value h.2
      obtain ⟨ho, hb⟩ := lexes_operator op
      exact ⟨_, .compare hv, ((Lexes.name h.1).append ho fun next _ => hb next).append hl
        fun next _ => hn next⟩
  | both left right ihl ihr =>
      obtain ⟨ks, hl, htl⟩ := ihl h.1
      obtain ⟨ks', hr, htr⟩ := ihr h.2
      exact ⟨_, .both hl hr, (lexes_compound htl htr .and).anywhere⟩
  | either left right ihl ihr =>
      obtain ⟨ks, hl, htl⟩ := ihl h.1
      obtain ⟨ks', hr, htr⟩ := ihr h.2
      exact ⟨_, .either hl hr, (lexes_compound htl htr .or).anywhere⟩

/-- A condition after WHERE. -/
theorem lexes_filter {c : Condition} (h : c.WellFormed) :
    ∃ ks, FilterRule ks c ∧ Lexes (" WHERE ".toList ++ c.print) ks Ends := by
  obtain ⟨ks, hc, hl⟩ := lexes_condition h
  exact ⟨_, .intro hc, (lexes_keyword .where).after_blank.followed_by hl⟩

theorem lexes_items {items : Items} (h : items.WellFormed) :
    ∃ ks, ItemsRule ks items ∧ Lexes items.print ks Ends := by
  cases items with
  | all => exact ⟨_, .all, (Lexes.closed .star rfl).anywhere⟩
  | listed columns =>
      obtain ⟨ks, hr, hl⟩ := lexes_names h.1 h.2
      exact ⟨ks, .listed hr, hl⟩

/-- A list of columns in parentheses. -/
theorem lexes_columns {columns : List Text} (hne : columns ≠ [])
    (h : ∀ n ∈ columns, IsIdentifier n) :
    ∃ ks, ColumnsRule ks columns ∧ Lexes ('(' :: join ',' columns ++ [')']) ks Anything := by
  obtain ⟨ks, hr, hl⟩ := lexes_names hne h
  have hopen := (Lexes.closed .parenOpen rfl).followed_by hl
  exact ⟨_, .intro hr, hopen.append (.closed .parenClose rfl) fun _ _ => stops_some (by decide)⟩

theorem lexes_alteration (a : Alteration) :
    ∃ k, AlterationRule k a ∧ Lexes (' ' :: a.print) [k] (Stops Char.isAlphanum) := by
  cases a with
  | add => exact ⟨_, .add, (Lexes.reserved (mem_reserved_keyword .add)).after_blank⟩
  | drop => exact ⟨_, .drop, (Lexes.reserved (mem_reserved_verb .drop)).after_blank⟩

/-! ### Commands -/

/-- A text that ends in a name may be followed by whatever ends a name. -/
theorem Lexes.ends {t : Text} {ks : List Kind} (h : Lexes t ks (Stops Char.isAlphanum)) :
    Lexes t ks Ends := h.mono fun _ hn => Token.stops_isAlphanum hn

/-- A keyword between a name and another one. -/
theorem Lexes.keyword_name {t n : Text} {ks : List Kind} (h : Lexes t ks Ends)
    (k : Keyword) (hn : IsIdentifier n) :
    Lexes (t ++ ' ' :: (k.text ++ [' ']) ++ n) (ks ++ [.keyword k, .word n])
      (Stops Char.isAlphanum) := by
  have hk := (lexes_keyword k).after_blank.followed_by (.name hn)
  rw [List.append_assoc]
  exact h.append hk fun _ _ => stops_some (by decide)

/-- A command without its semicolon. -/
theorem lexes_body {c : Command} (h : c.WellFormed) :
    ∃ v ks, CommandTypeRule v ks c ∧ Lexes c.body (.verb v :: ks) Ends := by
  cases c with
  | use name =>
      have hverb : Lexes "USE ".toList [.verb .use] Anything := lexes_verb .use
      exact ⟨_, _, .use, hverb.followed_by (.name_ends h)⟩
  | createDatabase name =>
      have hverb : Lexes "CREATE DATABASE ".toList [.verb .create, .keyword .database] Anything :=
        (lexes_verb .create).followed_by (lexes_keyword .database)
      exact ⟨_, _, .createDatabase, hverb.followed_by (.name_ends h)⟩
  | dropDatabase name =>
      have hverb : Lexes "DROP DATABASE ".toList [.verb .drop, .keyword .database] Anything :=
        (lexes_verb .drop).followed_by (lexes_keyword .database)
      exact ⟨_, _, .dropDatabase, hverb.followed_by (.name_ends h)⟩
  | createTable name columns =>
      have hverb : Lexes "CREATE TABLE ".toList [.verb .create, .keyword .table] Anything :=
        (lexes_verb .create).followed_by (lexes_keyword .table)
      by_cases hne : columns = []
      · subst hne
        refine ⟨_, _, @CommandTypeRule.createTable name _ none .absent, ?_⟩
        have ht : (Command.createTable name []).body = "CREATE TABLE ".toList ++ name :=
          List.append_nil _
        rw [ht]
        exact hverb.followed_by (.name_ends h.1)
      · obtain ⟨ks, hr, hl⟩ := lexes_columns hne h.2
        refine ⟨_, _, @CommandTypeRule.createTable name _ (some columns) (.present hr), ?_⟩
        have ht : (Command.createTable name columns).body =
            "CREATE TABLE ".toList ++ name ++ ('(' :: join ',' columns ++ [')']) :=
          congrArg (_ ++ ·) (if_neg hne)
        rw [ht]
        exact (hverb.followed_by (.name h.1)).append hl.anywhere fun _ _ =>
          stops_some (by decide)
  | dropTable name =>
      have hverb : Lexes "DROP TABLE ".toList [.verb .drop, .keyword .table] Anything :=
        (lexes_verb .drop).followed_by (lexes_keyword .table)
      exact ⟨_, _, .dropTable, hverb.followed_by (.name_ends h)⟩
  | alter name alteration column =>
      obtain ⟨k, ha, hl⟩ := lexes_alteration alteration
      have hverb : Lexes "ALTER TABLE ".toList [.verb .alter, .keyword .table] Anything :=
        (lexes_verb .alter).followed_by (lexes_keyword .table)
      have hname := (hverb.followed_by (.name h.1)).append hl fun _ _ => stops_some (by decide)
      exact ⟨_, _, .alter ha, hname.append (Lexes.name_ends h.2).after_blank fun _ _ =>
        stops_some (by decide)⟩
  | insert name values =>
      obtain ⟨hn, hne, hv⟩ := h
      obtain ⟨ks, hr, hl⟩ := lexes_values hne hv
      have hverb : Lexes "INSERT INTO ".toList [.verb .insert, .keyword .into] Anything :=
        (lexes_verb .insert).followed_by (lexes_keyword .into)
      have hvalues : Lexes " VALUES(".toList [.keyword .values, .parenOpen] Anything :=
        (Lexes.reserved (mem_reserved_keyword .values)).after_blank.append
          (.closed .parenOpen rfl) fun _ _ => stops_some (by decide)
      have hname := (hverb.followed_by (.name hn)).append hvalues fun _ _ =>
        stops_some (by decide)
      have hlist := (hname.followed_by hl).append (.closed .parenClose rfl) fun _ _ =>
        stops_some (by decide)
      exact ⟨_, _, .insert hr, hlist.anywhere⟩
  | select items name filter =>
      obtain ⟨hi, hn, hf⟩ := h
      obtain ⟨ks, hr, hl⟩ := lexes_items hi
      have hverb : Lexes "SELECT ".toList [.verb .select] Anything := lexes_verb .select
      have hname : Lexes ("SELECT ".toList ++ items.print ++ " FROM ".toList ++ name)
          (.verb .select :: (ks ++ [.keyword .from, .word name])) (Stops Char.isAlphanum) :=
        (hverb.followed_by hl).keyword_name .from hn
      cases filter with
      | none =>
          refine ⟨_, _, .select hr .absent, ?_⟩
          have ht : (Command.select items name none).body =
              "SELECT ".toList ++ items.print ++ " FROM ".toList ++ name := List.append_nil _
          rw [ht]
          exact hname.ends
      | some c =>
          obtain ⟨ks', hr', hl'⟩ := lexes_filter (hf c rfl).1
          refine ⟨_, _, .select hr (.present hr'), ?_⟩
          have hfilter := hname.append hl' fun _ _ => stops_some (by decide)
          have hk : ks ++ [.keyword .from, .word name] ++ ks' =
              ks ++ .keyword .from :: .word name :: ks' := List.append_assoc _ _ _
          rw [List.cons_append, hk] at hfilter
          exact hfilter
  | update name assignments filter =>
      obtain ⟨hn, ⟨hne, ha⟩, hf⟩ := h
      obtain ⟨ks, hr, hl⟩ := lexes_join hne fun a h => lexes_assignment (ha a h)
      obtain ⟨ks', hr', hl'⟩ := lexes_filter hf.1
      have hverb : Lexes "UPDATE ".toList [.verb .update] Anything := lexes_verb .update
      have hset : Lexes " SET ".toList [.keyword .set] Anything := (lexes_keyword .set).after_blank
      have hname := (hverb.followed_by (.name hn)).append hset fun _ _ => stops_some (by decide)
      have hfilter := (hname.followed_by hl).append hl' fun _ _ => stops_some (by decide)
      refine ⟨_, _, .update hr hr', ?_⟩
      rw [← List.append_assoc] at hfilter
      exact hfilter
  | delete name filter =>
      obtain ⟨ks, hr, hl⟩ := lexes_filter h.2.1
      have hverb : Lexes "DELETE FROM ".toList [.verb .delete, .keyword .from] Anything :=
        (lexes_verb .delete).followed_by (lexes_keyword .from)
      have hfilter := (hverb.followed_by (.name h.1)).append hl fun _ _ => stops_some (by decide)
      refine ⟨_, _, .delete hr, ?_⟩
      rw [← List.append_assoc] at hfilter
      exact hfilter
  | join left right leftKey rightKey =>
      obtain ⟨hl, hr, hlk, hrk⟩ := h
      have hverb : Lexes "JOIN ".toList [.verb .join] Anything := lexes_verb .join
      have hleft := hverb.followed_by (.name_ends hl)
      have hright := ((hleft.keyword_name .and hr).ends.keyword_name .on hlk).ends
      exact ⟨_, _, .join, (hright.keyword_name .and hrk).ends⟩

/-- **A printed command falls apart into tokens that the grammar reads as the command.** -/
theorem lexes_print {c : Command} (h : c.WellFormed) :
    ∃ ks, CommandRule ks c ∧ Lexes c.print ks Anything := by
  obtain ⟨v, ks, hr, hl⟩ := lexes_body h
  exact ⟨_, .intro hr, hl.append (.closed .semicolon rfl) fun _ _ => stops_some (by decide)⟩

namespace Command

theorem height_of_wellFormed {c : Command} (h : c.WellFormed) {f : Condition}
    (hf : c.restriction? = some f) : f.height ≤ 64 := by
  cases c with
  | select items name filter => exact (h.2.2 f hf).2
  | update name assignments filter =>
      cases hf
      exact h.2.2.2
  | delete name filter =>
      cases hf
      exact h.2.2
  | _ => cases hf

/-- A well-formed command is read from the text it is printed as. -/
theorem parse_of_wellFormed {c : Command} (h : c.WellFormed) : parse c.print = .ok c := by
  obtain ⟨ks, hr, hl⟩ := lexes_print h
  obtain ⟨tokens, ht, rfl⟩ := hl.scan True.intro
  exact (parse_of_scan ht).mpr (ofTokens?_eq_ok_iff.mpr ⟨hr, fun _ hf => height_of_wellFormed h hf⟩)

/-- **Printing and reading are inverse.**  A well-formed command is read from the text it is printed
as; and whatever is read from a text is well formed, so that it is read again from its own text. -/
theorem parse_print :
    (∀ c : Command, c.WellFormed → parse c.print = .ok c) ∧
    ∀ t c, parse t = .ok c → c.WellFormed ∧ parse c.print = .ok c :=
  ⟨fun _ h => parse_of_wellFormed h, fun _ _ h =>
    ⟨wellFormed_of_parse h, parse_of_wellFormed (wellFormed_of_parse h)⟩⟩

/-- A table whose name begins with a digit, signed numbers behind signs, and a letter as a value. -/
def exampleUpdate : Command :=
  update "7up".toList
    [⟨"a".toList, .number "-1.50".toList⟩, ⟨"b2".toList, .quoted "x, (y".toList⟩]
    (.both (.compare "id".toList .greater (.number "+3".toList))
      (.compare "b2".toList .like (.letter 'z')))

theorem parse_print_exampleUpdate :
    exampleUpdate.WellFormed ∧
    exampleUpdate.print =
      "UPDATE 7up SET a=-1.50,b2='x, (y' WHERE (id>+3) AND (b2 LIKE z);".toList ∧
    parse exampleUpdate.print = .ok exampleUpdate := by
  have hp : parse "update 7up set a =-1.50 , b2='x, (y' where (id>+3)and(b2 like z) ;".toList =
      .ok exampleUpdate := by
    decide +kernel
  have hw := (parse_print.2 _ _ hp).1
  exact ⟨hw, by decide +kernel, parse_print.1 _ hw⟩

end Command

end FlatDb
