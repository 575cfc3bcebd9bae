import FlatDb.Proofs.Viable

/-! # Commands are read by their grammar

The reader of commands accepts exactly what the grammar allows, up to a limit on the height of
conditions.

* Every reader of the language goes by its rule and refuses at the first token that cannot be right
  (`ready_terminated`, from one lemma for each production).  `ready_condition` needs a level of height;
  at the last one the limit is reached behind a parenthesis.
* `takes_condition` relates the limit of the reader to the height of the condition: neither side of a
  compound condition uses up what the other one may need.
* `unique_command`: **tokens spell at most one command**, whatever the height of its condition.
* `parse_eq_ok_iff`: **a text is read as a command exactly when the grammar says so** and its
  condition is not too high. -/

namespace FlatDb

open Grammar Text

namespace Command

open Reader

/-! ### What is read obeys the grammar, and is refused at the first token that does not -/

theorem exists_spelling_of_reserved {e : Text × Kind} (h : e ∈ Kind.reserved) :
    ∃ s, Kind.Spelling s e.2 := ⟨e.1, .reserved h (sameName_refl e.1)⟩

theorem exists_spelling_keyword (k : Keyword) : ∃ s, Kind.Spelling s (.keyword k) :=
  exists_spelling_of_reserved (e := (k.text, .keyword k)) (by cases k <;> decide)

theorem exists_spelling_verb (v : Verb) : ∃ s, Kind.Spelling s (.verb v) :=
  exists_spelling_of_reserved (e := (v.text, .verb v)) (by cases v <;> decide)

theorem spelling_letter : Kind.Spelling ['a'] (.word ['a']) := .word (by decide)

theorem ready_keyword (k : Keyword) : Ready (keyword k) fun ks _ => ks = [.keyword k] :=
  ready_exactly (exists_spelling_keyword k)

theorem ready_name (role : Production) : Ready (name role) NameRule := by
  refine (ready_token role Kind.name? rfl ⟨_, spelling_letter⟩).mono ?_
  rintro ks t ⟨k, rfl, hk⟩
  cases k <;> cases hk
  exact .word t

theorem ready_value : Ready value ValueRule := by
  refine (ready_token .value Kind.literal? rfl ⟨_, spelling_letter⟩).mono ?_
  rintro ks v ⟨k, rfl, hk⟩
  unfold Kind.literal? at hk
  split at hk <;> cases hk
  · exact .quoted _
  · exact .number _
  · exact .boolean _
  · exact .null
  · exact .letter _

theorem ready_names : Ready names (ListRule NameRule) := ready_listOf (ready_name _) nofun

theorem ready_assignment : Ready assignment AssignmentRule := by
  refine (ready_name _).bind ?_
  rintro _ column ⟨_⟩
  refine (ready_exactly ⟨_, .assign⟩).bind ?_
  rintro _ _ rfl
  refine ready_value.bind fun ks v hv => ready_pure ?_
  rw [List.append_nil]
  exact .intro hv

/-- A condition of at most some height. -/
def UpTo (height : Nat) (ks : List Kind) (c : Condition) : Prop :=
  ConditionRule ks c ∧ c.height ≤ height

theorem ready_comparison (column : Text) (height : Nat) :
    Ready (comparison column) fun ks c => UpTo (height + 1) (.word column :: ks) c := by
  refine (ready_token .operator Kind.operator? rfl
    ⟨_, @Kind.Spelling.operator .equal (by decide)⟩).bind ?_
  rintro _ op ⟨k, rfl, hk⟩
  cases k <;> cases hk
  refine ready_value.bind fun ks v hv => ready_pure ?_
  rw [List.append_nil]
  exact ⟨.compare hv, Nat.le_add_left 1 height⟩

theorem ready_compound {inner : Reader Condition} {height : Nat} (h : Ready inner (UpTo height)) :
    Ready (compound inner) fun ks c => UpTo (height + 1) (.parenOpen :: ks) c := by
  refine h.bind fun ks left hl => (ready_exactly ⟨_, .parenClose⟩).bind ?_
  rintro _ _ rfl
  refine (ready_token .boolOperator connective? rfl (exists_spelling_keyword .and)).bind ?_
  rintro _ isAnd ⟨k, rfl, hk⟩
  refine (ready_exactly ⟨_, .parenOpen⟩).bind ?_
  rintro _ _ rfl
  refine h.bind fun ks' right hr => (ready_exactly ⟨_, .parenClose⟩).bind ?_
  rintro _ _ rfl
  refine ready_pure ?_
  have hmax : max left.height right.height + 1 ≤ height + 1 :=
    Nat.succ_le_succ (Nat.max_le.mpr ⟨hl.2, hr.2⟩)
  unfold connective? at hk
  split at hk <;> cases hk
  · exact ⟨.both hl.1 hr.1, hmax⟩
  · exact ⟨.either hl.1 hr.1, hmax⟩

/-- What a condition begins with: a parenthesis, or the column of a comparison. -/
def opening? : Kind → Option (Option Text)
  | .parenOpen => some none
  | .word column => some (some column)
  | _ => none

theorem condition_eq (height : Nat) :
    condition (height + 1) = token .condition opening? >>= fun opening =>
      match opening with
      | none => compound (condition height)
      | some column => comparison column := by
  funext tokens
  cases tokens with
  | nil => rfl
  | cons t rest =>
      obtain ⟨position, kind⟩ := t
      cases kind <;> rfl

theorem open_condition (height : Nat) : Open (UpTo (height + 1)) [] := by
  obtain ⟨more, c, hmore, hc⟩ := (ready_comparison ['a'] height).opens
  exact ⟨.word ['a'] :: more, c, spelled_cons.mpr ⟨⟨_, spelling_letter⟩, hmore⟩, hc⟩

/-- A condition, by what stands in its parentheses. -/
theorem ready_condition_of_compound {height : Nat}
    (h : Viable (compound (condition height)) fun ks c => UpTo (height + 1) (.parenOpen :: ks) c) :
    Ready (condition (height + 1)) (UpTo (height + 1)) where
  toViable := by
    rw [condition_eq]
    refine Viable.token_bind rfl ⟨_, .parenOpen⟩ ?_ (open_condition height)
    intro k opening hk
    cases k <;> cases hk
    · exact h
    · exact (ready_comparison _ height).toViable
  opens := open_condition height

/-- The induction is on the height.  At the last level the limit is reached behind a parenthesis. -/
theorem ready_condition (height : Nat) : Ready (condition (height + 1)) (UpTo (height + 1)) := by
  induction height with
  | zero => exact ready_condition_of_compound (viable_refuse fun hlimit => absurd rfl hlimit)
  | succ height ih => exact ready_condition_of_compound (ready_compound ih).toViable

/-- What follows a verb, with a condition that is not too high. -/
def Bounded (v : Verb) (ks : List Kind) (c : Command) : Prop :=
  CommandTypeRule v ks c ∧ ∀ f, c.restriction? = some f → f.height ≤ maxHeight

/-- A rule for commands without a condition bounds nothing. -/
theorem bounded_of_none {v : Verb} {ks : List Kind} {c : Command} (h : CommandTypeRule v ks c)
    (hc : c.restriction? = none) : Bounded v ks c := by
  refine ⟨h, fun f hf => ?_⟩
  rw [hc] at hf
  cases hf

theorem bounded_of_some {v : Verb} {ks : List Kind} {c : Command} {f : Condition}
    (h : CommandTypeRule v ks c) (hc : c.restriction? = some f) (hf : f.height ≤ maxHeight) :
    Bounded v ks c := by
  refine ⟨h, fun f' hf' => ?_⟩
  rw [hc, Option.some.injEq] at hf'
  exact hf' ▸ hf

theorem ready_filter : Ready filter fun ks c => FilterRule ks c ∧ c.height ≤ maxHeight := by
  refine (ready_keyword _).bind ?_
  rintro _ _ rfl
  exact (ready_condition (maxHeight - 1)).mono fun ks c h => ⟨.intro h.1, h.2⟩

/-- What may stand behind CREATE and DROP. -/
theorem ready_structure : Ready (token .structureKind structure?) fun ks isDatabase =>
    ks = [.keyword (if isDatabase then .database else .table)] := by
  refine (ready_token .structureKind structure? rfl (exists_spelling_keyword .table)).mono ?_
  rintro ks isDatabase ⟨k, rfl, hk⟩
  unfold structure? at hk
  split at hk <;> cases hk <;> rfl

theorem ready_create : Ready create (Bounded .create) := by
  refine ready_structure.bind ?_
  rintro _ isDatabase rfl
  split
  · refine (ready_name _).bind ?_
    rintro _ n ⟨_⟩
    exact ready_pure (bounded_of_none .createDatabase rfl)
  · refine (ready_name _).bind ?_
    rintro _ n ⟨_⟩
    refine ready_ifNext ⟨_, .parenOpen⟩ ?_
      (ready_pure (bounded_of_none (.createTable .absent) rfl))
    refine ready_names.bind fun ks columns hl => (ready_exactly ⟨_, .parenClose⟩).bind ?_
    rintro _ _ rfl
    exact ready_pure (bounded_of_none (.createTable (.present (.intro hl))) rfl)

theorem ready_dropAny : Ready dropAny (Bounded .drop) := by
  refine ready_structure.bind ?_
  rintro _ isDatabase rfl
  split
  · refine (ready_name _).bind ?_
    rintro _ n ⟨_⟩
    exact ready_pure (bounded_of_none .dropDatabase rfl)
  · refine (ready_name _).bind ?_
    rintro _ n ⟨_⟩
    exact ready_pure (bounded_of_none .dropTable rfl)

theorem ready_alterTable : Ready alterTable (Bounded .alter) := by
  refine (ready_keyword _).bind ?_
  rintro _ _ rfl
  refine (ready_name _).bind ?_
  rintro _ n ⟨_⟩
  refine (ready_token .alteration alteration? rfl (exists_spelling_keyword .add)).bind ?_
  rintro _ alteration ⟨k, rfl, hk⟩
  refine (ready_name _).bind ?_
  rintro _ column ⟨_⟩
  refine ready_pure (bounded_of_none (.alter ?_) rfl)
  unfold alteration? at hk
  split at hk <;> cases hk
  · exact .add
  · exact .drop

theorem ready_insertInto : Ready insertInto (Bounded .insert) := by
  refine (ready_keyword _).bind ?_
  rintro _ _ rfl
  refine (ready_name _).bind ?_
  rintro _ n ⟨_⟩
  refine (ready_keyword _).bind ?_
  rintro _ _ rfl
  refine (ready_exactly ⟨_, .parenOpen⟩).bind ?_
  rintro _ _ rfl
  refine (ready_listOf ready_value nofun).bind fun ks values hl =>
    (ready_exactly ⟨_, .parenClose⟩).bind ?_
  rintro _ _ rfl
  exact ready_pure (bounded_of_none (.insert hl) rfl)

theorem selected_eq : selected = look fun next =>
    match next with
    | some .star => exactly .items .star >>= fun _ => pure .all
    | some (.word _) => names >>= fun columns => pure (.listed columns)
    | _ => refuse .items := by
  funext tokens
  cases tokens with
  | nil => rfl
  | cons t rest =>
      obtain ⟨position, kind⟩ := t
      cases kind with
      | word column =>
          change (names (⟨position, .word column⟩ :: rest)).map _ =
            (names (⟨position, .word column⟩ :: rest)).bind _
          cases names (⟨position, .word column⟩ :: rest) <;> rfl
      | _ => rfl

theorem ready_selected : Ready selected ItemsRule := by
  rw [selected_eq]
  refine ready_look fun next => ?_
  split
  · refine (ready_exactly ⟨_, .star⟩).bind ?_
    rintro _ _ rfl
    exact ready_pure .all
  · refine ready_names.bind fun ks columns hl => ready_pure ?_
    rw [List.append_nil]
    exact .listed hl
  · exact ready_refuse ⟨[.star], .all, spelled_cons.mpr ⟨⟨_, .star⟩, spelled_nil⟩, .all⟩

theorem ready_selectFrom : Ready selectFrom (Bounded .select) := by
  refine ready_selected.bind fun ks items hi => (ready_keyword _).bind ?_
  rintro _ _ rfl
  refine (ready_name _).bind ?_
  rintro _ n ⟨_⟩
  -- the keyword is looked at first and then read by the filter itself
  refine ready_nextIs fun isFilter => ?_
  split
  · refine ready_filter.bind fun ks' f hf => ready_pure ?_
    rw [List.append_nil]
    exact bounded_of_some (.select hi (.present hf.1)) rfl hf.2
  · exact ready_pure (bounded_of_none (.select hi .absent) rfl)

theorem ready_updateTable : Ready updateTable (Bounded .update) := by
  refine (ready_name _).bind ?_
  rintro _ n ⟨_⟩
  refine (ready_keyword _).bind ?_
  rintro _ _ rfl
  refine (ready_listOf ready_assignment nofun).bind fun ks assignments ha => ?_
  refine ready_filter.bind fun ks' f hf => ready_pure ?_
  rw [List.append_nil]
  change Bounded .update (.word n :: .keyword .set :: (ks ++ ks')) _
  exact bounded_of_some (.update ha hf.1) rfl hf.2

theorem ready_deleteFrom : Ready deleteFrom (Bounded .delete) := by
  refine (ready_keyword _).bind ?_
  rintro _ _ rfl
  refine (ready_name _).bind ?_
  rintro _ n ⟨_⟩
  refine ready_filter.bind fun ks' f hf => ready_pure ?_
  rw [List.append_nil]
  exact bounded_of_some (.delete hf.1) rfl hf.2

theorem ready_joinOn : Ready joinOn (Bounded .join) := by
  refine (ready_name _).bind ?_
  rintro _ left ⟨_⟩
  refine (ready_keyword _).bind ?_
  rintro _ _ rfl
  refine (ready_name _).bind ?_
  rintro _ right ⟨_⟩
  refine (ready_keyword _).bind ?_
  rintro _ _ rfl
  refine (ready_name _).bind ?_
  rintro _ leftKey ⟨_⟩
  refine (ready_keyword _).bind ?_
  rintro _ _ rfl
  refine (ready_name _).bind ?_
  rintro _ rightKey ⟨_⟩
  exact ready_pure (bounded_of_none .join rfl)

theorem ready_afterVerb (v : Verb) : Ready (afterVerb v) (Bounded v) := by
  cases v with
  | use =>
      refine (ready_name _).bind ?_
      rintro _ n ⟨_⟩
      exact ready_pure (bounded_of_none .use rfl)
  | create => exact ready_create
  | drop => exact ready_dropAny
  | alter => exact ready_alterTable
  | insert => exact ready_insertInto
  | select => exact ready_selectFrom
  | update => exact ready_updateTable
  | delete => exact ready_deleteFrom
  | join => exact ready_joinOn

/-- A whole command, with a condition that is not too high. -/
def Accepted (ks : List Kind) (c : Command) : Prop :=
  CommandRule ks c ∧ ∀ f, c.restriction? = some f → f.height ≤ maxHeight

theorem ready_terminated : Ready terminated Accepted := by
  refine (ready_token .commandType Kind.verb? rfl (exists_spelling_verb .use)).bind ?_
  rintro _ v ⟨k, rfl, hk⟩
  cases k <;> cases hk
  refine (ready_afterVerb v).bind fun ks c hc => (ready_exactly ⟨_, .semicolon⟩).bind ?_
  rintro _ _ rfl
  exact ready_pure ⟨.intro hc.1, hc.2⟩

/-! ### What the grammar allows is read -/

variable {ahead : Option Kind → Prop}

theorem takes_name {role : Production} {ks : List Kind} {t : Text} (h : NameRule ks t) :
    Takes (name role) ks t ahead := by
  cases h
  exact takes_token rfl

theorem takes_value {ks : List Kind} {v : Literal} (h : ValueRule ks v) :
    Takes value ks v ahead := by
  cases h <;> exact takes_token rfl

theorem takes_assignment {ks : List Kind} {a : Assignment} (h : AssignmentRule ks a) :
    Takes assignment ks a ahead := by
  cases h with
  | intro hv => exact takes_token_bind rfl (takes_exactly_bind ((takes_value hv).bind_pure _))

theorem takes_names {ks : List Kind} {columns : List Text} (h : ListRule NameRule ks columns) :
    Takes names ks columns NoComma :=
  takes_listOf (fun _ _ hn => takes_name hn) h

theorem takes_compound {inner : Reader Condition} {ks ks' : List Kind} {left right : Condition}
    (hl : Takes inner ks left Anything) (hr : Takes inner ks' right Anything) {k : Kind}
    {isAnd : Bool} (hk : connective? k = some isAnd) :
    Takes (compound inner) (ks ++ .parenClose :: k :: .parenOpen :: (ks' ++ [.parenClose]))
      (if isAnd then .both left right else .either left right) Anything := by
  refine hl.bind (takes_exactly_bind (takes_token_bind hk (takes_exactly_bind ?_)))
    fun _ _ => True.intro
  exact hr.bind (takes_exactly_bind (takes_pure _)) fun _ _ => True.intro

/-- A compound condition leaves one level less for each of its sides. -/
theorem takes_condition_parenOpen {height : Nat} {ks : List Kind} {c : Condition}
    (h : Takes (compound (condition height)) ks c ahead) :
    Takes (condition (height + 1)) (.parenOpen :: ks) c ahead := by
  intro tokens rest ht ha
  obtain ⟨⟨position, kind⟩, more, rfl, hk, hm⟩ := List.map_eq_cons_iff.mp ht
  obtain rfl : kind = .parenOpen := hk
  exact h more rest hm ha

theorem takes_condition_word {height : Nat} {column : Text} {ks : List Kind} {c : Condition}
    (h : Takes (comparison column) ks c ahead) :
    Takes (condition (height + 1)) (.word column :: ks) c ahead := by
  intro tokens rest ht ha
  obtain ⟨⟨position, kind⟩, more, rfl, hk, hm⟩ := List.map_eq_cons_iff.mp ht
  obtain rfl : kind = .word column := hk
  exact h more rest hm ha

/-- A condition is read whole if it is not too high, however many conditions stand beside it. -/
theorem takes_condition {height : Nat} {ks : List Kind} {c : Condition} (h : ConditionRule ks c)
    (hh : c.height ≤ height) : Takes (condition height) ks c Anything := by
  induction h generalizing height with
  | compare hv =>
      cases height with
      | zero => cases hh
      | succ height => exact takes_condition_word (takes_token_bind rfl ((takes_value hv).bind_pure _))
  | both _ _ ihl ihr =>
      cases height with
      | zero => cases hh
      | succ height =>
          obtain ⟨hl, hr⟩ := Nat.max_le.mp (Nat.le_of_succ_le_succ hh)
          have hc := takes_compound (ihl hl) (ihr hr) (k := .keyword .and) rfl
          exact takes_condition_parenOpen hc
  | either _ _ ihl ihr =>
      cases height with
      | zero => cases hh
      | succ height =>
          obtain ⟨hl, hr⟩ := Nat.max_le.mp (Nat.le_of_succ_le_succ hh)
          have hc := takes_compound (ihl hl) (ihr hr) (k := .keyword .or) rfl
          exact takes_condition_parenOpen hc

theorem takes_filter {ks : List Kind} {c : Condition} (h : FilterRule ks c)
    (hh : c.height ≤ maxHeight) : Takes filter ks c ahead := by
  cases h with
  | intro hc => exact takes_exactly_bind ((takes_condition hc hh).mono fun _ _ => True.intro)

theorem takes_selected {ks : List Kind} {items : Items} (h : ItemsRule ks items) :
    Takes selected ks items NoComma := by
  intro tokens rest ht ha
  cases h with
  | all =>
      obtain ⟨⟨position, kind⟩, rfl, hk⟩ := List.map_eq_singleton_iff.mp ht
      obtain rfl : kind = .star := hk
      rfl
  | @listed ks columns hl =>
      have hn := takes_names hl tokens rest ht ha
      -- a list of columns begins with a word
      obtain ⟨column, more, rfl⟩ : ∃ column more, ks = .word column :: more := by
        cases hl with
        | last h =>
            cases h
            exact ⟨_, _, rfl⟩
        | more h _ =>
            cases h
            exact ⟨_, _, rfl⟩
      obtain ⟨⟨position, kind⟩, others, rfl, hk, hm⟩ := List.map_eq_cons_iff.mp ht
      obtain rfl : kind = .word column := hk
      change (names (⟨position, .word column⟩ :: others ++ rest)).map _ = _
      rw [hn]
      rfl

/-- A semicolon follows. -/
def Semicolon (next : Option Kind) : Prop := next = some .semicolon

theorem takes_create {ks : List Kind} {c : Command} (h : CommandTypeRule .create ks c) :
    Takes create ks c Semicolon := by
  cases h with
  | createDatabase => exact takes_token_bind rfl ((takes_name (.word _)).bind_pure _)
  | createTable ho =>
      refine takes_token_bind rfl (takes_token_bind rfl ?_)
      cases ho with
      | absent =>
          refine takes_nextIs (b := false) (takes_pure _) ?_
          rintro next rfl
          rfl
      | present h =>
          cases h with
          | intro hl =>
              refine takes_ifNext ((takes_names hl).bind (takes_exactly_bind (takes_pure _)) ?_)
              intro next _
              simp [NoComma]

theorem takes_afterVerb {v : Verb} {ks : List Kind} {c : Command} (h : Bounded v ks c) :
    Takes (afterVerb v) ks c Semicolon := by
  obtain ⟨h, hf⟩ := h
  have create {ks : List Kind} {c : Command} (h : CommandTypeRule .create ks c) :
    Takes (afterVerb .create) ks c Semicolon := takes_create h
  cases h with
  | use => exact (takes_name (.word _)).bind_pure _
  | createDatabase => exact create .createDatabase
  | createTable ho => exact create (.createTable ho)
  | dropDatabase => exact takes_token_bind rfl ((takes_name (.word _)).bind_pure _)
  | dropTable => exact takes_token_bind rfl ((takes_name (.word _)).bind_pure _)
  | alter ha =>
      refine takes_exactly_bind (takes_token_bind rfl (takes_token_bind ?_
        ((takes_name (.word _)).bind_pure _)))
      cases ha <;> rfl
  | insert hl =>
      refine takes_exactly_bind (takes_token_bind rfl (takes_exactly_bind (takes_exactly_bind ?_)))
      refine (takes_listOf (fun _ _ hv => takes_value hv) hl).bind
        (takes_exactly_bind (takes_pure _)) ?_
      intro next _
      simp [NoComma]
  | select hi ho =>
      refine (takes_selected hi).bind (takes_exactly_bind (takes_token_bind rfl ?_)) ?_
      · cases ho with
        | absent =>
            refine takes_nextIs (b := false) (takes_pure _) ?_
            rintro next rfl
            rfl
        | present h =>
            cases h with
            | intro hc =>
                refine takes_nextIs (b := true) ?_ fun next _ => rfl
                exact (takes_filter (.intro hc) (hf _ rfl)).bind_pure _
      · intro next _
        simp [NoComma]
  | update ha h =>
      refine takes_token_bind rfl (takes_exactly_bind ?_)
      refine (takes_listOf (fun _ _ ha => takes_assignment ha) ha).bind
        ((takes_filter h (hf _ rfl)).bind_pure _) ?_
      cases h with
      | intro hc =>
          intro next _
          simp [NoComma]
  | delete h =>
      refine takes_exactly_bind (takes_token_bind rfl ?_)
      exact (takes_filter h (hf _ rfl)).bind_pure _
  | join =>
      refine takes_token_bind rfl (takes_exactly_bind (takes_token_bind rfl (takes_exactly_bind ?_)))
      exact takes_token_bind rfl (takes_exactly_bind ((takes_name (.word _)).bind_pure _))

theorem takes_terminated {ks : List Kind} {c : Command} (h : Accepted ks c) :
    Takes terminated ks c Anything := by
  obtain ⟨⟨hc⟩, hf⟩ := h
  refine takes_token_bind rfl ((takes_afterVerb ⟨hc, hf⟩).bind (takes_exactly_bind (takes_pure _)) ?_)
  intro next _
  rfl

/-! ### Tokens spell at most one command -/

theorem unique_condition {ks : List Kind} {c c' : Condition} (h : ConditionRule ks c)
    (h' : ConditionRule ks c') : c = c' := by
  have ht := takes_condition h (Nat.le_max_left c.height c'.height)
  have ht' := takes_condition h' (Nat.le_max_right c.height c'.height)
  have he : ks ++ ([] : List Kind) = ks ++ [] := rfl
  exact (ht.unique ht' he True.intro True.intro).1

theorem unique_filter {ks : List Kind} {c c' : Condition} (h : FilterRule ks c)
    (h' : FilterRule ks c') : c = c' := by
  cases h with
  | intro hc =>
      cases h' with
      | intro hc' => exact unique_condition hc hc'

theorem unique_optional {α : Type} {rule : List Kind → α → Prop} {ks : List Kind} {a a' : Option α}
    (hu : ∀ {a a'}, rule ks a → rule ks a' → a = a') (hn : ∀ {a}, ¬ rule [] a)
    (h : OptionalRule rule ks a) (h' : OptionalRule rule ks a') : a = a' := by
  cases h with
  | absent =>
      cases h' with
      | absent => rfl
      | present h' => exact absurd h' hn
  | present h =>
      cases h' with
      | absent => exact absurd h hn
      | present h' => rw [hu h h']

theorem unique_columns {ks : List Kind} {l l' : List Text} (h : ColumnsRule ks l)
    (h' : ColumnsRule ks l') : l = l' := by
  obtain @⟨used, _, hl⟩ := h
  generalize hk : Kind.parenOpen :: (used ++ [.parenClose]) = ks at h'
  obtain @⟨used', _, hl'⟩ := h'
  have he := List.tail_eq_of_cons_eq hk
  exact ((takes_names hl).unique (takes_names hl') he (by simp [NoComma]) (by simp [NoComma])).1

/-- What follows a verb spells one command. -/
theorem unique_commandType {v : Verb} {ks ks' : List Kind} {c c' : Command}
    (h : CommandTypeRule v ks c) (h' : CommandTypeRule v ks' c') (he : ks = ks') : c = c' := by
  cases h with
  | use =>
      cases h'
      simpa using he
  | createDatabase =>
      cases h' with
      | createDatabase => simpa using he
      | createTable _ => simp at he
  | createTable ho =>
      cases h' with
      | createDatabase => simp at he
      | createTable ho' =>
          simp only [List.cons.injEq, Kind.word.injEq, true_and] at he
          obtain ⟨rfl, rfl⟩ := he
          rw [unique_optional unique_columns (by rintro _ ⟨⟩) ho ho']
  | dropDatabase =>
      cases h' with
      | dropDatabase => simpa using he
      | dropTable => simp at he
  | dropTable =>
      cases h' with
      | dropDatabase => simp at he
      | dropTable => simpa using he
  | alter ha =>
      cases h' with
      | alter ha' =>
          simp only [List.cons.injEq, Kind.word.injEq, true_and, and_true] at he
          obtain ⟨rfl, rfl, rfl⟩ := he
          cases ha <;> cases ha' <;> rfl
  | insert hl =>
      cases h' with
      | insert hl' =>
          simp only [List.cons.injEq, Kind.word.injEq, true_and] at he
          obtain ⟨rfl, hk⟩ := he
          have hv := ((takes_listOf (fun _ _ hv => takes_value hv) hl).unique
            (takes_listOf (fun _ _ hv => takes_value hv) hl') hk (by simp [NoComma])
            (by simp [NoComma])).1
          rw [hv]
  | select hi ho =>
      cases h' with
      | select hi' ho' =>
          obtain ⟨rfl, hk⟩ := (takes_selected hi).unique (takes_selected hi') he (by simp [NoComma])
            (by simp [NoComma])
          simp only [List.cons.injEq, Kind.word.injEq, true_and] at hk
          obtain ⟨rfl, rfl⟩ := hk
          rw [unique_optional unique_filter (by rintro _ ⟨⟩) ho ho']
  | update ha hf =>
      cases h' with
      | update ha' hf' =>
          simp only [List.cons.injEq, Kind.word.injEq, true_and] at he
          obtain ⟨rfl, hk⟩ := he
          have hahead {ks : List Kind} {c : Condition} (hf : FilterRule ks c) :
              NoComma ks.head? := by
            cases hf
            simp [NoComma]
          obtain ⟨rfl, rfl⟩ := (takes_listOf (fun _ _ ha => takes_assignment ha) ha).unique
            (takes_listOf (fun _ _ ha => takes_assignment ha) ha') hk (hahead hf) (hahead hf')
          rw [unique_filter hf hf']
  | delete hf =>
      cases h' with
      | delete hf' =>
          simp only [List.cons.injEq, Kind.word.injEq, true_and] at he
          obtain ⟨rfl, rfl⟩ := he
          rw [unique_filter hf hf']
  | join =>
      cases h'
      simpa using he

/-- **Tokens spell at most one command**, whatever the height of its condition. -/
theorem unique_command {ks : List Kind} {c c' : Command} (h : CommandRule ks c)
    (h' : CommandRule ks c') : c = c' := by
  obtain @⟨v, used, _, h⟩ := h
  generalize hk : Kind.verb v :: (used ++ [.semicolon]) = ks at h'
  obtain @⟨v', used', _, h'⟩ := h'
  simp only [List.cons.injEq, Kind.verb.injEq, List.append_cancel_right_eq] at hk
  obtain ⟨rfl, he⟩ := hk
  exact unique_commandType h h' he

/-! ### Texts that are read -/

/-- Tokens are read as a command exactly when the grammar says so. -/
theorem ofTokens?_eq_ok_iff {tokens : List Token} {c : Command} :
    ofTokens? tokens = .ok c ↔ Accepted (tokens.map Token.kind) c := by
  constructor
  · intro h
    unfold ofTokens? at h
    split at h
    · cases h
    · next command ht =>
        cases h
        obtain ⟨used, rfl, hu⟩ := ready_terminated.obeys _ _ _ ht
        rwa [List.append_nil]
    · cases h
  · intro h
    have ht := takes_terminated h tokens [] rfl True.intro
    rw [List.append_nil] at ht
    unfold ofTokens?
    rw [ht]

theorem parse_of_scan {t : Text} {tokens : List Token} (h : Token.scan t = .ok tokens)
    {c : Command} : parse t = .ok c ↔ ofTokens? tokens = .ok c := by
  unfold parse
  rw [h]
  dsimp only
  cases ofTokens? tokens <;> simp

theorem scan_of_parse {t : Text} {c : Command} (h : parse t = .ok c) :
    ∃ tokens, Token.scan t = .ok tokens := by
  unfold parse at h
  split at h
  · cases h
  · next tokens ht => exact ⟨tokens, ht⟩

/-- **A text is read as a command exactly when the grammar says so** and its condition, if it has
one, has a height of at most 64; and the grammar says so of one command at most. -/
theorem parse_eq_ok_iff {t : Text} {tokens : List Token} (h : Token.scan t = .ok tokens) :
    (∀ c, parse t = .ok c ↔
      CommandRule (tokens.map Token.kind) c ∧ ∀ f, c.restriction? = some f → f.height ≤ 64) ∧
    ∀ c c', CommandRule (tokens.map Token.kind) c → CommandRule (tokens.map Token.kind) c' →
      c = c' := by
  refine ⟨fun c => ?_, fun c c' => unique_command⟩
  rw [parse_of_scan h, ofTokens?_eq_ok_iff]
  exact Iff.rfl

/-- A command whose condition is compound on either side. -/
def nestedDelete : Command :=
  .delete ['t'] (.both
    (.either (.compare ['a'] .equal (.quoted ['x'])) (.compare ['a'] .equal (.quoted ['y'])))
    (.either (.compare ['b'] .greaterOrEqual (.number ['-', '1']))
      (.compare ['c'] .like (.letter 'd'))))

theorem nestedDelete_of_scan :
    ∃ tokens, Token.scan
      "DELETE FROM t WHERE ((a=='x') OR (a=='y')) AND ((b>=-1) OR (c LIKE d));".toList =
        .ok tokens ∧
      CommandRule (tokens.map Token.kind) nestedDelete := by
  have hp : parse "DELETE FROM t WHERE ((a=='x') OR (a=='y')) AND ((b>=-1) OR (c LIKE d));".toList =
      .ok nestedDelete := by
    decide +kernel
  obtain ⟨tokens, ht⟩ := scan_of_parse hp
  exact ⟨tokens, ht, (((parse_eq_ok_iff ht).1 _).mp hp).1⟩

end Command

end FlatDb
