import FlatDb.Proofs.Names
import FlatDb.Proofs.Readers
import FlatDb.Token.Spelling

/-! # Readers that refuse at the first token that cannot be right

Commands are read with one token of lookahead.  So whatever a reader has taken can be gone on with, and
the token at which it refuses decides the refusal, whatever follows.

* `Reader.Open` says of the kinds of some tokens that others make them obey a rule.
* `Reader.Viable` says of a reader that what it takes obeys a rule, that **what is before a refusal is
  open**, and that **nothing behind the first token that is left has been looked at**.
* It is put together in the way in which readers are.  A reader that comes after another one must be
  able to begin (`Reader.Ready`), or else the first one must not refuse behind its beginning
  (`Reader.Viable.token_bind`).
* `Reader.look` chooses a reader by the next token; it is the one way to look ahead. -/

namespace FlatDb

open Grammar

namespace Reader

variable {α β : Type}

/-! ### What a reader leaves -/

/-- The tokens that are left, whether a reader takes some or refuses. -/
def left : Except Refusal (α × List Token) → List Token
  | .ok (_, rest) => rest
  | .error why => why.rest

/-- The same outcome, before other tokens. -/
def leaving (rest : List Token) : Except Refusal (α × List Token) → Except Refusal (α × List Token)
  | .ok (a, _) => .ok (a, rest)
  | .error why => .error ⟨why.expected, rest⟩

/-- Tokens of some kinds make a beginning obey a rule. -/
def Open (rule : List Kind → α → Prop) (ks : List Kind) : Prop :=
  ∃ more a, Spelled more ∧ rule (ks ++ more) a

/-- What a reader takes obeys a rule, what is before a refusal is open, and nothing behind the first
token that is left makes a difference. -/
structure Viable (r : Reader α) (rule : List Kind → α → Prop) : Prop where
  obeys : Obeys r rule
  refuses : ∀ tokens why, r tokens = .error why → ∃ used, tokens = used ++ why.rest ∧
    (why.expected ≠ .shallowerCondition → Open rule (used.map Token.kind))
  settled : ∀ front x rest rest' mid, left (r (front ++ x :: rest)) = mid ++ x :: rest →
    r (front ++ x :: rest') = leaving (mid ++ x :: rest') (r (front ++ x :: rest))

/-- A viable reader of something that can begin. -/
structure Ready (r : Reader α) (rule : List Kind → α → Prop) : Prop extends Viable r rule where
  opens : Open rule []

variable {rule : List Kind → α → Prop} {rule' : List Kind → β → Prop} {r : Reader α} {f : α → Reader β}

/-- What is left are the last of the tokens. -/
theorem Viable.exists_used (h : Viable r rule) (tokens : List Token) :
    ∃ used, tokens = used ++ left (r tokens) := by
  cases ho : r tokens with
  | error why =>
      obtain ⟨used, hused, -⟩ := h.refuses tokens why ho
      exact ⟨used, hused⟩
  | ok x =>
      obtain ⟨used, hused, -⟩ := h.obeys tokens x.1 x.2 ho
      exact ⟨used, hused⟩

theorem bind_eq (tokens : List Token) :
    (r >>= f) tokens = (r tokens).bind fun x => f x.1 x.2 := rfl

theorem Open.bind {ks : List Kind} (h : Open rule ks)
    (hf : ∀ ks a, rule ks a → Open (fun more b => rule' (ks ++ more) b) []) : Open rule' ks := by
  obtain ⟨more, a, hmore, ha⟩ := h
  obtain ⟨others, b, hothers, hb⟩ := hf _ a ha
  refine ⟨more ++ others, b, spelled_append.mpr ⟨hmore, hothers⟩, ?_⟩
  rw [← List.append_assoc]
  exact hb

/-- One reader after the other, where what is before a refusal of the first one can be gone on with. -/
theorem Viable.bind_of_open (hr : Viable r rule)
    (hf : ∀ ks a, rule ks a → Viable (f a) fun more b => rule' (ks ++ more) b)
    (hopen : ∀ used rest why, r (used ++ rest) = .error ⟨why, rest⟩ →
      Open rule (used.map Token.kind) → Open rule' (used.map Token.kind)) :
    Viable (r >>= f) rule' where
  obeys := hr.obeys.bind fun ks a ha => (hf ks a ha).obeys
  refuses := by
    intro tokens why h
    rw [bind_eq] at h
    cases ho : r tokens with
    | error e =>
        rw [ho] at h
        cases h
        obtain ⟨used, rfl, hused⟩ := hr.refuses tokens _ ho
        exact ⟨used, rfl, fun hlimit => hopen used _ _ ho (hused hlimit)⟩
    | ok x =>
        rw [ho] at h
        obtain ⟨used, hused, ha⟩ := hr.obeys tokens x.1 x.2 ho
        obtain ⟨more, hmore, hb⟩ := (hf _ x.1 ha).refuses x.2 why h
        refine ⟨used ++ more, by rw [hused, hmore, List.append_assoc], fun hlimit => ?_⟩
        obtain ⟨ks, b, hks, hrule⟩ := hb hlimit
        refine ⟨ks, b, hks, ?_⟩
        rw [List.map_append, List.append_assoc]
        exact hrule
  settled := by
    intro front x rest rest' mid h
    rw [bind_eq] at h
    rw [bind_eq, bind_eq]
    cases ho : r (front ++ x :: rest) with
    | error why =>
        have hleft : left (r (front ++ x :: rest)) = mid ++ x :: rest := by
          rw [ho] at h ⊢
          exact h
        rw [hr.settled front x rest rest' mid hleft, ho]
        rfl
    | ok y =>
        obtain ⟨a, more⟩ := y
        rw [ho] at h
        obtain ⟨used, -, ha⟩ := hr.obeys _ a more ho
        -- what the second reader leaves is left by the first one, too
        obtain ⟨behind, hbehind⟩ := (hf _ a ha).exists_used more
        have hmore : more = behind ++ mid ++ x :: rest := by
          rw [List.append_assoc, ← h]
          exact hbehind
        have hleft : left (r (front ++ x :: rest)) = behind ++ mid ++ x :: rest := by
          rw [ho]
          exact hmore
        rw [hr.settled front x rest rest' _ hleft, ho]
        subst hmore
        exact (hf _ a ha).settled (behind ++ mid) x rest rest' mid h

theorem Viable.bind (hr : Viable r rule)
    (hf : ∀ ks a, rule ks a → Ready (f a) fun more b => rule' (ks ++ more) b) :
    Viable (r >>= f) rule' :=
  hr.bind_of_open (fun ks a ha => (hf ks a ha).toViable) fun _ _ _ _ hopen =>
    hopen.bind fun ks a ha => (hf ks a ha).opens

theorem Ready.bind (hr : Ready r rule)
    (hf : ∀ ks a, rule ks a → Ready (f a) fun more b => rule' (ks ++ more) b) :
    Ready (r >>= f) rule' where
  toViable := hr.toViable.bind hf
  opens := hr.opens.bind fun ks a ha => (hf ks a ha).opens

theorem Open.mono {other : List Kind → α → Prop} {ks : List Kind} (h : Open rule ks)
    (hr : ∀ ks a, rule ks a → other ks a) : Open other ks := by
  obtain ⟨more, a, hmore, ha⟩ := h
  exact ⟨more, a, hmore, hr _ a ha⟩

theorem Viable.mono {other : List Kind → α → Prop} (h : Viable r rule)
    (hr : ∀ ks a, rule ks a → other ks a) : Viable r other where
  obeys := h.obeys.mono hr
  refuses := by
    intro tokens why ho
    obtain ⟨used, hused, hopen⟩ := h.refuses tokens why ho
    exact ⟨used, hused, fun hlimit => (hopen hlimit).mono hr⟩
  settled := h.settled

theorem Ready.mono {other : List Kind → α → Prop} (h : Ready r rule)
    (hr : ∀ ks a, rule ks a → other ks a) : Ready r other :=
  ⟨h.toViable.mono hr, h.opens.mono hr⟩

/-! ### Single tokens -/

theorem spelled_nil : Spelled [] := fun _ hk => absurd hk List.not_mem_nil

theorem open_nil {a : α} (h : rule [] a) : Open rule [] := ⟨[], a, spelled_nil, h⟩

theorem ready_pure {a : α} (h : rule [] a) : Ready (pure a) rule where
  obeys := obeys_pure h
  refuses := fun _ _ ho => nomatch ho
  settled := by
    intro front x rest rest' mid ho
    obtain rfl : front = mid := List.append_cancel_right ho
    rfl
  opens := open_nil h

theorem open_token {accept : Kind → Option α} {k : Kind} {a : α} (hk : accept k = some a)
    (hs : ∃ s, Kind.Spelling s k) : Open (fun ks a => ∃ k, ks = [k] ∧ accept k = some a) [] :=
  ⟨[k], a, spelled_cons.mpr ⟨hs, spelled_nil⟩, k, rfl, hk⟩

/-- What a token leaves is all but the first token, or everything. -/
theorem token_cons (expected : Production) (accept : Kind → Option α) (t : Token) :
    (∃ a, ∀ tokens, token expected accept (t :: tokens) = .ok (a, tokens)) ∨
      ∀ tokens, token expected accept (t :: tokens) = .error ⟨expected, t :: tokens⟩ := by
  cases ha : accept t.kind with
  | some a => exact .inl ⟨a, fun tokens => by rw [token, ha]⟩
  | none => exact .inr fun tokens => by rw [token, ha]

/-- A token of a kind that can be spelled. -/
theorem ready_token (expected : Production) (accept : Kind → Option α) {k : Kind} {a : α}
    (hk : accept k = some a) (hs : ∃ s, Kind.Spelling s k) :
    Ready (token expected accept) fun ks a => ∃ k, ks = [k] ∧ accept k = some a where
  obeys := obeys_token expected accept
  opens := open_token hk hs
  refuses := by
    intro tokens why ho
    cases tokens with
    | nil =>
        cases ho
        exact ⟨[], rfl, fun _ => open_token hk hs⟩
    | cons t more =>
        rcases token_cons expected accept t with ⟨a, ha⟩ | hnone
        · rw [ha] at ho
          cases ho
        · rw [hnone] at ho
          cases ho
          exact ⟨[], rfl, fun _ => open_token hk hs⟩
  settled := by
    intro front x rest rest' mid ho
    cases front with
    | nil =>
        rcases token_cons expected accept x with ⟨a, ha⟩ | hnone
        · rw [List.nil_append, ha] at ho
          have hlen := congrArg List.length ho
          simp only [left, List.length_append, List.length_cons] at hlen
          omega
        · rw [List.nil_append, hnone] at ho
          have hmid : [] ++ x :: rest = mid ++ x :: rest := ho
          obtain rfl : [] = mid := List.append_cancel_right hmid
          rw [List.nil_append, List.nil_append, hnone, hnone]
          rfl
    | cons t front =>
        rcases token_cons expected accept t with ⟨a, ha⟩ | hnone
        · rw [List.cons_append, ha] at ho
          obtain rfl : front = mid := List.append_cancel_right ho
          rw [List.cons_append, List.cons_append, ha, ha]
          rfl
        · rw [List.cons_append, hnone] at ho
          have hmid : t :: front ++ x :: rest = mid ++ x :: rest := ho
          obtain rfl : t :: front = mid := List.append_cancel_right hmid
          rw [List.cons_append, List.cons_append, hnone, hnone]
          rfl

/-- A token that is refused is refused before anything is taken. -/
theorem Viable.token_bind {expected : Production} {accept : Kind → Option α} {k : Kind} {a : α}
    (hk : accept k = some a) (hs : ∃ s, Kind.Spelling s k)
    (hf : ∀ k a, accept k = some a → Viable (f a) fun more b => rule' (k :: more) b)
    (hopen : Open rule' []) : Viable (token expected accept >>= f) rule' := by
  refine (ready_token expected accept hk hs).toViable.bind_of_open ?_ ?_
  · rintro _ a ⟨k, rfl, ha⟩
    exact hf k a ha
  · intro used rest why ho _
    cases used with
    | nil => exact hopen
    | cons t used =>
        rcases token_cons expected accept t with ⟨a, ha⟩ | hnone
        · rw [List.cons_append, ha] at ho
          cases ho
        · rw [List.cons_append, hnone] at ho
          have hlen := congrArg (fun o => (left o).length) ho
          simp only [left, List.length_append, List.length_cons] at hlen
          omega

theorem ready_exactly {expected : Production} {kind : Kind} (hs : ∃ s, Kind.Spelling s kind) :
    Ready (exactly expected kind) fun ks _ => ks = [kind] := by
  refine (ready_token expected _ (if_pos rfl) hs).mono ?_
  rintro ks a ⟨k, rfl, hk⟩
  split at hk
  · next he => rw [he]
  · cases hk

/-! ### Looking ahead -/

/-- A reader that is chosen by the kind of the next token. -/
def look (g : Option Kind → Reader α) : Reader α :=
  fun tokens => g (tokens.head?.map Token.kind) tokens

theorem ready_look {g : Option Kind → Reader α} (h : ∀ next, Ready (g next) rule) :
    Ready (look g) rule where
  obeys := fun tokens => (h _).obeys tokens
  refuses := fun tokens => (h _).refuses tokens
  settled := by
    intro front x rest rest' mid ho
    have hhead : (front ++ x :: rest').head? = (front ++ x :: rest).head? := by cases front <;> rfl
    rw [look, look, hhead]
    exact (h _).settled front x rest rest' mid ho
  opens := (h none).opens

theorem ready_nextIs {kind : Kind} {f : Bool → Reader α} (h : ∀ b, Ready (f b) rule) :
    Ready (nextIs kind >>= f) rule :=
  ready_look (g := fun next => f (next == some kind)) fun _ => h _

/-- A look at the next token, which is passed over if it is of the given kind. -/
theorem ready_ifNext {kind : Kind} {other : Reader α} (hs : ∃ s, Kind.Spelling s kind)
    (hr : Ready r fun ks a => rule (kind :: ks) a) (ho : Ready other rule) :
    Ready (nextIs kind >>= fun b => if b = true then skip >>= fun _ => r else other) rule := by
  have hlook : (nextIs kind >>= fun b => if b = true then skip >>= fun _ => r else other) =
      look fun next => if (next == some kind) = true
        then exactly .commandType kind >>= fun _ => r else other := by
    funext tokens
    change (if _ then skip >>= fun _ => r else other : Reader α) tokens =
      (if _ then exactly .commandType kind >>= fun _ => r else other : Reader α) tokens
    split
    · next hk =>
        cases tokens with
        | nil => cases hk
        | cons t more =>
            have ht : t.kind = kind := by simpa using hk
            change r more = (exactly .commandType kind (t :: more)).bind fun x => r x.2
            rw [exactly, token, if_pos ht]
            rfl
    · rfl
  rw [hlook]
  refine ready_look fun next => ?_
  split
  · refine (ready_exactly hs).bind ?_
    rintro _ _ rfl
    exact hr
  · exact ho

/-- Nothing fits, whatever comes next. -/
theorem viable_refuse {expected : Production} (h : expected ≠ .shallowerCondition → Open rule []) :
    Viable (refuse expected) rule where
  obeys := fun _ _ _ ho => nomatch ho
  refuses := by
    rintro tokens _ ⟨⟩
    exact ⟨[], rfl, h⟩
  settled := by
    intro front x rest rest' mid ho
    obtain rfl : front = mid := List.append_cancel_right ho
    rfl

theorem ready_refuse {expected : Production} (h : Open rule []) : Ready (refuse expected) rule :=
  ⟨viable_refuse fun _ => h, h⟩

/-! ### Lists -/

theorem ready_listUpTo {item : Reader α} (h : Ready item rule) (n : Nat) :
    Ready (listUpTo item n) (ListRule rule) := by
  induction n with
  | zero =>
      refine h.bind fun ks a ha => ready_pure ?_
      rw [List.append_nil]
      exact .last ha
  | succ n ih =>
      refine h.bind fun ks a ha =>
        ready_ifNext ⟨_, .comma⟩ (ih.bind fun more l hl => ready_pure ?_) (ready_pure ?_)
      · rw [List.append_nil]
        exact .more ha hl
      · rw [List.append_nil]
        exact .last ha

theorem listUpTo_error {item : Reader α} {tokens : List Token} {why : Refusal}
    (h : item tokens = .error why) (n : Nat) : listUpTo item n tokens = .error why := by
  cases n with
  | zero =>
      change (item tokens).bind _ = _
      rw [h]
      rfl
  | succ n =>
      change (item tokens).bind _ = _
      rw [h]
      rfl

theorem listUpTo_ok {item : Reader α} {tokens rest : List Token} {a : α}
    (h : item tokens = .ok (a, rest)) (n : Nat) :
    listUpTo item (n + 1) tokens =
      if (rest.head?.map Token.kind == some .comma) = true then
        (listUpTo item n rest.tail).map fun x => (a :: x.1, x.2)
      else .ok ([a], rest) := by
  change (item tokens).bind _ = _
  rw [h]
  change (if (rest.head?.map Token.kind == some .comma) = true then _ else _ : Reader _) rest = _
  split
  · change (listUpTo item n rest.tail).bind _ = _
    cases listUpTo item n rest.tail <;> rfl
  · rfl

/-- A bound on the items that is not below the number of tokens makes no difference. -/
theorem listUpTo_congr {item : Reader α}
    (hs : ∀ tokens a rest, item tokens = .ok (a, rest) → rest.length < tokens.length) {n m : Nat}
    {tokens : List Token} (hn : tokens.length ≤ n) (hm : tokens.length ≤ m) :
    listUpTo item n tokens = listUpTo item m tokens := by
  induction n generalizing m tokens with
  | zero =>
      cases ho : item tokens with
      | error why => rw [listUpTo_error ho, listUpTo_error ho]
      | ok x =>
          have hlt := hs tokens x.1 x.2 ho
          omega
  | succ n ih =>
      cases ho : item tokens with
      | error why => rw [listUpTo_error ho, listUpTo_error ho]
      | ok x =>
          obtain ⟨a, rest⟩ := x
          have hlt := hs tokens a rest ho
          obtain ⟨m, rfl⟩ := Nat.exists_eq_succ_of_ne_zero (Nat.ne_of_gt (Nat.lt_of_lt_of_le
            (Nat.zero_lt_of_lt hlt) hm))
          have htail : rest.tail.length ≤ rest.length := by
            rw [List.length_tail]
            exact Nat.sub_le _ _
          rw [listUpTo_ok ho, listUpTo_ok ho, ih (m := m) (by omega) (by omega)]

theorem ready_listOf {item : Reader α} (h : Ready item rule) (hne : ∀ a, ¬ rule [] a) :
    Ready (listOf item) (ListRule rule) where
  obeys := fun tokens => (ready_listUpTo h tokens.length).obeys tokens
  opens := (ready_listUpTo h 0).opens
  refuses := fun tokens => (ready_listUpTo h tokens.length).refuses tokens
  settled := by
    intro front x rest rest' mid ho
    have hs := h.obeys.shortens hne
    let bound := (front ++ x :: rest).length + (front ++ x :: rest').length
    have hbound : listOf item (front ++ x :: rest) = listUpTo item bound (front ++ x :: rest) :=
      listUpTo_congr hs (Nat.le_refl _) (Nat.le_add_right _ _)
    have hbound' : listOf item (front ++ x :: rest') = listUpTo item bound (front ++ x :: rest') :=
      listUpTo_congr hs (Nat.le_refl _) (Nat.le_add_left _ _)
    rw [hbound] at ho
    rw [hbound, hbound']
    exact (ready_listUpTo h bound).settled front x rest rest' mid ho

end Reader

end FlatDb
