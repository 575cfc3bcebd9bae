import FlatDb.Command.Grammar
import FlatDb.Command.Parse
import Mathlib.Control.Monad.Basic

/-! # Readers and rules

What it means that a reader goes by a rule of the grammar.

* `Reader.Obeys` says that what a reader takes obeys a rule, and `Reader.Takes` that a reader takes
  tokens of given kinds, whatever follows, as long as it does not go on with them.  Both are put
  together in the way in which readers are.
* `Reader.Takes.unique`: a reader takes no tokens in two ways. -/

namespace FlatDb

open Grammar

namespace Reader

variable {α β : Type}

/-! ### What a reader takes obeys a rule -/

/-- The tokens that a reader takes obey a rule. -/
def Obeys (r : Reader α) (rule : List Kind → α → Prop) : Prop :=
  ∀ tokens a rest, r tokens = .ok (a, rest) →
    ∃ used, tokens = used ++ rest ∧ rule (used.map Token.kind) a

variable {rule : List Kind → α → Prop} {rule' : List Kind → β → Prop}

theorem Obeys.mono {other : List Kind → α → Prop} {r : Reader α} (h : Obeys r rule)
    (hr : ∀ ks a, rule ks a → other ks a) : Obeys r other := by
  intro tokens a rest ht
  obtain ⟨used, he, hu⟩ := h tokens a rest ht
  exact ⟨used, he, hr _ a hu⟩

theorem obeys_pure {a : α} (h : rule [] a) : Obeys (pure a) rule := by
  intro tokens b rest ht
  cases ht
  exact ⟨[], rfl, h⟩

/-- What the second reader takes goes on with what the first one took. -/
theorem Obeys.bind {r : Reader α} {f : α → Reader β} (hr : Obeys r rule)
    (hf : ∀ ks a, rule ks a → Obeys (f a) fun more b => rule' (ks ++ more) b) :
    Obeys (r >>= f) rule' := by
  intro tokens b rest h
  change (r tokens).bind (fun x => f x.1 x.2) = _ at h
  cases hx : r tokens with
  | error e =>
      rw [hx] at h
      cases h
  | ok x =>
      rw [hx] at h
      obtain ⟨used, he, hu⟩ := hr tokens x.1 x.2 hx
      obtain ⟨more, hm, hb⟩ := hf _ x.1 hu x.2 b rest h
      refine ⟨used ++ more, ?_, ?_⟩
      · rw [he, hm, List.append_assoc]
      · rw [List.map_append]
        exact hb

theorem obeys_token (expected : Production) (accept : Kind → Option α) :
    Obeys (token expected accept) fun ks a => ∃ k, ks = [k] ∧ accept k = some a := by
  intro tokens a rest h
  cases tokens with
  | nil => cases h
  | cons t more =>
      rw [token] at h
      split at h
      · next b hb =>
          cases h
          exact ⟨[t], rfl, t.kind, rfl, hb⟩
      · cases h

/-- A reader of something that is not empty takes a token. -/
theorem Obeys.shortens {r : Reader α} (h : Obeys r rule) (hne : ∀ a, ¬ rule [] a) :
    ∀ tokens a rest, r tokens = .ok (a, rest) → rest.length < tokens.length := by
  intro tokens a rest hr
  obtain ⟨used, rfl, hu⟩ := h tokens a rest hr
  have hused : used ≠ [] := by
    rintro rfl
    exact hne a hu
  have hpos := List.length_pos_iff.mpr hused
  rw [List.length_append]
  omega

/-! ### Tokens that a reader takes -/

/-- A reader takes tokens of the given kinds, if what follows them first is admitted. -/
def Takes (r : Reader α) (ks : List Kind) (a : α) (ahead : Option Kind → Prop) : Prop :=
  ∀ tokens rest, tokens.map Token.kind = ks → ahead (rest.head?.map Token.kind) →
    r (tokens ++ rest) = .ok (a, rest)

/-- Anything may follow. -/
def Anything (_ : Option Kind) : Prop := True

variable {ahead ahead' : Option Kind → Prop} {ks more : List Kind} {a : α} {b : β}

theorem Takes.mono {r : Reader α} (h : Takes r ks a ahead) (hn : ∀ next, ahead' next → ahead next) :
    Takes r ks a ahead' :=
  fun tokens rest ht hr => h tokens rest ht (hn _ hr)

theorem takes_pure (a : α) : Takes (pure a) [] a ahead := by
  intro tokens rest ht _
  rw [List.map_eq_nil_iff.mp ht]
  rfl

/-- The kind of the first token, when the kinds of some tokens are known. -/
theorem head?_append {tokens rest : List Token} (h : tokens.map Token.kind = ks) :
    (tokens ++ rest).head?.map Token.kind = ks.head?.or (rest.head?.map Token.kind) := by
  subst h
  cases tokens <;> rfl

theorem Takes.bind {r : Reader α} {f : α → Reader β} (hr : Takes r ks a ahead)
    (hf : Takes (f a) more b ahead')
    (hn : ∀ next, ahead' next → ahead (more.head?.or next)) :
    Takes (r >>= f) (ks ++ more) b ahead' := by
  intro tokens rest ht ha
  obtain ⟨used, others, rfl, hu, ho⟩ := List.map_eq_append_iff.mp ht
  have hfirst := hr used (others ++ rest) hu (by rw [head?_append ho]; exact hn _ ha)
  change (r (used ++ others ++ rest)).bind (fun x => f x.1 x.2) = _
  rw [List.append_assoc, hfirst]
  exact hf others rest ho ha

/-- A result made of what was read. -/
theorem Takes.bind_pure {r : Reader α} (h : Takes r ks a ahead) (g : α → β) :
    Takes (r >>= fun a => pure (g a)) ks (g a) ahead := by
  have hp : Takes (pure (g a)) [] (g a) ahead := takes_pure (g a)
  have ht := h.bind (f := fun a => pure (g a)) hp fun next hn => hn
  rwa [List.append_nil] at ht

theorem takes_token {expected : Production} {accept : Kind → Option α} {k : Kind}
    (hk : accept k = some a) : Takes (token expected accept) [k] a ahead := by
  intro tokens rest ht _
  obtain ⟨t, rfl, rfl⟩ := List.map_eq_singleton_iff.mp ht
  change token expected accept (t :: rest) = _
  rw [token, hk]

/-- One token first. -/
theorem takes_token_bind {expected : Production} {accept : Kind → Option α} {k : Kind}
    {f : α → Reader β} (hk : accept k = some a) (hf : Takes (f a) more b ahead) :
    Takes (token expected accept >>= f) (k :: more) b ahead := by
  have ht : Takes (token expected accept) [k] a Anything := takes_token hk
  exact ht.bind hf fun _ _ => True.intro

theorem takes_exactly_bind {expected : Production} {k : Kind} {f : Unit → Reader β}
    (hf : Takes (f ()) more b ahead) : Takes (exactly expected k >>= f) (k :: more) b ahead :=
  takes_token_bind (if_pos rfl) hf

/-- The next token is of the given kind and passed over. -/
theorem takes_ifNext {k : Kind} {r other : Reader α} (h : Takes r ks a ahead) :
    Takes (nextIs k >>= fun b => if b = true then skip >>= fun _ => r else other) (k :: ks) a
      ahead := by
  intro tokens rest ht ha
  obtain ⟨t, more, rfl, hk, hm⟩ := List.map_eq_cons_iff.mp ht
  change (if (some t.kind == some k) = true then skip >>= fun _ => r else other)
    (t :: (more ++ rest)) = _
  rw [if_pos (by simpa using hk)]
  exact h more rest hm ha

/-- The next token is looked at and left. -/
theorem takes_nextIs {k : Kind} {f : Bool → Reader α} {b : Bool} (h : Takes (f b) ks a ahead)
    (hb : ∀ next, ahead next → (ks.head?.or next == some k) = b) :
    Takes (nextIs k >>= f) ks a ahead := by
  intro tokens rest ht ha
  change f (((tokens ++ rest).head?.map Token.kind) == some k) (tokens ++ rest) = _
  rw [head?_append ht, hb _ ha]
  exact h tokens rest ht ha

/-- What follows a list is no comma. -/
def NoComma (next : Option Kind) : Prop := next ≠ some .comma

theorem takes_listUpTo {item : Reader α} (hi : ∀ ks a, rule ks a → Takes item ks a Anything)
    {ks : List Kind} {l : List α} (h : ListRule rule ks l) {n : Nat} (hn : l.length ≤ n + 1) :
    Takes (listUpTo item n) ks l NoComma := by
  induction h generalizing n with
  | @last ks a h =>
      cases n with
      | zero => exact ((hi ks a h).bind_pure fun first => [first]).mono fun _ _ => True.intro
      | succ n =>
          have hone : Takes (pure [a] : Reader (List α)) [] [a] NoComma := takes_pure [a]
          have ht := (hi ks a h).bind
            (f := fun first => nextIs .comma >>= fun b =>
              if b = true then skip >>= fun _ => listUpTo item n >>= fun l => pure (first :: l)
              else pure [first])
            (takes_nextIs (b := false) hone fun next hnext => by simpa [NoComma] using hnext)
            fun _ _ => True.intro
          rwa [List.append_nil] at ht
  | @more ks more a l h hl ih =>
      cases n with
      | zero =>
          rw [List.length_cons] at hn
          have : l ≠ [] := by cases hl <;> simp
          have := List.length_pos_iff.mpr this
          omega
      | succ n =>
          rw [List.length_cons] at hn
          have hmore := (ih (n := n) (by omega)).bind_pure (a :: ·)
          exact (hi ks a h).bind (takes_ifNext hmore) fun _ _ => True.intro

/-- A list has at most one item more than tokens. -/
theorem length_le_of_listRule {l : List α} (h : ListRule rule ks l) : l.length ≤ ks.length + 1 := by
  induction h with
  | last h => simp
  | more h hl ih =>
      simp only [List.length_cons, List.length_append]
      omega

theorem takes_listOf {item : Reader α} (hi : ∀ ks a, rule ks a → Takes item ks a Anything)
    {l : List α} (h : ListRule rule ks l) : Takes (listOf item) ks l NoComma := by
  intro tokens rest ht ha
  have hlen := length_le_of_listRule h
  refine takes_listUpTo hi h ?_ tokens rest ht ha
  rw [List.length_append]
  rw [← ht, List.length_map] at hlen
  omega

/-- A reader takes no tokens in two ways. -/
theorem Takes.unique {r : Reader α} {ks ks' rest rest' : List Kind} {a a' : α}
    (h : Takes r ks a ahead) (h' : Takes r ks' a' ahead) (he : ks ++ rest = ks' ++ rest')
    (hr : ahead rest.head?) (hr' : ahead rest'.head?) : a = a' ∧ rest = rest' := by
  let tokens (ks : List Kind) : List Token := ks.map (Token.mk 0)
  have hk : ∀ ks, (tokens ks).map Token.kind = ks := by
    intro ks
    simp [tokens, Function.comp_def]
  have hh : ∀ ks, (tokens ks).head?.map Token.kind = ks.head? := by
    intro ks
    rw [← List.head?_map, hk]
  have h1 := h (tokens ks) (tokens rest) (hk ks) (by rwa [hh])
  have h2 := h' (tokens ks') (tokens rest') (hk ks') (by rwa [hh])
  have happ : tokens ks ++ tokens rest = tokens ks' ++ tokens rest' := by
    simp only [tokens, ← List.map_append, he]
  rw [happ, h2, Except.ok.injEq, Prod.mk.injEq] at h1
  refine ⟨h1.1.symm, ?_⟩
  rw [← hk rest, ← hk rest', h1.2]

end Reader

end FlatDb
