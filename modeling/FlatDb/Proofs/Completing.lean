import FlatDb.Proofs.Spacing
import FlatDb.Proofs.Words
import Mathlib.Data.List.Infix

/-! # Texts that are refused

A text is refused at the first token that cannot be right.

* `Command.ofTokens?_eq_error`: what is before a refusal can be completed.
* `Command.ofTokens?_settled`: the token at which the refusal stands decides it.
* `exists_text_of_spelled`: tokens that can be spelled are spelled by a text.
* `Command.refused_at_first`: **the text before a refusal can be completed to a command, and the text up
  to the end of the refused token cannot**, however it goes on behind white space.  The limit on the
  height of conditions is the one refusal of which this does not hold. -/

namespace FlatDb

open Text Reader

namespace Command

/-! ### Tokens that are refused -/

theorem left_terminated {tokens : List Token} {why : Refusal} (h : ofTokens? tokens = .error why) :
    left (terminated tokens) = why.rest := by
  unfold ofTokens? at h
  split at h
  · next ho => cases h; rw [ho]; rfl
  · cases h
  · next ho => cases h; rw [ho]; rfl

/-- Another token is refused at the same place, for the same reason, whatever follows it. -/
theorem ofTokens?_settled {used rest : List Token} {x : Token} {why : Refusal}
    (h : ofTokens? (used ++ x :: rest) = .error why) (hrest : why.rest = x :: rest)
    (rest' : List Token) : ofTokens? (used ++ x :: rest') = .error ⟨why.expected, x :: rest'⟩ := by
  have hsettled := ready_terminated.settled used x rest rest' [] ((left_terminated h).trans hrest)
  unfold ofTokens? at h ⊢
  rw [hsettled]
  split at h
  · next ho => cases h; rw [ho]; rfl
  · cases h
  · next ho => cases h; rw [ho]; rfl

/-- What is before a refusal is the beginning of a command. -/
theorem ofTokens?_eq_error {tokens : List Token} {why : Refusal} (h : ofTokens? tokens = .error why)
    (hlimit : why.expected ≠ .shallowerCondition) :
    ∃ used, tokens = used ++ why.rest ∧
      ∃ more c, Spelled more ∧ Accepted (used.map Token.kind ++ more) c := by
  unfold ofTokens? at h
  split at h
  · next ho =>
      cases h
      obtain ⟨used, hused, hopen⟩ := ready_terminated.refuses _ _ ho
      exact ⟨used, hused, hopen hlimit⟩
  · cases h
  · next c x rest ho =>
      cases h
      obtain ⟨used, hused, hc⟩ := ready_terminated.obeys _ _ _ ho
      exact ⟨used, hused, [], c, spelled_nil, by rwa [List.append_nil]⟩

end Command

/-! ### Texts with given tokens -/

theorem Kind.goesOn_space (k : Kind) : k.goesOn ' ' = false := by
  cases k with
  | operator op => cases op <;> rfl
  | _ => rfl

/-- Tokens that can be spelled are spelled by a text. -/
theorem exists_text_of_spelled {ks : List Kind} (h : Spelled ks) : ∃ t, Lexes t ks Text.Anything := by
  induction ks with
  | nil => exact ⟨[], .nil⟩
  | cons k ks ih =>
      obtain ⟨⟨spelling, hk⟩, hks⟩ := spelled_cons.mp h
      obtain ⟨t, ht⟩ := ih hks
      have hone : Lexes (spelling ++ [' ']) ([k] ++ []) Text.Anything :=
        (Lexes.spelling hk).append (.blank (by decide)) fun _ _ => stops_some k.goesOn_space
      exact ⟨_, hone.followed_by ht⟩

namespace Command

/-- A text that divides into tokens goes on behind a space with tokens of any kinds that can be
spelled. -/
theorem exists_parse_of_spelled {before : Text} {used : List Token}
    (hused : Token.scan before = .ok used) {more : List Kind} {c : Command} (hmore : Spelled more)
    (hc : Accepted (used.map Token.kind ++ more) c) : ∃ s, parse (before ++ ' ' :: s) = .ok c := by
  obtain ⟨s, hs⟩ := exists_text_of_spelled hmore
  have hspace : Lexes [' '] [] Text.Anything := .blank (by decide)
  obtain ⟨tokens, hscan, hkinds⟩ := (hspace.followed_by hs).scan trivial
  have hall : Token.scan (before ++ ' ' :: s) = .ok (used ++ tokens.map (Token.moved (size before))) := by
    rw [Token.scan_append_tail hused fun _ hd => by cases hd; decide]
    change (furtherOn Token.moved (size before) (Token.scan ([' '] ++ s))).map _ = _
    rw [hscan]
    rfl
  have hmoved : (tokens.map (Token.moved (size before))).map Token.kind = more := by
    rw [List.map_map]
    exact hkinds
  refine ⟨s, (parse_of_scan hall).mpr (ofTokens?_eq_ok_iff.mpr ?_)⟩
  rwa [List.map_append, hmoved]

theorem parse_eq_grammar_iff {t : Text} {tokens : List Token} (h : Token.scan t = .ok tokens)
    {expected : Production} {p : Nat} :
    parse t = .error (.grammar expected p) ↔
      ∃ why, ofTokens? tokens = .error why ∧ why.expected = expected ∧ why.position (size t) = p := by
  unfold parse
  rw [h]
  dsimp only
  cases ofTokens? tokens with
  | error why => simp
  | ok c => simp

/-- A text with a fault in it is not refused by the grammar. -/
theorem scan_of_parse_eq_grammar {t : Text} {expected : Production} {p : Nat}
    (h : parse t = .error (.grammar expected p)) : ∃ tokens, Token.scan t = .ok tokens := by
  unfold parse at h
  split at h
  · cases h
  · next tokens htokens => exact ⟨tokens, htokens⟩

/-- **A text is refused at the first token that cannot be right.**  What is before the refusal can be
completed to a command; and either there is no token left, or every text that is the same up to the end
of the token at the refusal, and goes on behind white space in any way that divides into tokens, is
refused there and for the same reason. -/
theorem refused_at_first {t : Text} {expected : Production} {p : Nat}
    (h : parse t = .error (.grammar expected p)) (hlimit : expected ≠ .shallowerCondition) :
    ∃ tokens before after, Token.scan t = .ok tokens ∧ t = before ++ after ∧ size before = p ∧
      (∃ s c, parse (before ++ ' ' :: s) = .ok c) ∧
      ((after = [] ∧ ∀ token ∈ tokens, token.position < p) ∨
        ∃ token ∈ tokens, token.position = p ∧ ∃ spelling rest, after = spelling ++ rest ∧
          token.kind.Spelling spelling ∧ token.kind.Maximal spelling rest ∧
          ∀ tail, (∀ c, tail.head? = some c → isBlank c = true) →
            (∃ others, Token.scan (before ++ spelling ++ tail) = .ok others) →
            parse (before ++ spelling ++ tail) = .error (.grammar expected p)) := by
  obtain ⟨tokens, hscan⟩ := scan_of_parse_eq_grammar h
  obtain ⟨⟨_, left⟩, hwhy, rfl, hposition⟩ := (parse_eq_grammar_iff hscan).mp h
  obtain ⟨used, rfl, more, c, hmore, hc⟩ := ofTokens?_eq_error hwhy hlimit
  dsimp only at hscan hwhy
  cases left with
  | nil =>
      rw [List.append_nil] at hscan
      obtain ⟨s, hs⟩ := exists_parse_of_spelled hscan hmore hc
      refine ⟨used, t, [], hscan, (List.append_nil t).symm, hposition, ⟨s, c, hs⟩, .inl ⟨rfl, ?_⟩⟩
      intro token htoken
      have hlt := (Token.scanFrom_eq_ok_iff.mp hscan).position_lt token htoken
      rwa [Nat.zero_add, show size t = p from hposition] at hlt
  | cons x rest =>
      obtain ⟨before, spelling, after, rfl, hbefore, hspelling, hmax, htiled, hlast⟩ :=
        (Token.scanFrom_eq_ok_iff.mp hscan).split
      rw [Nat.zero_add] at hbefore
      have hp : x.position = p := hposition
      obtain ⟨s, hs⟩ := exists_parse_of_spelled (Token.scanFrom_eq_ok_iff.mpr htiled) hmore hc
      refine ⟨_, before, spelling ++ after, hscan, rfl, hbefore.trans hp, ⟨s, c, hs⟩, .inr
        ⟨x, List.mem_append_right _ List.mem_cons_self, hp, spelling, after, rfl, hspelling, hmax, ?_⟩⟩
      rintro tail htail ⟨others, hothers⟩
      have hall := Token.scan_append_tail (Token.scanFrom_eq_ok_iff.mpr hlast) htail
      rw [hothers] at hall
      obtain ⟨rest', -, hrest'⟩ := map_eq_ok_iff.mp hall.symm
      rw [List.append_assoc] at hrest'
      refine (parse_eq_grammar_iff hothers).mpr ⟨⟨_, x :: rest'⟩, ?_, rfl, hp⟩
      rw [← hrest']
      exact ofTokens?_settled hwhy rfl rest'

/-- A text with a parenthesis that is not closed where it could be. -/
def unclosed : Text := "DELETE FROM t WHERE (a==1 b;".toList

/-- It is refused there whether the parenthesis is closed later or not. -/
theorem refused_at_first_unclosed :
    parse unclosed = .error (.grammar .parenClose 26) ∧
      (∃ s c, parse ("DELETE FROM t WHERE (a==1 ".toList ++ ' ' :: s) = .ok c) ∧
      parse "DELETE FROM t WHERE (a==1 b OR c==2);".toList = .error (.grammar .parenClose 26) := by
  have hparse : parse unclosed = .error (.grammar .parenClose 26) := by decide +kernel
  obtain ⟨tokens, before, after, hscan, ht, hsize, hcompleted, hrest⟩ := refused_at_first hparse (by decide)
  have hbefore : before = "DELETE FROM t WHERE (a==1 ".toList := by
    have hall : ∀ b ∈ unclosed.inits, size b = 26 → b = "DELETE FROM t WHERE (a==1 ".toList := by
      decide +kernel
    exact hall before ((List.mem_inits _ _).mpr ⟨after, ht.symm⟩) hsize
  subst hbefore
  have hafter : after = "b;".toList := by
    have hsplit : "DELETE FROM t WHERE (a==1 ".toList ++ "b;".toList =
      "DELETE FROM t WHERE (a==1 ".toList ++ after := ht
    exact (List.append_cancel_left hsplit).symm
  refine ⟨hparse, hcompleted, ?_⟩
  rcases hrest with ⟨hnil, -⟩ | ⟨token, htoken, hp, spelling, rest, -, hspelling, -, htail⟩
  · rw [hafter] at hnil
    cases hnil
  · have hat : (Token.scan unclosed).map (List.filter (·.position = 26)) = .ok [⟨26, .word "b".toList⟩] := by
      decide +kernel
    rw [hscan] at hat
    have hmem : token ∈ tokens.filter (·.position = 26) := List.mem_filter.mpr ⟨htoken, decide_eq_true hp⟩
    rw [Except.ok.inj hat, List.mem_singleton] at hmem
    subst hmem
    obtain rfl : spelling = "b".toList := by
      cases hspelling with
      | reserved h _ => exact absurd rfl (Kind.not_mem_reserved _ h _).1
      | word => rfl
    have hblank : ∀ c, " OR c==2);".toList.head? = some c → isBlank c = true := by
      intro c hc
      cases hc
      decide
    refine htail " OR c==2);".toList hblank ?_
    have hok : (Token.scan "DELETE FROM t WHERE (a==1 b OR c==2);".toList).isOk = true := by decide +kernel
    cases hothers : Token.scan "DELETE FROM t WHERE (a==1 b OR c==2);".toList with
    | ok others => exact ⟨others, hothers⟩
    | error why =>
        rw [hothers] at hok
        cases hok

end Command

end FlatDb
