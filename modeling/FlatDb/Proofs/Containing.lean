import FlatDb.Condition
import FlatDb.Proofs.Names
import Mathlib.Data.List.Infix

/-! # Texts within texts

`LIKE` puts the literal and the cell in lower case, each as a whole, and searches for the one in the other.
The lower case of a character does not depend on its neighbours, with one exception: a capital sigma becomes
another letter at the end of a word than within.

* `lowercaseIn` is the lower case of a part, as it comes out within the whole text
  (`lowercaseAfter_append`).  Two surroundings give the same lower case exactly if each capital sigma ends a
  word in both or in neither (`lowercaseIn_eq_iff`).
* `exists_edge_of_not_keepsSigmas`: surroundings change a sigma at most at an edge of the part, where a
  letter outside joins the word.
* `relates_like_of_occurs`: **a literal that occurs in a cell, in any capitalization of the letters A to Z,
  is found by `LIKE`** unless a capital sigma stands at its edge and the word goes on in the cell;
  `not_relates_like_odysseus` is such a case. -/

namespace FlatDb

open Text

/-- Searching finds a text exactly if it is a run of consecutive characters. -/
theorem occursIn_iff {part t : Text} : occursIn part t = true ↔ part <:+: t := by
  induction t with
  | nil => simp [occursIn]
  | cons c t ih => simp only [occursIn, Bool.or_eq_true, List.isPrefixOf_iff_prefix, ih, List.infix_cons_iff]

namespace Text

/-! ### The letters A to Z -/

/-- Letters and digits are not looked through; no range has them. -/
theorem isCaseIgnorable_of_isAlphanum {c : Char} (h : c.isAlphanum = true) : isCaseIgnorable c = false := by
  have hranges : ∀ r ∈ markRanges ++ laterMarkRanges ++ modifierRanges,
      (r.2 < 48 ∨ 57 < r.1) ∧ (r.2 < 65 ∨ 90 < r.1) ∧ (r.2 < 97 ∨ 122 < r.1) := by decide +kernel
  have hplace : 48 ≤ c.toNat ∧ c.toNat ≤ 57 ∨ 65 ≤ c.toNat ∧ c.toNat ≤ 90 ∨
      97 ≤ c.toNat ∧ c.toNat ≤ 122 :=
    forall_ascii (p := fun c => c.isAlphanum = true → 48 ≤ c.toNat ∧ c.toNat ≤ 57 ∨
      65 ≤ c.toNat ∧ c.toNat ≤ 90 ∨ 97 ≤ c.toNat ∧ c.toNat ≤ 122) (by decide +kernel)
      (toNat_lt_of_isAlphanum h) h
  have hall : isCaseIgnorable c = inRanges (markRanges ++ laterMarkRanges ++ modifierRanges) c := by
    simp only [isCaseIgnorable, isMark, inRanges, List.any_append]
  rw [hall, inRanges, List.any_eq_false]
  intro r hr
  have hr := hranges r hr
  simp only [Bool.and_eq_true, decide_eq_true_eq]
  omega

theorem isCaseIgnorable_toLower (c : Char) : isCaseIgnorable c.toLower = isCaseIgnorable c := by
  rcases toLower_eq_self_or c with hc | hc
  · rw [hc]
  · rw [isCaseIgnorable_of_isAlphanum hc, isCaseIgnorable_of_isAlphanum (isAlphanum_toLower hc)]

theorem isCased_toLower (c : Char) : isCased c.toLower = isCased c := by
  rcases toLower_eq_self_or c with hc | hc
  · rw [hc]
  · exact forall_ascii (p := fun c => c.isAlphanum = true → isCased c.toLower = isCased c)
      (by decide +kernel) (toNat_lt_of_isAlphanum hc) hc

theorem meetsCased_cons (c : Char) (t : Text) :
    meetsCased (c :: t) = if isCaseIgnorable c = true then meetsCased t else isCased c := by
  unfold meetsCased
  rw [List.dropWhile_cons]
  cases isCaseIgnorable c <;> rfl

theorem meetsCased_foldCase (t : Text) : meetsCased (foldCase t) = meetsCased t := by
  induction t with
  | nil => rfl
  | cons c t ih =>
      have hcons : foldCase (c :: t) = c.toLower :: foldCase t := rfl
      rw [hcons, meetsCased_cons, meetsCased_cons, isCaseIgnorable_toLower, isCased_toLower, ih]

theorem lowerIn_foldCase (before : Text) (c : Char) (after : Text) :
    lowerIn (foldCase before) c.toLower (foldCase after) = lowerIn before c after := by
  rcases toLower_eq_self_or c with hc | hc
  · rw [hc, lowerIn, lowerIn, meetsCased_foldCase, meetsCased_foldCase]
  · rw [lowerIn_of_isAlphanum hc, lowerIn_of_isAlphanum (isAlphanum_toLower hc), toLower_toLower hc]

theorem lowercaseAfter_foldCase (before t : Text) :
    lowercaseAfter (foldCase before) (foldCase t) = lowercaseAfter before t := by
  induction t generalizing before with
  | nil => rfl
  | cons c t ih => exact congrArg₂ (· ++ ·) (lowerIn_foldCase before c t) (ih (c :: before))

/-- Texts that differ in the case of the letters A to Z only have the same lower case. -/
theorem lowercase_eq_of_sameName {a b : Text} (h : sameName a b = true) : a.lowercase = b.lowercase := by
  have ha := lowercaseAfter_foldCase [] a
  have hb := lowercaseAfter_foldCase [] b
  rw [sameName_iff.mp h] at ha
  exact ha.symm.trans hb

/-! ### The lower case of a part -/

/-- The lower case of a part of a text, given the characters before it, nearest first, and after it. -/
def lowercaseIn (before : Text) : Text → Text → Text
  | [], _ => []
  | c :: part, after => lowerIn before c (part ++ after) ++ lowercaseIn (c :: before) part after

/-- The lower case of a text is that of its parts, each in its place. -/
theorem lowercaseAfter_append (before part after : Text) :
    lowercaseAfter before (part ++ after) =
      lowercaseIn before part after ++ lowercaseAfter (part.reverse ++ before) after := by
  induction part generalizing before with
  | nil => rfl
  | cons c part ih =>
      rw [List.cons_append, lowercaseAfter, ih, lowercaseIn, List.append_assoc, List.reverse_cons,
        List.append_assoc]
      rfl

theorem lowercase_eq_lowercaseIn (t : Text) : t.lowercase = lowercaseIn [] t [] := by
  have h := lowercaseAfter_append [] t []
  rwa [List.append_nil, lowercaseAfter, List.append_nil] at h

/-- A capital sigma between these characters is the last letter of a word. -/
def endsWord (before after : Text) : Bool := meetsCased before && !meetsCased after

theorem length_lowerIn (before before' after after' : Text) (c : Char) :
    (lowerIn before c after).length = (lowerIn before' c after').length := by
  unfold lowerIn
  split
  · rfl
  · split <;> rfl

theorem lowerIn_eq_iff {before before' after after' : Text} {c : Char} :
    lowerIn before c after = lowerIn before' c after' ↔
      (c = 'Σ' → endsWord before after = endsWord before' after') := by
  unfold lowerIn
  change (if c = 'Σ' then [if endsWord before after = true then 'ς' else 'σ'] else _) =
    (if c = 'Σ' then [if endsWord before' after' = true then 'ς' else 'σ'] else _) ↔ _
  by_cases hc : c = 'Σ'
  · rw [if_pos hc, if_pos hc]
    cases endsWord before after <;> cases endsWord before' after' <;> simp [hc]
  · simp [hc]

/-- **Two surroundings give a part the same lower case** exactly if each of its capital sigmas ends a word
in both or in neither. -/
theorem lowercaseIn_eq_iff {before before' part after after' : Text} :
    lowercaseIn before part after = lowercaseIn before' part after' ↔
      ∀ u v, part = u ++ 'Σ' :: v →
        endsWord (u.reverse ++ before) (v ++ after) = endsWord (u.reverse ++ before') (v ++ after') := by
  induction part generalizing before before' with
  | nil => simp [lowercaseIn]
  | cons c part ih =>
      have hsplit : lowercaseIn before (c :: part) after = lowercaseIn before' (c :: part) after' ↔
          lowerIn before c (part ++ after) = lowerIn before' c (part ++ after') ∧
            lowercaseIn (c :: before) part after = lowercaseIn (c :: before') part after' :=
        ⟨fun h => List.append_inj h (length_lowerIn _ _ _ _ c), fun h => congrArg₂ (· ++ ·) h.1 h.2⟩
      rw [hsplit, lowerIn_eq_iff, ih]
      constructor
      · rintro ⟨hc, hpart⟩ u v he
        cases u with
        | nil =>
            obtain ⟨rfl, rfl⟩ := List.cons.inj he
            exact hc rfl
        | cons d u =>
            obtain ⟨rfl, rfl⟩ := List.cons.inj he
            simpa using hpart u v rfl
      · intro h
        refine ⟨fun hc => h [] part (by rw [hc]; rfl), fun u v he => ?_⟩
        simpa using h (c :: u) v (by rw [he]; rfl)

/-! ### Sigmas at the edges -/

/-- Each capital sigma of a part ends a word within the whole text exactly if it does so in the part taken
alone. -/
def KeepsSigmas (before part after : Text) : Prop :=
  ∀ u v, part = u ++ 'Σ' :: v →
    endsWord (u.reverse ++ before.reverse) (v ++ after) = endsWord u.reverse v

theorem lowercaseIn_eq_lowercase_iff {before part after : Text} :
    lowercaseIn before.reverse part after = part.lowercase ↔ KeepsSigmas before part after := by
  rw [lowercase_eq_lowercaseIn, lowercaseIn_eq_iff]
  simp only [KeepsSigmas, List.append_nil]

instance (before part after : Text) : Decidable (KeepsSigmas before part after) :=
  decidable_of_iff _ lowercaseIn_eq_lowercase_iff

/-- What is met behind some characters: the first letter among them that is not looked through, or else
what is met behind them. -/
theorem meetsCased_append (t rest : Text) :
    meetsCased (t ++ rest) = if t.all isCaseIgnorable = true then meetsCased rest else meetsCased t := by
  induction t with
  | nil => rfl
  | cons c t ih =>
      rw [List.cons_append, meetsCased_cons, meetsCased_cons, List.all_cons, ih]
      cases isCaseIgnorable c <;> simp

theorem meetsCased_eq_false_of_all {t : Text} (h : t.all isCaseIgnorable = true) : meetsCased t = false := by
  have := meetsCased_append t []
  rwa [List.append_nil, if_pos h] at this

/-- Characters further away matter only if all those in between are looked through, and a letter stands
behind them. -/
theorem meetsCased_append_eq {t rest : Text}
    (h : ¬ (t.all isCaseIgnorable = true ∧ meetsCased rest = true)) : meetsCased (t ++ rest) = meetsCased t := by
  rw [meetsCased_append]
  split
  · next ht =>
      rw [meetsCased_eq_false_of_all ht]
      simpa [ht] using h
  · rfl

/-- **Surroundings change a sigma only at an edge**: there is nothing but characters to look through
between the sigma and one end of the part, and a letter stands behind that end. -/
theorem exists_edge_of_not_keepsSigmas {before part after : Text} (h : ¬ KeepsSigmas before part after) :
    ∃ u v, part = u ++ 'Σ' :: v ∧
      (u.all isCaseIgnorable = true ∧ meetsCased before.reverse = true ∨
        v.all isCaseIgnorable = true ∧ meetsCased after = true) := by
  unfold KeepsSigmas at h
  push Not at h
  obtain ⟨u, v, hpart, hne⟩ := h
  refine ⟨u, v, hpart, ?_⟩
  by_contra hedges
  obtain ⟨hleft, hright⟩ := not_or.mp hedges
  have hu : ¬ (u.reverse.all isCaseIgnorable = true ∧ meetsCased before.reverse = true) := by
    rwa [List.all_reverse]
  refine hne ?_
  rw [endsWord, endsWord, meetsCased_append_eq hu, meetsCased_append_eq hright]

end Text

/-! ### LIKE -/

/-- **A literal that occurs in a cell**, in any capitalization of the letters A to Z, is found by `LIKE` if
its capital sigmas keep their form there.  They do, unless one of them stands at an edge of the literal,
apart from it at most by characters that are looked through, and a letter stands behind that edge in the
cell. -/
theorem relates_like_of_occurs {before part after literal : Text} (h : sameName part literal = true) :
    (KeepsSigmas before part after →
      Operator.like.relates (before ++ (part ++ after)) literal = true) ∧
    (KeepsSigmas before part after ∨ ∃ u v, part = u ++ 'Σ' :: v ∧
      (u.all isCaseIgnorable = true ∧ meetsCased before.reverse = true ∨
        v.all isCaseIgnorable = true ∧ meetsCased after = true)) := by
  refine ⟨fun hkeeps => ?_, or_iff_not_imp_left.mpr exists_edge_of_not_keepsSigmas⟩
  refine occursIn_iff.mpr ⟨lowercaseIn [] before (part ++ after),
    lowercaseAfter (part.reverse ++ before.reverse) after, ?_⟩
  calc lowercaseIn [] before (part ++ after) ++ literal.lowercase ++
        lowercaseAfter (part.reverse ++ before.reverse) after
      = lowercaseIn [] before (part ++ after) ++ (lowercaseIn before.reverse part after ++
          lowercaseAfter (part.reverse ++ before.reverse) after) := by
        rw [← lowercase_eq_of_sameName h, lowercaseIn_eq_lowercase_iff.mpr hkeeps, List.append_assoc]
    _ = lowercaseIn [] before (part ++ after) ++ lowercaseAfter (before.reverse ++ []) (part ++ after) := by
        rw [List.append_nil, lowercaseAfter_append]
    _ = (before ++ (part ++ after)).lowercase := (lowercaseAfter_append [] before (part ++ after)).symm

/-- A sigma between two letters of the literal keeps its form; that of the name at the beginning of another
name does not. -/
theorem relates_like_of_occurs_sigmas :
    (sameName "AΣE".toList "aΣe".toList = true ∧ KeepsSigmas "x".toList "AΣE".toList "Σ".toList ∧
      Operator.like.relates ("x".toList ++ ("AΣE".toList ++ "Σ".toList)) "aΣe".toList = true) ∧
    sameName "ΟΔΥΣ".toList "ΟΔΥΣ".toList = true ∧ ¬ KeepsSigmas [] "ΟΔΥΣ".toList "ΣΕΥΣ".toList ∧
      ∃ u v, "ΟΔΥΣ".toList = u ++ 'Σ' :: v ∧
        (u.all isCaseIgnorable = true ∧ meetsCased [].reverse = true ∨
          v.all isCaseIgnorable = true ∧ meetsCased "ΣΕΥΣ".toList = true) := by
  have hinner : KeepsSigmas "x".toList "AΣE".toList "Σ".toList := by decide +kernel
  have hedge : ¬ KeepsSigmas [] "ΟΔΥΣ".toList "ΣΕΥΣ".toList := by decide +kernel
  have hname : sameName "ΟΔΥΣ".toList "ΟΔΥΣ".toList = true := sameName_refl _
  exact ⟨⟨by decide, hinner, (relates_like_of_occurs (by decide)).1 hinner⟩,
    hname, hedge, (relates_like_of_occurs hname).2.resolve_left hedge⟩

/-- The literal is the beginning of the cell, but its last letter is a final sigma and that of the cell is
not. -/
theorem not_relates_like_odysseus :
    "ΟΔΥΣΣΕΥΣ".toList = "ΟΔΥΣ".toList ++ "ΣΕΥΣ".toList ∧
      Operator.like.relates "ΟΔΥΣΣΕΥΣ".toList "ΟΔΥΣ".toList = false := by
  decide +kernel

end FlatDb
