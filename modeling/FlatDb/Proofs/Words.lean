import FlatDb.Command.WellFormed
import FlatDb.Proofs.Grammar
import FlatDb.Proofs.Scanning

/-! # What commands spell

A text that is read as a command gives it proper names and proper cells.

* `wellFormed_of_commandType`: the rules of the grammar build well-formed commands from tokens that
  have a spelling.
* `Command.wellFormed_of_parse`: **every command that a text spells is well formed**.
* `Command.proper_of_parse`: so its names are names and its cells are cells. -/

namespace FlatDb

open Grammar Text

/-! ### Well-formed commands -/

theorem isIdentifier_of_spelling {t : Text} (h : ∃ s, Kind.Spelling s (.word t)) :
    IsIdentifier t := h.elim fun _ hs => hs.isIdentifier

theorem wellFormed_of_name {ks : List Kind} {t : Text} (h : NameRule ks t) (hs : Spelled ks) :
    IsIdentifier t := by
  cases h
  exact isIdentifier_of_spelling (spelled_cons.mp hs).1

theorem isAlpha_of_isIdentifier {c : Char} (h : IsIdentifier [c]) : c.isAlpha = true := by
  obtain ⟨⟨-, d, hd, halpha⟩, -⟩ := h
  rwa [List.mem_singleton.mp hd] at halpha

theorem wellFormed_of_value {ks : List Kind} {v : Literal} (h : ValueRule ks v) (hs : Spelled ks) :
    v.WellFormed := by
  cases h with
  | quoted body => exact (spelled_cons.mp hs).1.elim fun _ hk => hk.isQuotable
  | number spelling => exact (spelled_cons.mp hs).1.elim fun _ hk => hk.isNumber
  | letter c => exact isAlpha_of_isIdentifier (isIdentifier_of_spelling (spelled_cons.mp hs).1)
  | boolean b => exact True.intro
  | null => exact True.intro

theorem wellFormed_of_assignment {ks : List Kind} {a : Assignment} (h : AssignmentRule ks a)
    (hs : Spelled ks) : a.WellFormed := by
  cases h with
  | intro hv =>
      simp only [spelled_cons] at hs
      exact ⟨isIdentifier_of_spelling hs.1, wellFormed_of_value hv hs.2.2⟩

theorem wellFormed_of_list {α : Type} {rule : List Kind → α → Prop} {p : α → Prop} {ks : List Kind}
    {l : List α} (h : ListRule rule ks l) (hs : Spelled ks)
    (hp : ∀ ks a, rule ks a → Spelled ks → p a) : l ≠ [] ∧ ∀ a ∈ l, p a := by
  refine ⟨by cases h <;> exact List.cons_ne_nil _ _, ?_⟩
  induction h with
  | last h =>
      intro a ha
      rw [List.mem_singleton.mp ha]
      exact hp _ _ h hs
  | more h _ ih =>
      obtain ⟨hk, hm⟩ := spelled_append.mp hs
      exact List.forall_mem_cons.mpr ⟨hp _ _ h hk, ih (spelled_cons.mp hm).2⟩

theorem wellFormed_of_condition {ks : List Kind} {c : Condition} (h : ConditionRule ks c)
    (hs : Spelled ks) : c.WellFormed := by
  induction h with
  | compare hv =>
      simp only [spelled_cons] at hs
      exact ⟨isIdentifier_of_spelling hs.1, wellFormed_of_value hv hs.2.2⟩
  | both _ _ ihl ihr | either _ _ ihl ihr =>
      simp only [spelled_cons, spelled_append] at hs
      exact ⟨ihl hs.2.1, ihr hs.2.2.2.2.2.1⟩

theorem wellFormed_of_filter {ks : List Kind} {c : Condition} (h : FilterRule ks c)
    (hs : Spelled ks) : c.WellFormed := by
  cases h with
  | intro h => exact wellFormed_of_condition h (spelled_cons.mp hs).2

theorem wellFormed_of_items {ks : List Kind} {items : Items} (h : ItemsRule ks items)
    (hs : Spelled ks) : items.WellFormed := by
  cases h with
  | all => exact True.intro
  | listed h => exact wellFormed_of_list h hs fun _ _ hn hs => wellFormed_of_name hn hs

/-- Columns that are declared are identifiers; there may be none. -/
theorem wellFormed_of_columns {ks : List Kind} {columns : Option (List Text)}
    (h : OptionalRule ColumnsRule ks columns) (hs : Spelled ks) :
    ∀ n ∈ columns.getD [], IsIdentifier n := by
  cases h with
  | absent => exact fun n hn => nomatch hn
  | present h =>
      cases h with
      | intro h =>
          have hk := (spelled_append.mp (spelled_cons.mp hs).2).1
          exact (wellFormed_of_list h hk fun _ _ hn hs => wellFormed_of_name hn hs).2

/-- The grammar builds well-formed commands from tokens that have a spelling. -/
theorem wellFormed_of_commandType {v : Verb} {ks : List Kind} {c : Command}
    (h : CommandTypeRule v ks c) (hs : Spelled ks)
    (hf : ∀ f, c.restriction? = some f → f.height ≤ 64) : c.WellFormed := by
  have name {t : Text} (h : ∃ s, Kind.Spelling s (.word t)) : IsIdentifier t :=
    isIdentifier_of_spelling h
  cases h with
  | use =>
      exact name (spelled_cons.mp hs).1
  | createDatabase | dropDatabase | dropTable =>
      simp only [spelled_cons] at hs
      exact name hs.2.1
  | createTable h =>
      simp only [spelled_cons] at hs
      exact ⟨name hs.2.1, wellFormed_of_columns h hs.2.2⟩
  | alter _ =>
      simp only [spelled_cons] at hs
      exact ⟨name hs.2.1, name hs.2.2.2.1⟩
  | insert h =>
      simp only [spelled_cons, spelled_append] at hs
      exact ⟨name hs.2.1, wellFormed_of_list h hs.2.2.2.2.1 fun _ _ hv hs =>
        wellFormed_of_value hv hs⟩
  | select hi ho =>
      simp only [spelled_cons, spelled_append] at hs
      refine ⟨wellFormed_of_items hi hs.1, name hs.2.2.1, ?_⟩
      rintro c rfl
      cases ho with
      | present h => exact ⟨wellFormed_of_filter h hs.2.2.2, hf c rfl⟩
  | update ha h =>
      simp only [spelled_cons, spelled_append] at hs
      refine ⟨name hs.1, wellFormed_of_list ha hs.2.2.1 fun _ _ ha hs =>
        wellFormed_of_assignment ha hs, ?_⟩
      exact ⟨wellFormed_of_filter h hs.2.2.2, hf _ rfl⟩
  | delete h =>
      simp only [spelled_cons] at hs
      exact ⟨name hs.2.1, wellFormed_of_filter h hs.2.2, hf _ rfl⟩
  | join =>
      simp only [spelled_cons] at hs
      exact ⟨name hs.1, name hs.2.2.1, name hs.2.2.2.2.1, name hs.2.2.2.2.2.2.1⟩

/-! ### Values as cells -/

theorem Text.IsIdentifier.isName {t : Text} (h : IsIdentifier t) : IsName t := h.1.isName

theorem isCell_of_forall {t : Text} (h : ∀ c ∈ t, c.isDigit = true ∨ c ∈ ['.', '+', '-']) :
    IsCell t := by
  refine ⟨fun hm => ?_, fun hm => ?_, fun hm => ?_⟩ <;>
    exact absurd (h _ hm) (by decide)

theorem mem_of_isDecimal {t : Text} (h : IsDecimal t) : ∀ c ∈ t, c.isDigit = true ∨ c = '.' := by
  cases h with
  | whole h => exact fun c hc => .inl (h.2 c hc)
  | point h hf =>
      intro c hc
      rcases List.mem_append.mp hc with hc | hc
      · exact .inl (h.2 c hc)
      · rcases List.mem_cons.mp hc with hc | hc
        · exact .inr hc
        · exact .inl (hf.2 c hc)

theorem Text.IsNumber.isCell {t : Text} (h : IsNumber t) : IsCell t := by
  have hdecimal {t : Text} (h : IsDecimal t) : ∀ c ∈ t, c.isDigit = true ∨ c ∈ ['.', '+', '-'] :=
    fun c hc => (mem_of_isDecimal h c hc).imp_right fun he => by simp [he]
  cases h with
  | unsigned h => exact isCell_of_forall (hdecimal h)
  | signed hc h =>
      refine isCell_of_forall (List.forall_mem_cons.mpr ⟨.inr ?_, hdecimal h⟩)
      rcases hc with rfl | rfl <;> decide

theorem Literal.WellFormed.isCell {v : Literal} (h : v.WellFormed) : IsCell v.cell := by
  cases v with
  | number spelling => exact IsNumber.isCell h
  | quoted body => exact h.2
  | letter c =>
      have hc : IsWord [c] := by simpa [IsWord] using ⟨isAlphanum_of_isAlpha h, h⟩
      exact hc.isName.isCell
  | boolean b => cases b <;> exact ⟨by decide, by decide, by decide⟩
  | null => exact ⟨by decide, by decide, by decide⟩

/-! ### Commands -/

namespace Command

/-- The databases and tables that a command names. -/
def targets : Command → List Text
  | use n | createDatabase n | dropDatabase n => [n]
  | createTable n _ | dropTable n | alter n _ _ | insert n _ => [n]
  | select _ n _ | update n _ _ | delete n _ => [n]
  | join left right _ _ => [left, right]

/-- The columns that a command would declare or drop. -/
def declared : Command → List Text
  | createTable _ columns => columns
  | alter _ _ column => [column]
  | _ => []

/-- The texts that a command would put into cells. -/
def cells : Command → List Text
  | insert _ values => values.map Literal.cell
  | update _ assignments _ => assignments.map fun a => a.value.cell
  | _ => []

/-- Names are names and cells are cells. -/
structure Proper (c : Command) : Prop where
  targets : ∀ n ∈ c.targets, IsName n
  declared : ∀ n ∈ c.declared, IsName n
  cells : ∀ t ∈ c.cells, IsCell t

theorem proper_of_target {c : Command} {n : Text} (ht : c.targets = [n]) (hn : IsIdentifier n)
    (hd : ∀ column ∈ c.declared, IsIdentifier column) (hc : ∀ t ∈ c.cells, IsCell t) : c.Proper := by
  refine ⟨fun m hm => ?_, fun column hm => (hd column hm).isName, hc⟩
  rw [ht] at hm
  rw [List.mem_singleton.mp hm]
  exact hn.isName

/-- A command that can be written down gives proper names and cells. -/
theorem WellFormed.proper {c : Command} (h : c.WellFormed) : c.Proper := by
  have nothing {p : Text → Prop} : ∀ t ∈ ([] : List Text), p t := fun _ ht => nomatch ht
  cases c with
  | use n | createDatabase n | dropDatabase n | dropTable n => exact proper_of_target rfl h nothing nothing
  | createTable n columns => exact proper_of_target rfl h.1 h.2 nothing
  | alter n alteration column =>
      exact proper_of_target rfl h.1 (List.forall_mem_singleton.mpr h.2) nothing
  | insert n values =>
      refine proper_of_target rfl h.1 nothing fun t ht => ?_
      obtain ⟨v, hv, rfl⟩ := List.mem_map.mp ht
      exact (h.2.2 v hv).isCell
  | select items n filter => exact proper_of_target rfl h.2.1 nothing nothing
  | update n assignments filter =>
      refine proper_of_target rfl h.1 nothing fun t ht => ?_
      obtain ⟨a, ha, rfl⟩ := List.mem_map.mp ht
      exact (h.2.1.2 a ha).2.isCell
  | delete n filter => exact proper_of_target rfl h.1 nothing nothing
  | join left right leftKey rightKey =>
      refine ⟨fun n hn => ?_, nothing, nothing⟩
      simp only [targets, List.mem_cons, List.not_mem_nil, or_false] at hn
      rcases hn with rfl | rfl
      · exact h.1.isName
      · exact h.2.1.isName

/-- **Every command that a text spells is well formed.** -/
theorem wellFormed_of_parse {t : Text} {c : Command} (h : parse t = .ok c) : c.WellFormed := by
  obtain ⟨tokens, ht⟩ := scan_of_parse h
  obtain ⟨hr, hf⟩ := ofTokens?_eq_ok_iff.mp ((parse_of_scan ht).mp h)
  have hs : Spelled (tokens.map Token.kind) := by
    intro k hk
    obtain ⟨token, hm, rfl⟩ := List.mem_map.mp hk
    exact Token.spelling_of_scanFrom ht token hm
  generalize tokens.map Token.kind = ks at hr hs
  cases hr with
  | intro hr =>
      have hk := (spelled_append.mp (spelled_cons.mp hs).2).1
      exact wellFormed_of_commandType hr hk hf

/-- Names are names and cells are cells in every command that a text spells. -/
theorem proper_of_parse {t : Text} {c : Command} (h : parse t = .ok c) : c.Proper :=
  (wellFormed_of_parse h).proper

end Command

end FlatDb
