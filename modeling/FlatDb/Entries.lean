import FlatDb.Text.Basic

/-! # Entries under names

A directory is a list of nodes under names, and a database held in memory is a list of tables under
names.  `List.lookup` finds what a name stands for; the first entry of a name counts.

* `Entries.set` puts a value under a name, in the place of the name's old value or at the end.
* `Entries.erase` takes a name away.

When names are used once, setting and erasing do not depend on the order of the entries, up to
which setting is erasing and adding (`Entries.set_perm`). -/

namespace FlatDb.Entries

variable {α β : Type}

/-- Entries with one more, or with another value under a name that is taken. -/
def set (name : Text) (a : α) : List (Text × α) → List (Text × α)
  | [] => [(name, a)]
  | (n, old) :: more => if n = name then (n, a) :: more else (n, old) :: set name a more

/-- Entries without a name. -/
def erase (name : Text) (entries : List (Text × α)) : List (Text × α) :=
  entries.filter fun e => e.1 ≠ name

theorem erase_cons (name : Text) (e : Text × α) (entries : List (Text × α)) :
    erase name (e :: entries) = if e.1 = name then erase name entries else e :: erase name entries := by
  by_cases h : e.1 = name <;> simp [erase, h]

/-! ### Looking up -/

theorem lookup_cons (n : Text) (e : Text × α) (entries : List (Text × α)) :
    (e :: entries).lookup n = if n = e.1 then some e.2 else entries.lookup n := by
  rw [List.lookup_cons]
  by_cases h : n = e.1
  · simp [h]
  · rw [beq_false_of_ne h, if_neg h]

theorem lookup_set (n name : Text) (a : α) (entries : List (Text × α)) :
    (set name a entries).lookup n = if n = name then some a else entries.lookup n := by
  induction entries with
  | nil => simp [set, lookup_cons]
  | cons e more ih =>
      obtain ⟨m, old⟩ := e
      rw [set]
      split
      · next hm =>
          subst hm
          simp only [lookup_cons]
          split <;> rfl
      · next hm =>
          simp only [lookup_cons, ih]
          by_cases h : n = m
          · subst h
            simp [hm]
          · simp [h]

theorem lookup_erase (n name : Text) (entries : List (Text × α)) :
    (erase name entries).lookup n = if n = name then none else entries.lookup n := by
  induction entries with
  | nil => simp [erase]
  | cons e more ih =>
      rw [erase_cons, lookup_cons]
      split
      · next hm =>
          rw [ih, ← hm]
          split <;> rfl
      · next hm =>
          rw [lookup_cons, ih]
          by_cases h : n = e.1
          · simp [h, hm]
          · simp [h]

theorem lookup_eq_none_iff {n : Text} {entries : List (Text × α)} :
    entries.lookup n = none ↔ n ∉ entries.map Prod.fst := by
  induction entries with
  | nil => simp
  | cons e more ih =>
      rw [lookup_cons, List.map_cons, List.mem_cons]
      by_cases h : n = e.1 <;> simp [h, ih]

theorem mem_of_lookup {n : Text} {a : α} {entries : List (Text × α)}
    (h : entries.lookup n = some a) : (n, a) ∈ entries := by
  obtain ⟨before, after, rfl, _⟩ := List.lookup_eq_some_iff.mp h
  simp

theorem lookup_of_mem {n : Text} {a : α} {entries : List (Text × α)}
    (hn : (entries.map Prod.fst).Nodup) (h : (n, a) ∈ entries) : entries.lookup n = some a := by
  induction entries with
  | nil => cases h
  | cons e more ih =>
      rw [List.map_cons, List.nodup_cons] at hn
      rw [lookup_cons]
      rcases List.mem_cons.mp h with rfl | h
      · simp
      · have hne : n ≠ e.1 := fun he => hn.1 (he ▸ List.mem_map.mpr ⟨_, h, rfl⟩)
        rw [if_neg hne, ih hn.2 h]

/-! ### Setting -/

theorem names_set (name : Text) (a : α) (entries : List (Text × α)) :
    (set name a entries).map Prod.fst =
      if name ∈ entries.map Prod.fst then entries.map Prod.fst
      else entries.map Prod.fst ++ [name] := by
  induction entries with
  | nil => simp [set]
  | cons e more ih =>
      obtain ⟨m, old⟩ := e
      by_cases hm : m = name
      · simp [set, hm]
      · have hne : ¬ name = m := fun h => hm h.symm
        simp only [set, hm, if_false, List.map_cons, ih, List.mem_cons, hne, false_or]
        split <;> simp

theorem mem_set {name : Text} {a : α} {entries : List (Text × α)} {e : Text × α}
    (h : e ∈ set name a entries) : e = (name, a) ∨ e ∈ entries := by
  induction entries with
  | nil => simpa [set] using h
  | cons x more ih =>
      obtain ⟨m, old⟩ := x
      by_cases hm : m = name
      · rw [set, if_pos hm, hm] at h
        rcases List.mem_cons.mp h with h | h
        · exact Or.inl h
        · exact Or.inr (List.mem_cons_of_mem _ h)
      · rw [set, if_neg hm] at h
        rcases List.mem_cons.mp h with h | h
        · exact Or.inr (h ▸ List.mem_cons_self)
        · exact (ih h).imp_right (List.mem_cons_of_mem _)

theorem set_of_not_mem {name : Text} {a : α} {entries : List (Text × α)}
    (h : name ∉ entries.map Prod.fst) : set name a entries = entries ++ [(name, a)] := by
  induction entries with
  | nil => rfl
  | cons e more ih =>
      obtain ⟨m, old⟩ := e
      simp only [List.map_cons, List.mem_cons, not_or] at h
      rw [set, if_neg fun he => h.1 he.symm, ih h.2]
      rfl

theorem set_self {name : Text} {a : α} {entries : List (Text × α)}
    (h : entries.lookup name = some a) : set name a entries = entries := by
  induction entries with
  | nil => cases h
  | cons e more ih =>
      obtain ⟨m, old⟩ := e
      rw [lookup_cons] at h
      by_cases hm : name = m
      · rw [if_pos hm, Option.some.injEq] at h
        subst hm h
        simp [set]
      · rw [if_neg hm] at h
        rw [set, if_neg fun he => hm he.symm, ih h]

theorem set_set (name : Text) (a b : α) (entries : List (Text × α)) :
    set name b (set name a entries) = set name b entries := by
  induction entries with
  | nil => simp [set]
  | cons e more ih =>
      obtain ⟨m, old⟩ := e
      by_cases hm : m = name
      · simp [set, hm]
      · simp [set, hm, ih]

theorem set_append {name : Text} {l : List (Text × α)} (h : name ∉ l.map Prod.fst) (a : α)
    (l' : List (Text × α)) : set name a (l ++ l') = l ++ set name a l' := by
  induction l with
  | nil => rfl
  | cons e more ih =>
      obtain ⟨n, b⟩ := e
      simp only [List.map_cons, List.mem_cons, not_or] at h
      rw [List.cons_append, set, if_neg fun he => h.1 he.symm, ih h.2, List.cons_append]

/-- Renaming by an injective function goes along with setting. -/
theorem map_set {f : Text → Text} (hf : ∀ {m n}, f m = f n → m = n) (g : α → β) (name : Text)
    (a : α) (entries : List (Text × α)) :
    (set name a entries).map (fun e => (f e.1, g e.2)) =
      set (f name) (g a) (entries.map fun e => (f e.1, g e.2)) := by
  induction entries with
  | nil => rfl
  | cons e more ih =>
      obtain ⟨m, old⟩ := e
      by_cases hm : m = name
      · simp [set, hm]
      · have hne : ¬ f m = f name := fun h => hm (hf h)
        simp [set, hm, hne, ih]

/-! ### Erasing -/

theorem erase_sublist (name : Text) (entries : List (Text × α)) :
    (erase name entries).Sublist entries := List.filter_sublist

theorem mem_of_mem_erase {name : Text} {e : Text × α} {entries : List (Text × α)}
    (h : e ∈ erase name entries) : e ∈ entries := (erase_sublist name entries).subset h

theorem erase_of_not_mem {name : Text} {entries : List (Text × α)}
    (h : name ∉ entries.map Prod.fst) : erase name entries = entries := by
  refine List.filter_eq_self.mpr fun e he => ?_
  rw [decide_eq_true_eq]
  rintro rfl
  exact h (List.mem_map.mpr ⟨e, he, rfl⟩)

theorem erase_append (name : Text) (l l' : List (Text × α)) :
    erase name (l ++ l') = erase name l ++ erase name l' := List.filter_append _ _

theorem erase_comm (name other : Text) (l : List (Text × α)) :
    erase other (erase name l) = erase name (erase other l) := by
  simp only [erase, List.filter_filter]
  exact List.filter_congr fun _ _ => Bool.and_comm _ _

/-- Taking away one name and setting another can be done in either order. -/
theorem erase_set_of_ne {name other : Text} (h : name ≠ other) (a : α) (l : List (Text × α)) :
    erase other (set name a l) = set name a (erase other l) := by
  induction l with
  | nil => simp [set, erase, h]
  | cons e more ih =>
      obtain ⟨n, b⟩ := e
      by_cases hn : n = name
      · subst hn
        simp [set, erase_cons, h]
      · by_cases ho : n = other
        · subst ho
          simp [set, erase_cons, hn, ih]
        · simp [set, erase_cons, hn, ho, ih]

theorem erase_set (name : Text) (a : α) (entries : List (Text × α)) :
    erase name (set name a entries) = erase name entries := by
  induction entries with
  | nil => simp [set, erase]
  | cons e more ih =>
      obtain ⟨m, old⟩ := e
      by_cases hm : m = name
      · simp [set, hm, erase_cons]
      · simp [set, hm, erase_cons, ih]

/-- Renaming by an injective function goes along with erasing. -/
theorem map_erase {f : Text → Text} (hf : ∀ {m n}, f m = f n → m = n) (g : α → β) (name : Text)
    (entries : List (Text × α)) :
    (erase name entries).map (fun e => (f e.1, g e.2)) =
      erase (f name) (entries.map fun e => (f e.1, g e.2)) := by
  induction entries with
  | nil => rfl
  | cons e more ih =>
      rw [List.map_cons, erase_cons, erase_cons, ← ih]
      by_cases hm : e.1 = name
      · simp [hm]
      · have hne : ¬ f e.1 = f name := fun h => hm (hf h)
        simp [hm, hne]

/-- With names used once, setting is taking the name away and adding the new entry. -/
theorem set_perm {name : Text} {a : α} {entries : List (Text × α)}
    (hn : (entries.map Prod.fst).Nodup) :
    (set name a entries).Perm ((name, a) :: erase name entries) := by
  induction entries with
  | nil => simp [set, erase]
  | cons e more ih =>
      obtain ⟨m, old⟩ := e
      rw [List.map_cons, List.nodup_cons] at hn
      rw [set, erase_cons]
      by_cases hm : m = name
      · subst hm
        rw [if_pos rfl, if_pos rfl, erase_of_not_mem hn.1]
      · rw [if_neg hm, if_neg hm]
        exact ((ih hn.2).cons _).trans (List.Perm.swap ..)

/-! ### The order of entries -/

/-- Looking up does not depend on the order of entries with different names. -/
theorem lookup_perm {l l' : List (Text × α)} (hp : l.Perm l') (hn : (l'.map Prod.fst).Nodup)
    (name : Text) : l.lookup name = l'.lookup name := by
  have hn' : (l.map Prod.fst).Nodup := (hp.map Prod.fst).nodup_iff.mpr hn
  cases h : l'.lookup name with
  | some a => exact lookup_of_mem hn' (hp.symm.subset (mem_of_lookup h))
  | none =>
      rw [lookup_eq_none_iff] at h ⊢
      exact fun hm => h ((hp.map Prod.fst).subset hm)

/-- Setting in lists of the same entries gives lists of the same entries. -/
theorem perm_set {l l' : List (Text × α)} (hp : l.Perm l') (hn : (l'.map Prod.fst).Nodup)
    (name : Text) (a : α) : (set name a l).Perm (set name a l') := by
  have hn' : (l.map Prod.fst).Nodup := (hp.map Prod.fst).nodup_iff.mpr hn
  exact (set_perm hn').trans (((hp.filter _).cons _).trans (set_perm hn).symm)

theorem perm_erase {l l' : List (Text × α)} (hp : l.Perm l') (name : Text) :
    (erase name l).Perm (erase name l') := hp.filter _

end FlatDb.Entries
