import FlatDb.Proofs.Codec

/-! # Handing out ids

Until a counter reaches the largest id, counters only grow, and an id that is handed out is larger
than all ids handed out before for the same pair of names.

* `WellFormed.allocate`: counters stay well-formed, whatever they have reached.
* `Covers r database table id` says that the counter of a pair has passed an id.
* `covers_allocate` and `within_allocate`: the new id is covered afterwards, and what was covered
  stays so (`Within`).
* `Covers.lt_allocate`: **the new id is larger than every id that is covered before**. -/

namespace FlatDb.Registry

open Text

variable {database table : Text} {r : Registry}

/-- No counter has reached the largest id. -/
def Unexhausted (r : Registry) : Prop := ∀ c ∈ r, c.next < UInt64.size - 1

/-- The counter of a pair of names in lower case has passed an id. -/
def Covers (r : Registry) (database table : Text) (id : Nat) : Prop :=
  ∃ c ∈ r, c.database = database ∧ c.table = table ∧ id < c.next

/-- Whatever the counters of one registry have passed, those of another have passed too. -/
def Within (r r' : Registry) : Prop := ∀ d t id, r.Covers d t id → r'.Covers d t id

theorem Within.refl (r : Registry) : r.Within r := fun _ _ _ h => h

theorem Within.trans {r r' r'' : Registry} (h : r.Within r') (h' : r'.Within r'') : r.Within r'' :=
  fun d t id hc => h' d t id (h d t id hc)

/-! ### Taking the next id -/

theorem following_lt (id : Nat) : following id < UInt64.size := Nat.mod_lt _ (by decide)

theorem following_eq {id : Nat} (h : id < UInt64.size - 1) : following id = id + 1 :=
  Nat.mod_eq_of_lt (by omega)

theorem take_fst (database table : Text) (r : Registry) :
    (take database table r).1 = 1 ∨ ∃ c ∈ r, c.next = (take database table r).1 := by
  induction r with
  | nil => exact Or.inl rfl
  | cons c more ih =>
      rw [take]
      split
      · exact Or.inr ⟨c, List.mem_cons_self, rfl⟩
      · rcases ih with h | ⟨a, ha, h⟩
        · exact Or.inl h
        · exact Or.inr ⟨a, List.mem_cons_of_mem _ ha, h⟩

/-- A counter after taking an id is an old one or the one the id was taken from. -/
theorem mem_take {c : Counter} (h : c ∈ (take database table r).2) :
    c ∈ r ∨ c = ⟨database, table, following (take database table r).1⟩ := by
  induction r with
  | nil => exact Or.inr (List.mem_singleton.mp h)
  | cons a more ih =>
      rw [take] at h ⊢
      split at h
      · next hk =>
          rw [if_pos hk]
          rcases List.mem_cons.mp h with rfl | h
          · refine Or.inr ?_
            rw [← hk.1, ← hk.2]
          · exact Or.inl (List.mem_cons_of_mem _ h)
      · next hk =>
          rw [if_neg hk]
          rcases List.mem_cons.mp h with rfl | h
          · exact Or.inl List.mem_cons_self
          · exact (ih h).imp_left (List.mem_cons_of_mem _)

theorem take_mem (database table : Text) (r : Registry) :
    ⟨database, table, following (take database table r).1⟩ ∈ (take database table r).2 := by
  induction r with
  | nil => exact List.mem_singleton.mpr rfl
  | cons c more ih =>
      rw [take]
      split
      · next hk =>
          rw [← hk.1, ← hk.2]
          exact List.mem_cons_self
      · exact List.mem_cons_of_mem _ ih

/-- No counter is lost and none goes back. -/
theorem le_of_take (hr : r.Unexhausted) {c : Counter} (h : c ∈ r) (database table : Text) :
    ∃ c' ∈ (take database table r).2,
      c'.database = c.database ∧ c'.table = c.table ∧ c.next ≤ c'.next := by
  induction r with
  | nil => cases h
  | cons a more ih =>
      rw [take]
      split
      · rcases List.mem_cons.mp h with rfl | h
        · refine ⟨_, List.mem_cons_self, rfl, rfl, ?_⟩
          show c.next ≤ following c.next
          rw [following_eq (hr c List.mem_cons_self)]
          omega
        · exact ⟨c, List.mem_cons_of_mem _ h, rfl, rfl, Nat.le_refl _⟩
      · rcases List.mem_cons.mp h with rfl | h
        · exact ⟨c, List.mem_cons_self, rfl, rfl, Nat.le_refl _⟩
        · obtain ⟨c', hc', hk⟩ := ih (fun x hx => hr x (List.mem_cons_of_mem _ hx)) h
          exact ⟨c', List.mem_cons_of_mem _ hc', hk⟩

theorem distinct_take (h : r.Pairwise fun a b => ¬ (a.database = b.database ∧ a.table = b.table)) :
    (take database table r).2.Pairwise fun a b => ¬ (a.database = b.database ∧ a.table = b.table) := by
  induction r with
  | nil => exact List.pairwise_singleton _ _
  | cons c more ih =>
      obtain ⟨hc, hp⟩ := List.pairwise_cons.mp h
      rw [take]
      split
      · exact List.pairwise_cons.mpr ⟨hc, hp⟩
      · next hk =>
          refine List.pairwise_cons.mpr ⟨fun a ha => ?_, ih hp⟩
          rcases mem_take ha with ha | rfl
          · exact hc a ha
          · exact hk

/-- A counter of the pair is the one the next id is taken from. -/
theorem take_fst_of_mem (h : r.Pairwise fun a b => ¬ (a.database = b.database ∧ a.table = b.table))
    {c : Counter} (hc : c ∈ r) (hd : c.database = database) (ht : c.table = table) :
    (take database table r).1 = c.next := by
  induction r with
  | nil => cases hc
  | cons a more ih =>
      obtain ⟨ha, hp⟩ := List.pairwise_cons.mp h
      rw [take]
      rcases List.mem_cons.mp hc with rfl | hc
      · rw [if_pos ⟨hd, ht⟩]
      · rw [if_neg fun hk => ha c hc ⟨hk.1.trans hd.symm, hk.2.trans ht.symm⟩]
        exact ih hp hc

/-! ### Names in any case -/

/-- Counters stay well-formed. -/
theorem WellFormed.allocate (h : r.WellFormed) (hd : IsName database) (ht : IsName table) :
    (allocate database table r).2.WellFormed := by
  refine ⟨?_, ?_, distinct_take h.distinct, ?_⟩ <;> intro c hc <;> rcases mem_take hc with hc | rfl
  · exact h.names c hc
  · exact ⟨hd.lowercase, ht.lowercase⟩
  · exact h.lower c hc
  · exact ⟨hd.lowercase_lowercase, ht.lowercase_lowercase⟩
  · exact h.small c hc
  · exact following_lt _

theorem allocate_ne_nil (database table : Text) (r : Registry) : (allocate database table r).2 ≠ [] :=
  List.ne_nil_of_mem (take_mem _ _ _)

/-- An id is below a bound that all counters are below. -/
theorem allocate_lt {bound : Nat} (hb : 1 < bound) (h : ∀ c ∈ r, c.next < bound)
    (database table : Text) : (allocate database table r).1 < bound := by
  rcases take_fst database.lowercase table.lowercase r with h1 | ⟨c, hc, h1⟩
  · rwa [allocate, h1]
  · rw [allocate, ← h1]
    exact h c hc

theorem covers_allocate (h : r.Unexhausted) (database table : Text) :
    (allocate database table r).2.Covers database.lowercase table.lowercase
      (allocate database table r).1 := by
  refine ⟨_, take_mem _ _ _, rfl, rfl, ?_⟩
  change _ < following (allocate database table r).1
  rw [following_eq (allocate_lt (by decide) h database table)]
  exact Nat.lt_succ_self _

/-- What is covered stays covered. -/
theorem within_allocate (hr : r.Unexhausted) (database table : Text) :
    r.Within (allocate database table r).2 := by
  rintro d t id ⟨c, hc, hd, ht, hi⟩
  obtain ⟨c', hc', hd', ht', hn⟩ := le_of_take hr hc database.lowercase table.lowercase
  exact ⟨c', hc', hd'.trans hd, ht'.trans ht, by omega⟩

/-- **A new id is larger** than every id the counter has passed. -/
theorem Covers.lt_allocate (h : r.WellFormed) {id : Nat}
    (hc : r.Covers database.lowercase table.lowercase id) :
    id < (Registry.allocate database table r).1 := by
  obtain ⟨c, hm, hd, ht, hi⟩ := hc
  rwa [Registry.allocate, take_fst_of_mem h.distinct hm hd ht]

end FlatDb.Registry
