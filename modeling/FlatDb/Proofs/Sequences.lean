import FlatDb.Proofs.Counters

/-! # Counters as independent sequences

A registry is a list, and every id is taken by walking through it.  Seen from a pair of names, it is
one number: the next id of the pair.

* `Registry.next` is that number, and `Registry.next_take` says that taking an id moves it on by one for
  the pair it is taken for and for no other.
* `Registry.advance` moves the first counter of each pair on by a number of ids of its own, and
  `Registry.enter` gives a pair its counter.  Taking one id is the one after the other
  (`take_eq`), and taking many is again only that: `Registry.newcomers` are the counters that are new,
  in the order of their first use.
* `Registry.takeAll_fst` and `Registry.takeAll_snd`: **after any sequence of ids taken for any pairs**, the
  ids are what each pair would have been given alone, and the registry is the old one with its newcomers
  behind it, each counter moved on by the number of ids taken for its pair. -/

namespace FlatDb

open Text

/-- The names a counter is for. -/
def Counter.pair (c : Counter) : Text × Text := (c.database, c.table)

namespace Registry

variable {r s : Registry} {p q : Text × Text} {m n : Text × Text → Nat}

/-- The pairs of names that have a counter. -/
def pairs (r : Registry) : List (Text × Text) := r.map Counter.pair

theorem pairs_cons (c : Counter) (r : Registry) : pairs (c :: r) = c.pair :: pairs r := rfl

theorem pairs_append (r s : Registry) : pairs (r ++ s) = pairs r ++ pairs s := List.map_append

/-! ### The next id of a pair -/

/-- The next id of a pair of names.  Its first counter counts; a pair without one starts at 1. -/
def next (r : Registry) (p : Text × Text) : Nat :=
  ((r.find? fun c => c.pair = p).map Counter.next).getD 1

theorem next_cons (c : Counter) (r : Registry) (p : Text × Text) :
    next (c :: r) p = if c.pair = p then c.next else next r p := by
  unfold next
  rw [List.find?_cons]
  by_cases h : c.pair = p <;> simp [h]

theorem next_of_not_mem (h : p ∉ pairs r) : next r p = 1 := by
  induction r with
  | nil => rfl
  | cons c more ih =>
      rw [pairs_cons, List.mem_cons, not_or] at h
      rw [next_cons, if_neg fun hc => h.1 hc.symm, ih h.2]

theorem next_append_of_mem (h : p ∈ pairs r) (s : Registry) : next (r ++ s) p = next r p := by
  induction r with
  | nil => cases h
  | cons c more ih =>
      rw [List.cons_append, next_cons, next_cons]
      split
      · rfl
      · next hc =>
          rw [pairs_cons, List.mem_cons] at h
          exact ih (h.resolve_left fun he => hc he.symm)

theorem next_append_of_not_mem (h : p ∉ pairs r) (s : Registry) : next (r ++ s) p = next s p := by
  induction r with
  | nil => rfl
  | cons c more ih =>
      rw [pairs_cons, List.mem_cons, not_or] at h
      rw [List.cons_append, next_cons, if_neg fun hc => h.1 hc.symm, ih h.2]

theorem take_cons (c : Counter) (r : Registry) (p : Text × Text) :
    take p.1 p.2 (c :: r) =
      if c.pair = p then (c.next, { c with next := following c.next } :: r)
      else ((take p.1 p.2 r).1, c :: (take p.1 p.2 r).2) := by
  have hpair : c.pair = p ↔ c.database = p.1 ∧ c.table = p.2 := Prod.ext_iff
  simp only [take, hpair]

theorem take_fst_eq (p : Text × Text) (r : Registry) : (take p.1 p.2 r).1 = next r p := by
  induction r with
  | nil => rfl
  | cons c more ih =>
      rw [take_cons, next_cons]
      split
      · rfl
      · exact ih

/-! ### Moving counters on -/

/-- A registry with the first counter of each pair moved on by a number of ids. -/
def advance : (Text × Text → Nat) → Registry → Registry
  | _, [] => []
  | n, c :: more =>
    { c with next := c.next + n c.pair } :: advance (fun p => if p = c.pair then 0 else n p) more

theorem pairs_advance (n : Text × Text → Nat) (r : Registry) : pairs (advance n r) = pairs r := by
  induction r generalizing n with
  | nil => rfl
  | cons c more ih =>
      rw [advance, pairs_cons, pairs_cons, ih]
      rfl

/-- Counters of pairs that do not move keep their value and their place. -/
theorem getElem?_advance {i : Nat} {c : Counter} (h : r[i]? = some c) (hn : n c.pair = 0) :
    (advance n r)[i]? = some c := by
  induction r generalizing i n with
  | nil => cases h
  | cons a more ih =>
      rw [advance]
      cases i with
      | zero =>
          cases h
          rw [hn]
          rfl
      | succ i =>
          refine ih h ?_
          rw [hn, ite_self]

theorem advance_of_zero (h : ∀ p ∈ pairs r, n p = 0) : advance n r = r := by
  refine List.ext_getElem? fun i => ?_
  cases hi : r[i]? with
  | some c => exact getElem?_advance hi (h _ (List.mem_map_of_mem (List.mem_of_getElem? hi)))
  | none =>
      have hlen : (advance n r).length = r.length := by
        simpa [pairs] using congrArg List.length (pairs_advance n r)
      rw [List.getElem?_eq_none_iff] at hi ⊢
      omega

theorem advance_advance (m n : Text × Text → Nat) (r : Registry) :
    advance n (advance m r) = advance (fun p => m p + n p) r := by
  induction r generalizing m n with
  | nil => rfl
  | cons c more ih =>
      simp only [advance, ih, Counter.pair]
      congr 1
      · rw [Nat.add_assoc]
      · congr 1
        funext p
        by_cases hp : p = (c.database, c.table) <;> simp [hp]

theorem advance_append (n : Text × Text → Nat) (r s : Registry) :
    advance n (r ++ s) = advance n r ++ advance (fun p => if p ∈ pairs r then 0 else n p) s := by
  induction r generalizing n with
  | nil => rfl
  | cons c more ih =>
      rw [List.cons_append, advance, advance, ih, List.cons_append]
      congr 3
      funext p
      simp only [pairs_cons, List.mem_cons]
      by_cases hc : p = c.pair <;> by_cases hm : p ∈ pairs more <;> simp [hc, hm]

theorem next_advance (h : p ∈ pairs r) : next (advance n r) p = next r p + n p := by
  induction r generalizing n with
  | nil => cases h
  | cons c more ih =>
      rw [advance, next_cons, next_cons]
      change (if c.pair = p then c.next + n c.pair else _) = _
      split
      · next hc => rw [hc]
      · next hc =>
          rw [pairs_cons, List.mem_cons] at h
          rw [ih (h.resolve_left fun he => hc he.symm), if_neg fun he => hc he.symm]

/-! ### New counters -/

/-- A registry in which a pair has a counter. -/
def enter (r : Registry) (p : Text × Text) : Registry :=
  if p ∈ pairs r then r else r ++ [⟨p.1, p.2, 1⟩]

theorem pairs_enter (r : Registry) (p : Text × Text) :
    pairs (enter r p) = if p ∈ pairs r then pairs r else pairs r ++ [p] := by
  unfold enter
  split
  · rfl
  · exact pairs_append _ _

theorem mem_pairs_enter (r : Registry) (p : Text × Text) : p ∈ pairs (enter r p) := by
  rw [pairs_enter]
  split
  · assumption
  · exact List.mem_append_right _ List.mem_cons_self

theorem next_enter (r : Registry) (p q : Text × Text) : next (enter r p) q = next r q := by
  unfold enter
  split
  · rfl
  · by_cases hq : q ∈ pairs r
    · exact next_append_of_mem hq _
    · rw [next_append_of_not_mem hq, next_of_not_mem hq, next_cons]
      split <;> rfl

/-- To take an id is to give the pair a counter and to move that counter on. -/
theorem take_eq (h : next r p < UInt64.size - 1) :
    (take p.1 p.2 r).2 = advance (fun q => if q = p then 1 else 0) (enter r p) := by
  induction r with
  | nil => simp [take, enter, pairs, advance, Counter.pair]
  | cons c more ih =>
      rw [take_cons]
      rw [next_cons] at h
      by_cases hc : c.pair = p
      · rw [if_pos hc] at h ⊢
        have henter : enter (c :: more) p = c :: more := by
          rw [enter, pairs_cons, if_pos (List.mem_cons.mpr (.inl hc.symm))]
        rw [henter, advance, if_pos hc, following_eq h, advance_of_zero fun q _ => ?_]
        split
        · rfl
        · next hq => rw [if_neg (hc ▸ hq)]
      · rw [if_neg hc] at h ⊢
        have henter : enter (c :: more) p = c :: enter more p := by
          have hmem : p ∈ pairs (c :: more) ↔ p ∈ pairs more := by
            rw [pairs_cons, List.mem_cons, or_iff_right fun he => hc he.symm]
          simp only [enter, hmem]
          split <;> rfl
        rw [henter, advance, if_neg hc]
        dsimp only
        rw [ih h]
        congr 2
        funext q
        split
        · next hq => rw [hq, if_neg fun he => hc he.symm]
        · exact (ite_self 0).symm

/-- An id more for a pair is an id more for that pair and for no other. -/
theorem next_take (h : next r p < UInt64.size - 1) (q : Text × Text) :
    next (take p.1 p.2 r).2 q = next r q + if q = p then 1 else 0 := by
  rw [take_eq h]
  by_cases hq : q ∈ pairs (enter r p)
  · rw [next_advance hq, next_enter]
  · have hne : q ≠ p := fun he => hq (he ▸ mem_pairs_enter r p)
    rw [next_of_not_mem (by rwa [pairs_advance]), if_neg hne, ← next_enter r p, next_of_not_mem hq]

/-- Counters for the pairs of a list that have none, in the order in which the list names them
first. -/
def newcomers (r : Registry) (ps : List (Text × Text)) : Registry :=
  (ps.filter fun p => p ∉ pairs r).eraseDups.map fun p => ⟨p.1, p.2, 1⟩

/-- The pairs of the newcomers. -/
theorem pairs_newcomers (r : Registry) (ps : List (Text × Text)) :
    pairs (newcomers r ps) = (ps.filter fun p => p ∉ pairs r).eraseDups := by
  unfold newcomers pairs
  rw [List.map_map]
  exact List.map_id _

theorem newcomers_congr (h : pairs r = pairs s) (ps : List (Text × Text)) :
    newcomers r ps = newcomers s ps := by
  unfold newcomers
  rw [h]

/-- The first pair of a list comes first. -/
theorem enter_newcomers (r : Registry) (p : Text × Text) (ps : List (Text × Text)) :
    enter r p ++ newcomers (enter r p) ps = r ++ newcomers r (p :: ps) := by
  unfold newcomers
  rw [pairs_enter, enter]
  by_cases hp : p ∈ pairs r
  · simp [hp]
  · have hfilter : (ps.filter fun q => q ∉ pairs r).filter (fun q => !q == p) =
        ps.filter fun q => q ∉ pairs r ++ [p] := by
      rw [List.filter_filter]
      refine List.filter_congr fun q _ => ?_
      by_cases hq : q = p <;> simp [hq, hp]
    simp only [hp, if_false, List.filter_cons, not_false_eq_true, decide_true, if_true,
      List.eraseDups_cons, hfilter]
    simp

/-! ### Many ids -/

/-- Takes an id for each of a list of pairs. -/
def takeAll : List (Text × Text) → Registry → List Nat × Registry
  | [], r => ([], r)
  | p :: more, r =>
    let (id, r) := take p.1 p.2 r
    let (ids, r) := takeAll more r
    (id :: ids, r)

theorem takeAll_cons (p : Text × Text) (ps : List (Text × Text)) (r : Registry) :
    takeAll (p :: ps) r = (next r p :: (takeAll ps (take p.1 p.2 r).2).1,
      (takeAll ps (take p.1 p.2 r).2).2) := by
  rw [takeAll, ← take_fst_eq]

/-- No counter gets past the largest number that an id can have, while ids are taken for a list of
pairs. -/
def Suffices (r : Registry) (ps : List (Text × Text)) : Prop :=
  ∀ p ∈ ps, next r p + ps.count p < UInt64.size

theorem Suffices.lt {ps : List (Text × Text)} (h : Suffices r (p :: ps)) :
    next r p < UInt64.size - 1 := by
  have := h p List.mem_cons_self
  rw [List.count_cons_self] at this
  omega

theorem Suffices.take {ps : List (Text × Text)} (h : Suffices r (p :: ps)) :
    Suffices (take p.1 p.2 r).2 ps := by
  intro q hq
  have := h q (List.mem_cons_of_mem _ hq)
  rw [List.count_cons] at this
  rw [next_take h.lt]
  simp only [beq_iff_eq, eq_comm (a := p)] at this
  omega

/-- **Many ids.**  Each id is as many after the next id of its pair as ids of that pair were taken
before. -/
theorem takeAll_fst {ps : List (Text × Text)} (h : Suffices r ps) {before after : List (Text × Text)}
    (hps : ps = before ++ p :: after) :
    (takeAll ps r).1[before.length]? = some (next r p + before.count p) := by
  induction before generalizing r ps with
  | nil =>
      subst hps
      rw [List.nil_append, takeAll_cons]
      rfl
  | cons q before ih =>
      subst hps
      have hmore : Suffices (take q.1 q.2 r).2 (before ++ p :: after) := Suffices.take h
      rw [List.cons_append, takeAll_cons, List.length_cons, List.getElem?_cons_succ,
        ih hmore rfl, next_take (Suffices.lt h), List.count_cons]
      simp only [beq_iff_eq, eq_comm (a := p)]
      congr 1
      omega

/-- The registry after an id was taken for each of a list of pairs: the old one with its newcomers, moved
on. -/
def after (r : Registry) (ps : List (Text × Text)) : Registry :=
  advance (fun p => ps.count p) (r ++ newcomers r ps)

/-- **The registry after many ids.** -/
theorem takeAll_snd {ps : List (Text × Text)} (h : Suffices r ps) : (takeAll ps r).2 = after r ps := by
  unfold after
  induction ps generalizing r with
  | nil =>
      rw [takeAll, advance_of_zero fun _ _ => List.count_nil]
      exact (List.append_nil r).symm
  | cons p more ih =>
      rw [takeAll_cons]
      dsimp only
      rw [ih h.take, ← enter_newcomers, newcomers_congr (s := enter r p), take_eq h.lt]
      · -- the newcomers are not the pair that has its counter already
        have hmoved : advance (fun q => if q = p then 1 else 0) (enter r p) ++
            newcomers (enter r p) more =
            advance (fun q => if q = p then 1 else 0) (enter r p ++ newcomers (enter r p) more) := by
          rw [advance_append, advance_of_zero (r := newcomers _ _)]
          intro q _
          split
          · rfl
          · next hq =>
              refine if_neg fun he => hq ?_
              rw [he]
              exact mem_pairs_enter r p
        rw [hmoved, advance_advance]
        congr 1
        funext q
        rw [List.count_cons]
        simp only [beq_iff_eq, eq_comm (a := p)]
        omega
      · rw [take_eq h.lt, pairs_advance]

/-- New pairs stand behind the old ones in the order of their first use. -/
theorem pairs_after (r : Registry) (ps : List (Text × Text)) :
    pairs (after r ps) = pairs r ++ (ps.filter fun p => p ∉ pairs r).eraseDups := by
  rw [after, pairs_advance, pairs_append, pairs_newcomers]

/-- The counters of other pairs keep their value and their place. -/
theorem getElem?_after {ps : List (Text × Text)} {i : Nat} {c : Counter} (h : r[i]? = some c)
    (hc : c.pair ∉ ps) : (after r ps)[i]? = some c := by
  refine getElem?_advance ?_ (List.count_eq_zero.mpr hc)
  rw [List.getElem?_append_left (List.getElem?_eq_some_iff.mp h).1, h]

/-! ### Names in any case -/

/-- The pair of names under which the ids of a table are counted. -/
def countedAs (call : Text × Text) : Text × Text := (call.1.lowercase, call.2.lowercase)

theorem allocate_eq_take (call : Text × Text) (r : Registry) :
    r.allocate call.1 call.2 = take (countedAs call).1 (countedAs call).2 r := rfl

/-- Counters that can be read back stay so if the names that are new can be. -/
theorem Readable.allocate (h : r.Readable) {call : Text × Text}
    (hl : Legible (countedAs call).1 (countedAs call).2) :
    (r.allocate call.1 call.2).2.Readable := by
  constructor <;> intro c hc <;> rcases mem_take hc with hc | rfl
  · exact h.legible c hc
  · exact hl
  · exact h.small c hc
  · exact following_lt _

/-- Two calls are for the same table, ignoring the case of letters. -/
def SamePair (a b : Text × Text) : Bool := sameName a.1 b.1 && sameName a.2 b.2

/-- The names in a call are of letters and digits. -/
def Plain (call : Text × Text) : Prop :=
  (∀ c ∈ call.1, c.isAlphanum = true) ∧ ∀ c ∈ call.2, c.isAlphanum = true

instance decidablePlain (call : Text × Text) : Decidable (Plain call) :=
  decidable_of_iff (call.1.all Char.isAlphanum = true ∧ call.2.all Char.isAlphanum = true)
    (by simp [Plain])

theorem Plain.countedAs_eq {call : Text × Text} (h : Plain call) :
    countedAs call = (foldCase call.1, foldCase call.2) :=
  Prod.ext (lowercaseAfter_eq_foldCase h.1 []) (lowercaseAfter_eq_foldCase h.2 [])

theorem Plain.legible {call : Text × Text} (h : Plain call) :
    Legible (countedAs call).1 (countedAs call).2 := by
  have hlower {t : Text} (ht : ∀ c ∈ t, c.isAlphanum = true) :
      ∀ c ∈ foldCase t, c.isAlphanum = true := by
    intro c hc
    obtain ⟨a, ha, rfl⟩ := List.mem_map.mp hc
    exact isAlphanum_toLower (ht a ha)
  rw [h.countedAs_eq]
  exact .of_isAlphanum (hlower h.1) (hlower h.2)

theorem Plain.countedAs_eq_iff {a b : Text × Text} (ha : Plain a) (hb : Plain b) :
    countedAs b = countedAs a ↔ SamePair a b = true := by
  rw [ha.countedAs_eq, hb.countedAs_eq, SamePair, Bool.and_eq_true, sameName_iff, sameName_iff,
    Prod.mk.injEq, eq_comm, @eq_comm _ (foldCase b.2)]

/-- The calls that are counted for a table are those that name it, in any case. -/
theorem count_countedAs {call : Text × Text} {others : List (Text × Text)} (hc : Plain call)
    (ho : ∀ other ∈ others, Plain other) :
    (others.map countedAs).count (countedAs call) = others.countP (SamePair call) := by
  rw [List.count, List.countP_map]
  refine List.countP_congr fun other hother => ?_
  rw [Function.comp_apply, beq_iff_eq]
  exact hc.countedAs_eq_iff (ho other hother)

end Registry

end FlatDb
