import FlatDb.Proofs.Names

/-! # Programs that may break off

The library computes with lists and texts, where nothing can go wrong.  A program that keeps positions
and byte offsets instead can: an index may lie behind the end of a list, a range of bytes may cut a
character, a subtraction may fall below zero and a counter may overflow.  Such a program does not end
with an error, it breaks off.

Here and in the modules beside this one the engine is written once more as such a program, with every
one of these operations checked.

* `Checked ε` are programs that end with a result or an error, or break off.
* The operations to be checked are partial functions: the element at an index, `minus?`, `next?`,
  `erase?`, `set?`, and `Slice.of?`, which takes a range of bytes out of a text
  (`Slice.of?_eq_some_iff`).  A program that needs their value (`checked`) breaks off if there is none.
* `Refines R x y` says that a program `x` **does not break off**: it fails exactly as `y` does, and
  otherwise the two results are related by `R`. -/

namespace FlatDb

open Text

/-- Programs that end with a result or an error, or break off. -/
abbrev Checked (ε : Type) := ExceptT ε Option

namespace Checked

variable {ε ε' α β γ : Type}

/-- A program that has broken off. -/
def broken : Checked ε α := ExceptT.mk none

/-- A program that cannot break off. -/
def safe (x : Except ε α) : Checked ε α := ExceptT.mk (some x)

/-- The value of an operation that may have none; the program breaks off then. -/
def checked (x : Option α) : Checked ε α := ExceptT.mk (x.map .ok)

@[simp]
theorem checked_some (a : α) : (checked (some a) : Checked ε α) = pure a := rfl

theorem mapError_eq_ok_iff {f : ε → ε'} {x : Except ε α} {a : α} :
    x.mapError f = .ok a ↔ x = .ok a := by
  cases x with
  | error e => exact ⟨nofun, nofun⟩
  | ok b =>
      have hf : (Except.ok b : Except ε α).mapError f = .ok b := rfl
      rw [hf, Except.ok.injEq, Except.ok.injEq]

/-- Programs one after the other, where the second one has a result of the first. -/
theorem bind_eq_safe {x : Except ε α} {f : α → Checked ε β} {g : α → Except ε β}
    (h : ∀ a, x = .ok a → f a = safe (g a)) : safe x >>= f = safe (x >>= g) := by
  cases x with
  | error e => rfl
  | ok a => exact h a rfl

theorem adapt_safe (f : ε → ε') (x : Except ε α) :
    ExceptT.adapt f (safe x) = safe (x.mapError f) := by
  cases x <;> rfl

/-! ### Programs against computations -/

/-- A program does not break off, fails exactly as a computation does, and otherwise has a related
result. -/
inductive Refines (R : α → β → Prop) : Checked ε α → Except ε β → Prop where
  | error (e : ε) : Refines R (safe (.error e)) (.error e)
  | ok {a : α} {b : β} (h : R a b) : Refines R (safe (.ok a)) (.ok b)

namespace Refines

variable {R : α → β → Prop} {x : Checked ε α} {y : Except ε β}

theorem bind {α' β' : Type} {S : α' → β' → Prop} {f : α → Checked ε α'} {g : β → Except ε β'}
    (h : Refines R x y) (hf : ∀ a b, R a b → y = .ok b → Refines S (f a) (g b)) :
    Refines S (x >>= f) (y >>= g) := by
  cases h with
  | error e => exact .error e
  | ok hab => exact hf _ _ hab rfl

theorem of_error {e : ε} (h : Refines R x (.error e)) : x = safe (.error e) := by
  cases h
  rfl

theorem of_ok {b : β} (h : Refines R x (.ok b)) : ∃ a, x = safe (.ok a) ∧ R a b := by
  cases h with
  | ok hab => exact ⟨_, rfl, hab⟩

theorem adapt (h : Refines R x y) (f : ε → ε') : Refines R (ExceptT.adapt f x) (y.mapError f) := by
  cases h with
  | error e => exact .error (f e)
  | ok hab => exact .ok hab

theorem eq_safe {x : Checked ε α} {y : Except ε α} (h : Refines Eq x y) : x = safe y := by
  cases h with
  | error e => rfl
  | ok hab => rw [hab]

end Refines

/-! ### Checked operations -/

/-- A difference that must not fall below zero. -/
def minus? (a b : Nat) : Option Nat := if b ≤ a then some (a - b) else none

/-- A list without the element at an index, which must not lie behind the end. -/
def erase? (xs : List α) (i : Nat) : Option (List α) :=
  if i < xs.length then some (xs.eraseIdx i) else none

/-- A list with another element at an index, which must not lie behind the end. -/
def set? (xs : List α) (i : Nat) (x : α) : Option (List α) :=
  if i < xs.length then some (xs.set i x) else none

/-- The number after a number, which must fit into 64 bits. -/
def next? (n : Nat) : Option Nat := if n + 1 < UInt64.size then some (n + 1) else none

theorem minus?_eq {a b : Nat} (h : b ≤ a) : minus? a b = some (a - b) := if_pos h

theorem erase?_eq {xs : List α} {i : Nat} (h : i < xs.length) : erase? xs i = some (xs.eraseIdx i) :=
  if_pos h

theorem set?_eq {xs : List α} {i : Nat} (h : i < xs.length) (x : α) :
    set? xs i x = some (xs.set i x) := if_pos h

theorem next?_eq {n : Nat} (h : n + 1 < UInt64.size) : next? n = some (n + 1) := if_pos h

/-- A loop over a list that does not break off for any element. -/
theorem mapM_eq_safe {f : α → Checked ε β} {g : α → β} {xs : List α}
    (h : ∀ x ∈ xs, f x = safe (.ok (g x))) : xs.mapM f = safe (.ok (xs.map g)) := by
  induction xs with
  | nil => rfl
  | cons x xs ih =>
      rw [List.mapM_cons, h x List.mem_cons_self, ih fun y hy => h y (List.mem_cons_of_mem _ hy)]
      rfl

end Checked

/-! ### Ranges of bytes -/

/-- A range of bytes of a text, from its first byte to the one behind its last. -/
structure Slice where
  start : Nat
  stop : Nat
deriving DecidableEq, Repr

namespace Text

/-- The text behind its first `n` bytes, if a character ends there. -/
def dropBytes? : Nat → Text → Option Text
  | n, [] => if n = 0 then some [] else none
  | n, c :: t =>
    if n = 0 then some (c :: t)
    else if c.utf8Size ≤ n then dropBytes? (n - c.utf8Size) t
    else none

/-- The first `n` bytes of a text, if a character ends there. -/
def takeBytes? : Nat → Text → Option Text
  | n, [] => if n = 0 then some [] else none
  | n, c :: t =>
    if n = 0 then some []
    else if c.utf8Size ≤ n then (takeBytes? (n - c.utf8Size) t).map (c :: ·)
    else none

theorem dropBytes?_eq_some_iff {n : Nat} {t rest : Text} :
    dropBytes? n t = some rest ↔ ∃ used, t = used ++ rest ∧ size used = n := by
  induction t generalizing n with
  | nil =>
      rw [dropBytes?]
      constructor
      · intro h
        split at h
        · next hn =>
            cases h
            exact ⟨[], rfl, hn.symm⟩
        · cases h
      · rintro ⟨used, he, rfl⟩
        obtain ⟨rfl, rfl⟩ := List.nil_eq_append_iff.mp he
        rfl
  | cons c t ih =>
      have hc := c.utf8Size_pos
      rw [dropBytes?]
      constructor
      · intro h
        split at h
        · next hn =>
            cases h
            exact ⟨[], rfl, hn.symm⟩
        · split at h
          · obtain ⟨used, rfl, hu⟩ := ih.mp h
            refine ⟨c :: used, rfl, ?_⟩
            rw [size]
            omega
          · cases h
      · rintro ⟨used, he, rfl⟩
        cases used with
        | nil =>
            rw [List.nil_append] at he
            rw [← he]
            rfl
        | cons d used =>
            obtain ⟨rfl, rfl⟩ := List.cons.inj he
            rw [size, if_neg (by omega), if_pos (by omega)]
            exact ih.mpr ⟨used, rfl, by omega⟩

theorem takeBytes?_eq_some_iff {n : Nat} {t used : Text} :
    takeBytes? n t = some used ↔ ∃ rest, t = used ++ rest ∧ size used = n := by
  induction t generalizing n used with
  | nil =>
      rw [takeBytes?]
      constructor
      · intro h
        split at h
        · next hn =>
            cases h
            exact ⟨[], rfl, hn.symm⟩
        · cases h
      · rintro ⟨rest, he, rfl⟩
        obtain ⟨rfl, rfl⟩ := List.nil_eq_append_iff.mp he
        rfl
  | cons c t ih =>
      have hc := c.utf8Size_pos
      rw [takeBytes?]
      constructor
      · intro h
        split at h
        · next hn =>
            cases h
            exact ⟨c :: t, rfl, hn.symm⟩
        · split at h
          · obtain ⟨more, hm, rfl⟩ := Option.map_eq_some_iff.mp h
            obtain ⟨rest, rfl, hu⟩ := ih.mp hm
            refine ⟨rest, rfl, ?_⟩
            rw [size]
            omega
          · cases h
      · rintro ⟨rest, he, rfl⟩
        cases used with
        | nil => rfl
        | cons d used =>
            obtain ⟨rfl, rfl⟩ := List.cons.inj he
            rw [size, if_neg (by omega), if_pos (by omega),
              ih.mpr ⟨rest, rfl, by omega⟩]
            rfl

end Text

namespace Slice

/-- The characters a range of bytes takes out of a text. -/
def of? (s : Slice) (t : Text) : Option Text :=
  if s.start ≤ s.stop then (dropBytes? s.start t).bind (takeBytes? (s.stop - s.start)) else none

/-- **A range takes something out of a text** exactly if it lies inside and both ends are boundaries of
characters. -/
theorem of?_eq_some_iff {s : Slice} {t part : Text} :
    s.of? t = some part ↔
      ∃ before after, t = before ++ (part ++ after) ∧ s.start = size before ∧
        s.stop = size before + size part := by
  unfold of?
  constructor
  · intro h
    split at h
    · next hle =>
        obtain ⟨rest, hdrop, htake⟩ := Option.bind_eq_some_iff.mp h
        obtain ⟨before, rfl, hb⟩ := dropBytes?_eq_some_iff.mp hdrop
        obtain ⟨after, rfl, hp⟩ := takeBytes?_eq_some_iff.mp htake
        exact ⟨before, after, rfl, hb.symm, by omega⟩
    · cases h
  · rintro ⟨before, after, rfl, hstart, hstop⟩
    rw [if_pos (by omega), dropBytes?_eq_some_iff.mpr ⟨before, rfl, hstart.symm⟩, Option.bind_some]
    exact takeBytes?_eq_some_iff.mpr ⟨after, rfl, by omega⟩

end Slice

end FlatDb
