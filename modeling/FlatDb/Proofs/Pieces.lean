import FlatDb.Text.Blank
import FlatDb.Text.Lines
import FlatDb.Text.Natural

/-! # Cutting and joining

Texts that are put together from pieces fall apart into the same pieces again.

* `splitOn_join`: pieces without the separator, joined by it and cut at it.
* `join_splitOn`: any list, cut and joined.
* `lines_flatten`: lines without a line feed and without a carriage return at the end, each ended
  by a line feed, read as lines.
* `count?_ofNat`: a number below 2 ^ 64, written in decimal and read as a count. -/

namespace FlatDb.Text

section pieces
variable {α : Type} [DecidableEq α]

/-- What stands before the first separator belongs to the first piece. -/
theorem cut_append {sep : α} {before : List α} (h : sep ∉ before) (rest : List α) :
    cut sep (before ++ rest) = (before ++ (cut sep rest).1, (cut sep rest).2) := by
  induction before with
  | nil => rfl
  | cons x xs ih =>
      rw [List.mem_cons, not_or] at h
      have hx : ¬ x = sep := fun he => h.1 he.symm
      simp [cut, ih h.2, hx]

theorem cut_of_not_mem {sep : α} {piece : List α} (h : sep ∉ piece) :
    cut sep piece = (piece, []) := by
  simpa [cut] using cut_append h []

theorem cut_append_sep {sep : α} {piece : List α} (h : sep ∉ piece) (rest : List α) :
    cut sep (piece ++ sep :: rest) = (piece, (cut sep rest).1 :: (cut sep rest).2) := by
  simp [cut_append h, cut]

theorem splitOn_of_not_mem {sep : α} {piece : List α} (h : sep ∉ piece) :
    splitOn sep piece = [piece] := by
  rw [splitOn, cut_of_not_mem h]

omit [DecidableEq α] in
theorem join_cons_cons (sep : α) (a b : List α) (l : List (List α)) :
    join sep (a :: b :: l) = a ++ sep :: join sep (b :: l) := rfl

/-- Joined pieces fall apart into the same pieces. -/
theorem splitOn_join {sep : α} {pieces : List (List α)} (hne : pieces ≠ [])
    (h : ∀ piece ∈ pieces, sep ∉ piece) : splitOn sep (join sep pieces) = pieces := by
  induction pieces with
  | nil => exact absurd rfl hne
  | cons piece more ih =>
      have hp : sep ∉ piece := h piece List.mem_cons_self
      cases more with
      | nil => exact splitOn_of_not_mem hp
      | cons next more =>
          have ih := ih (by simp) fun p hp => h p (List.mem_cons_of_mem _ hp)
          rw [join_cons_cons, splitOn, cut_append_sep hp]
          exact congrArg (piece :: ·) ih

omit [DecidableEq α] in
/-- Pieces with a separator behind each are joined pieces with one behind all. -/
theorem flatten_eq_join {sep : α} {pieces : List (List α)} (hne : pieces ≠ []) :
    (pieces.map (· ++ [sep])).flatten = join sep pieces ++ [sep] := by
  induction pieces with
  | nil => exact absurd rfl hne
  | cons piece more ih =>
      cases more with
      | nil => exact List.append_nil _
      | cons next more =>
          rw [List.map_cons, List.flatten_cons, ih (List.cons_ne_nil next more), join_cons_cons]
          simp

/-- Cutting at a separator that was put between two lists. -/
theorem splitOn_append_sep (sep : α) (xs ys : List α) :
    splitOn sep (xs ++ sep :: ys) = splitOn sep xs ++ splitOn sep ys := by
  induction xs with
  | nil => simp [splitOn, cut]
  | cons x xs ih =>
      simp only [splitOn, List.cons_append, cut] at ih ⊢
      by_cases hx : x = sep
      · rw [if_pos hx, if_pos hx]
        exact congrArg ([] :: ·) ih
      · obtain ⟨hhead, htail⟩ := List.cons.inj ih
        rw [if_neg hx, if_neg hx, hhead, htail]

/-- Pieces that are joined again. -/
theorem join_splitOn (sep : α) (xs : List α) : join sep (splitOn sep xs) = xs := by
  induction xs with
  | nil => rfl
  | cons x xs ih =>
      rw [splitOn, cut]
      dsimp only
      split
      · next hx =>
          rw [join_cons_cons, hx]
          exact congrArg (sep :: ·) ih
      · rw [splitOn] at ih
        cases hmore : (cut sep xs).2 with
        | nil =>
            rw [hmore] at ih
            exact congrArg (x :: ·) ih
        | cons next more =>
            rw [hmore, join_cons_cons] at ih
            rw [join_cons_cons]
            exact congrArg (x :: ·) ih

/-- A piece holds what the list holds, but no separator. -/
theorem mem_of_mem_splitOn {sep x : α} {xs piece : List α} (h : piece ∈ splitOn sep xs)
    (hx : x ∈ piece) : x ∈ xs ∧ x ≠ sep := by
  induction xs generalizing piece with
  | nil =>
      rw [List.mem_singleton.mp h] at hx
      cases hx
  | cons y xs ih =>
      rw [splitOn, cut] at h
      dsimp only at h
      split at h
      · rcases List.mem_cons.mp h with rfl | h
        · cases hx
        · exact (ih h hx).imp_left (List.mem_cons_of_mem y)
      · next hy =>
          rcases List.mem_cons.mp h with rfl | h
          · rcases List.mem_cons.mp hx with rfl | hx
            · exact ⟨List.mem_cons_self, hy⟩
            · exact (ih List.mem_cons_self hx).imp_left (List.mem_cons_of_mem y)
          · exact (ih (List.mem_cons_of_mem _ h) hx).imp_left (List.mem_cons_of_mem y)

/-! ### Lines -/

theorem dropReturn_of_ne {cr : α} {line : List α} (h : line.getLast? ≠ some cr) :
    dropReturn cr line = line := if_neg h

/-- Lines that end in a line feed are read without the carriage return before it. -/
theorem linesBy_flatten_dropReturn {lf cr : α} {ls : List (List α)} (h : ∀ line ∈ ls, lf ∉ line) :
    linesBy lf cr (ls.map (· ++ [lf])).flatten = ls.map (dropReturn cr) := by
  induction ls with
  | nil => rfl
  | cons line more ih =>
      have hlf : lf ∉ line := h line List.mem_cons_self
      have ih := ih fun l hl => h l (List.mem_cons_of_mem _ hl)
      have e : ((line :: more).map (· ++ [lf])).flatten =
          line ++ lf :: (more.map (· ++ [lf])).flatten := by simp
      rw [e, linesBy, cut_append_sep hlf, linesOfPieces]
      exact congrArg (dropReturn cr line :: ·) ih

/-- Lines that end in a line feed, with no carriage return before it, are read as they are. -/
theorem linesBy_flatten {lf cr : α} {ls : List (List α)}
    (h : ∀ line ∈ ls, lf ∉ line ∧ line.getLast? ≠ some cr) :
    linesBy lf cr (ls.map (· ++ [lf])).flatten = ls := by
  rw [linesBy_flatten_dropReturn fun line hl => (h line hl).1]
  rw [List.map_congr_left fun line hl => dropReturn_of_ne (h line hl).2, List.map_id']

/-- The lines of a text are its pieces, but for an empty one at the end. -/
theorem linesOfPieces_of_ne {cr : α} {first : List α} {more : List (List α)}
    (h : ∀ piece ∈ first :: more, piece.getLast? ≠ some cr) :
    linesOfPieces cr first more =
      if (first :: more).getLast? = some [] then (first :: more).dropLast else first :: more := by
  induction more generalizing first with
  | nil => simp [linesOfPieces]
  | cons next more ih =>
      have hmore := ih fun piece hp => h piece (List.mem_cons_of_mem _ hp)
      rw [linesOfPieces, dropReturn_of_ne (h first List.mem_cons_self), hmore, List.getLast?_cons_cons,
        List.dropLast_cons_cons]
      split <;> rfl

theorem exists_piece_of_mem_line {cr x : α} {first line : List α} {more : List (List α)}
    (h : line ∈ linesOfPieces cr first more) (hx : x ∈ line) : ∃ piece ∈ first :: more, x ∈ piece := by
  induction more generalizing first with
  | nil =>
      unfold linesOfPieces at h
      split at h
      · cases h
      · exact ⟨line, List.mem_cons.mpr (Or.inl (List.mem_singleton.mp h)), hx⟩
  | cons next more ih =>
      rcases List.mem_cons.mp h with rfl | h
      · refine ⟨first, List.mem_cons_self, ?_⟩
        unfold dropReturn at hx
        split at hx
        · exact List.dropLast_subset _ hx
        · exact hx
      · obtain ⟨piece, hp, hx⟩ := ih h
        exact ⟨piece, List.mem_cons_of_mem _ hp, hx⟩

/-- A line holds what the list holds, but no line feed. -/
theorem mem_of_mem_linesBy {lf cr x : α} {xs line : List α} (h : line ∈ linesBy lf cr xs)
    (hx : x ∈ line) : x ∈ xs ∧ x ≠ lf := by
  obtain ⟨piece, hp, hx⟩ := exists_piece_of_mem_line h hx
  exact mem_of_mem_splitOn hp hx

end pieces

theorem lines_flatten {ls : List Text} (h : ∀ line ∈ ls, '\n' ∉ line ∧ line.getLast? ≠ some '\r') :
    lines (ls.map (· ++ ['\n'])).flatten = ls := linesBy_flatten h

/-- Text without a carriage return at the end of a piece is read by lines as its pieces, but for an empty
one at the end. -/
theorem lines_eq {t : Text} (h : ∀ piece ∈ splitOn '\n' t, piece.getLast? ≠ some '\r') :
    lines t = if (splitOn '\n' t).getLast? = some [] then (splitOn '\n' t).dropLast
      else splitOn '\n' t := linesOfPieces_of_ne h

theorem mem_join {sep c : Char} {pieces : List Text} (h : c ∈ join sep pieces) :
    c = sep ∨ ∃ piece ∈ pieces, c ∈ piece := by
  induction pieces with
  | nil => cases h
  | cons piece more ih =>
      cases more with
      | nil => exact Or.inr ⟨piece, List.mem_cons_self, h⟩
      | cons next more =>
          rw [join_cons_cons, List.mem_append, List.mem_cons] at h
          rcases h with h | h | h
          · exact Or.inr ⟨piece, List.mem_cons_self, h⟩
          · exact Or.inl h
          · exact (ih h).imp_right fun ⟨p, hp, hc⟩ => ⟨p, List.mem_cons_of_mem _ hp, hc⟩

theorem join_ne_nil {sep : Char} {piece : Text} (h : piece ≠ []) (more : List Text) :
    join sep (piece :: more) ≠ [] := by
  cases more with
  | nil => exact h
  | cons next more => simp [join_cons_cons]

/-! ### Decimal numbers -/

theorem isDigit_of_mem_ofNat {c : Char} {n : Nat} (h : c ∈ ofNat n) : c.isDigit = true :=
  Nat.isDigit_of_mem_toDigits (by decide) (by decide) h

theorem ofNat_ne_nil (n : Nat) : ofNat n ≠ [] := Nat.toDigits_ne_nil

theorem natural?_eq_some_iff {t : Text} {n : Nat} :
    natural? t = some n ↔
      t ≠ [] ∧ (∀ c ∈ t, c.isDigit = true) ∧ Nat.ofDigitChars 10 t 0 = n := by
  unfold natural?
  rw [Option.ite_none_right_eq_some, Option.some.injEq, List.all_eq_true, and_assoc]

theorem natural?_ofNat (n : Nat) : natural? (ofNat n) = some n :=
  natural?_eq_some_iff.mpr
    ⟨ofNat_ne_nil n, fun _ hc => isDigit_of_mem_ofNat hc, Nat.ofDigitChars_ten_toDigits⟩

theorem ofNat_inj {a b : Nat} : ofNat a = ofNat b ↔ a = b := by
  refine ⟨fun h => ?_, congrArg ofNat⟩
  have hread := congrArg natural? h
  rwa [natural?_ofNat, natural?_ofNat, Option.some.injEq] at hread

/-- A number that fits into 64 bits is read back from its decimal form. -/
theorem count?_ofNat {n : Nat} (h : n < UInt64.size) : count? (ofNat n) = some n := by
  have e : count? (ofNat n) = (natural? (ofNat n)).filter (· < Nat.pow 2 64) := by
    unfold count?
    split
    · next rest hr =>
        have hp : '+' ∈ ofNat n := by
          rw [hr]
          exact List.mem_cons_self
        exact absurd (isDigit_of_mem_ofNat hp) (by decide)
    · rfl
  rw [e, natural?_ofNat, Option.filter_some, if_pos]
  exact decide_eq_true h

/-! ### White space -/

theorem trim_eq_self {t : Text} (h : ∀ c ∈ t, isBlank c = false) : trim t = t := by
  have hd : ∀ {s : Text}, (∀ c ∈ s, isBlank c = false) → s.dropWhile isBlank = s := by
    intro s hs
    cases s with
    | nil => rfl
    | cons c s =>
        rw [List.dropWhile_cons, if_neg]
        rw [hs c List.mem_cons_self]
        exact Bool.false_ne_true
  rw [trim, hd h, trimEnd, hd fun c hc => h c (List.mem_reverse.mp hc), List.reverse_reverse]

theorem mem_of_mem_trim {t : Text} {c : Char} (h : c ∈ t.trim) : c ∈ t := by
  rw [trim, trimEnd, List.mem_reverse] at h
  have h := List.mem_reverse.mp ((List.dropWhile_sublist _).subset h)
  exact (List.dropWhile_sublist _).subset h

end FlatDb.Text
