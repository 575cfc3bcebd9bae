import FlatDb.Proofs.Readable
import Mathlib.Data.List.Forall2

/-! # Which texts are tables

Reading a table cuts a text at its line feeds and each line at its tabs, and checks one line after the
other.  Here a table is laid out on a text instead, with nothing cut.

* `Text.Lined` lays a text out in lines (`Text.lined_iff`), `Table.Stands` cells on a line
  (`Table.stands_iff`), and `Text.Counts` says how a number is written (`Text.count?_eq_some_iff`).
* `Table.Shaped` says which texts hold a table, `Table.Shows` which table that is, and `Table.Faulty`
  what is wrong with any other text: the header, or the first line behind it that is no row.
* `decodeRows_eq_ok_iff` and `decodeRows_eq_error_iff` say what reading the lines behind a header
  comes to, whatever number they begin with.
* `Table.decode_iff_shaped`: **the texts that can be read are those that hold a table**, what is read
  is that table, and what is reported is what is wrong. -/

namespace FlatDb

open Text

namespace Text

/-! ### Lines -/

/-- A text is laid out in lines.  A line feed ends a line, together with a carriage return right before
it; what follows the last line feed is a line too, unless it is empty. -/
inductive Lined : Text → List Text → Prop where
  | nil : Lined [] []
  | last {line : Text} (hlf : '\n' ∉ line) (hne : line ≠ []) : Lined line [line]
  | feed {line rest : Text} {more : List Text} (hlf : '\n' ∉ line)
      (hcr : line.getLast? ≠ some '\r') (h : Lined rest more) :
      Lined (line ++ '\n' :: rest) (line :: more)
  | returnFeed {line rest : Text} {more : List Text} (hlf : '\n' ∉ line) (h : Lined rest more) :
      Lined (line ++ '\r' :: '\n' :: rest) (line :: more)

theorem lines_append_feed {line : Text} (hlf : '\n' ∉ line) (rest : Text) :
    lines (line ++ '\n' :: rest) = dropReturn '\r' line :: lines rest := by
  rw [lines, linesBy, cut_append_sep hlf, linesOfPieces]
  rfl

theorem lines_append_return {line : Text} (hlf : '\n' ∉ line) (rest : Text) :
    lines (line ++ '\r' :: '\n' :: rest) = line :: lines rest := by
  have hlf' : '\n' ∉ line ++ ['\r'] := by simpa using hlf
  have hdrop : dropReturn '\r' (line ++ ['\r']) = line := by simp [dropReturn]
  rw [List.append_cons line '\r', lines_append_feed hlf', hdrop]

theorem lines_of_lined {t : Text} {ls : List Text} (h : Lined t ls) : lines t = ls := by
  induction h with
  | nil => rfl
  | last hlf hne => rw [lines, linesBy, cut_of_not_mem hlf, linesOfPieces, if_neg hne]
  | feed hlf hcr _ ih => rw [lines_append_feed hlf, dropReturn_of_ne hcr, ih]
  | returnFeed hlf _ ih => rw [lines_append_return hlf, ih]

/-- The induction is on the length of the text: every line feed makes what follows it shorter. -/
theorem lined_lines (t : Text) : Lined t (lines t) := by
  generalize hn : t.length = n
  induction n using Nat.strongRecOn generalizing t with
  | ind n ih =>
      by_cases hlf : '\n' ∈ t
      · obtain ⟨line, rest, rfl, hline⟩ := List.eq_append_cons_of_mem hlf
        have hlen : rest.length < n := by
          rw [← hn, List.length_append, List.length_cons]
          omega
        have hrest := ih rest.length hlen rest rfl
        by_cases hcr : line.getLast? = some '\r'
        · obtain ⟨init, rfl⟩ := List.getLast?_eq_some_iff.mp hcr
          have hinit : '\n' ∉ init := fun hm => hline (List.mem_append_left _ hm)
          rw [← List.append_cons, lines_append_return hinit]
          exact .returnFeed hinit hrest
        · rw [lines_append_feed hline, dropReturn_of_ne hcr]
          exact .feed hline hcr hrest
      · by_cases hne : t = []
        · subst hne
          exact .nil
        · have hline := Lined.last hlf hne
          rwa [lines_of_lined hline]

/-- A text is laid out in its lines and in no others. -/
theorem lined_iff {t : Text} {ls : List Text} : Lined t ls ↔ lines t = ls :=
  ⟨lines_of_lined, fun h => h ▸ lined_lines t⟩

/-! ### Numbers -/

/-- A number below 2 ^ 64 in decimal: digits, leading zeros included, perhaps behind a plus sign. -/
def Counts (t : Text) (n : Nat) : Prop :=
  ∃ digits, (t = digits ∨ t = '+' :: digits) ∧ digits ≠ [] ∧ (∀ c ∈ digits, c.isDigit = true) ∧
    Nat.ofDigitChars 10 digits 0 = n ∧ n < UInt64.size

theorem count?_eq_some_iff {t : Text} {n : Nat} : count? t = some n ↔ Counts t n := by
  unfold count? Counts
  rw [Option.filter_eq_some_iff, natural?_eq_some_iff, decide_eq_true_iff]
  split
  · next rest =>
      constructor
      · rintro ⟨⟨hne, hd, hv⟩, hs⟩
        exact ⟨rest, .inr rfl, hne, hd, hv, hs⟩
      · rintro ⟨digits, rfl | h, hne, hd, hv, hs⟩
        · exact absurd (hd '+' List.mem_cons_self) (by decide)
        · cases h
          exact ⟨⟨hne, hd, hv⟩, hs⟩
  · next hplus =>
      constructor
      · rintro ⟨⟨hne, hd, hv⟩, hs⟩
        exact ⟨t, .inl rfl, hne, hd, hv, hs⟩
      · rintro ⟨digits, rfl | rfl, hne, hd, hv, hs⟩
        · exact ⟨⟨hne, hd, hv⟩, hs⟩
        · exact absurd rfl (hplus digits)

end Text

namespace Table

/-! ### Cells on a line -/

/-- Cells stand on a line, with a tab between neighbours and nothing else around them. -/
structure Stands (line : Text) (cells : List Text) : Prop where
  nonempty : cells ≠ []
  clear : ∀ cell ∈ cells, tab ∉ cell
  joined : Text.join tab cells = line

/-- The cells on a line are its pieces between tabs. -/
theorem stands_iff {line : Text} {cells : List Text} :
    Stands line cells ↔ splitOn tab line = cells := by
  constructor
  · rintro ⟨hne, hclear, rfl⟩
    exact splitOn_join hne hclear
  · rintro rfl
    exact ⟨List.cons_ne_nil _ _, fun _ hm ht => (mem_of_mem_splitOn hm ht).2 rfl, join_splitOn tab line⟩

/-- A row stands on a line under a header of `width` columns: there are as many cells, kept as they
are, and the first one is the id. -/
structure RowOn (width : Nat) (line : Text) (r : Row) : Prop where
  cells : Stands line r.cells
  width : r.cells.length = width
  id : Counts (r.cells.headD []) r.id

theorem rowOn_iff {width : Nat} (number : Nat) {line : Text} {r : Row} :
    RowOn width line r ↔ decodeRow width number line = .ok r := by
  rw [decodeRow_eq_ok_iff, count?_eq_some_iff, eq_comm, ← stands_iff]
  exact ⟨fun h => ⟨h.cells, h.width, h.id⟩, fun h => ⟨h.1, h.2.1, h.2.2⟩⟩

/-- What is wrong with a line that is no row: the number of its cells comes before the id. -/
inductive FaultOn (width number : Nat) (line : Text) : Corruption → Prop where
  | cellCount {cells : List Text} (h : Stands line cells) (hw : cells.length ≠ width) :
      FaultOn width number line (.cellCount number cells.length width)
  | badId {cells : List Text} (h : Stands line cells) (hw : cells.length = width)
      (hid : ∀ n, ¬ Counts (cells.headD []) n) : FaultOn width number line (.badId number)

theorem faultOn_iff {width number : Nat} {line : Text} {what : Corruption} :
    FaultOn width number line what ↔ decodeRow width number line = .error what := by
  unfold decodeRow
  constructor
  · intro h
    cases h with
    | cellCount h hw =>
        rw [stands_iff.mp h]
        exact if_pos hw
    | @badId cells h hw hid =>
        have hnone : count? (cells.headD []) = none :=
          Option.eq_none_iff_forall_not_mem.mpr fun n hn => hid n (count?_eq_some_iff.mp hn)
        rw [stands_iff.mp h]
        dsimp only
        rw [if_neg (not_not.mpr hw), hnone]
  · dsimp only
    have hstands : Stands line (splitOn tab line) := stands_iff.mpr rfl
    intro h
    split at h
    · next hw =>
        cases h
        exact .cellCount hstands hw
    · next hw =>
        split at h
        · cases h
        · next hnone =>
            cases h
            refine .badId hstands (not_not.mp hw) fun n hn => ?_
            rw [count?_eq_some_iff.mpr hn] at hnone
            cases hnone

/-! ### Lines behind a header -/

/-- A line behind a header of `width` columns that can be passed: it is empty, or a row stands on it. -/
def Fits (width : Nat) (line : Text) : Prop := line = [] ∨ ∃ r, RowOn width line r

theorem exists_forall₂_iff {α β : Type} {R : α → β → Prop} {as : List α} :
    (∃ bs, List.Forall₂ R as bs) ↔ ∀ a ∈ as, ∃ b, R a b := by
  induction as with
  | nil => exact ⟨fun _ _ ha => (nomatch ha), fun _ => ⟨[], .nil⟩⟩
  | cons a as ih =>
      rw [List.forall_mem_cons, ← ih]
      constructor
      · rintro ⟨_, _ | ⟨hab, habs⟩⟩
        exact ⟨⟨_, hab⟩, _, habs⟩
      · rintro ⟨⟨b, hb⟩, bs, hbs⟩
        exact ⟨b :: bs, .cons hb hbs⟩

/-- **Rows that are read** are those on the lines that are not empty, one for each. -/
theorem decodeRows_eq_ok_iff {width number : Nat} {lines : List Text} {rows : List Row} :
    decodeRows width number lines = .ok rows ↔
      List.Forall₂ (RowOn width) (lines.filter (· ≠ [])) rows := by
  induction lines generalizing number rows with
  | nil =>
      rw [decodeRows, List.filter_nil, List.forall₂_nil_left_iff, Except.ok.injEq]
      exact eq_comm
  | cons line more ih =>
      rw [decodeRows]
      by_cases hline : line = []
      · rw [if_pos hline, ih, List.filter_cons_of_neg (by simpa using hline)]
      · rw [if_neg hline, List.filter_cons_of_pos (by simpa using hline), List.forall₂_cons_left_iff,
          bind_eq_ok_iff]
        simp only [bind_eq_ok_iff, ih, ← rowOn_iff]
        constructor
        · rintro ⟨row, hrow, rest, hrest, h⟩
          cases h
          exact ⟨row, rest, hrow, hrest, rfl⟩
        · rintro ⟨row, rest, hrow, hrest, rfl⟩
          exact ⟨row, hrow, rest, hrest, rfl⟩

/-- The first line that cannot be passed is the first of all lines, or the first behind one that can. -/
theorem exists_first_cons_iff {width : Nat} {first : Text} {more : List Text}
    (fault : Nat → Text → Prop) :
    (∃ before line after, first :: more = before ++ line :: after ∧ (∀ l ∈ before, Fits width l) ∧
        fault before.length line) ↔
      fault 0 first ∨ Fits width first ∧
        ∃ before line after, more = before ++ line :: after ∧ (∀ l ∈ before, Fits width l) ∧
          fault (before.length + 1) line := by
  constructor
  · rintro ⟨before, line, after, h, hfits, hline⟩
    cases before with
    | nil =>
        cases h
        exact .inl hline
    | cons l before =>
        cases h
        obtain ⟨hfirst, hfits⟩ := List.forall_mem_cons.mp hfits
        exact .inr ⟨hfirst, before, line, after, rfl, hfits, hline⟩
  · rintro (hfirst | ⟨hfirst, before, line, after, rfl, hfits, hline⟩)
    · exact ⟨[], first, more, rfl, fun _ hl => (nomatch hl), hfirst⟩
    · exact ⟨first :: before, line, after, rfl, List.forall_mem_cons.mpr ⟨hfirst, hfits⟩, hline⟩

/-- **A fault that is reported** is on the first line that cannot be passed. -/
theorem decodeRows_eq_error_iff {width number : Nat} {lines : List Text} {what : Corruption} :
    decodeRows width number lines = .error what ↔
      ∃ before line after, lines = before ++ line :: after ∧ (∀ l ∈ before, Fits width l) ∧
        line ≠ [] ∧ FaultOn width (number + before.length) line what := by
  induction lines generalizing number with
  | nil =>
      constructor
      · intro h
        cases h
      · rintro ⟨before, line, after, h, -⟩
        exact absurd h.symm (List.append_ne_nil_of_right_ne_nil before (List.cons_ne_nil line after))
  | cons line more ih =>
      rw [exists_first_cons_iff fun k l => l ≠ [] ∧ FaultOn width (number + k) l what,
        Nat.add_zero, decodeRows]
      have hmore : decodeRows width (number + 1) more = .error what ↔
          ∃ before line after, more = before ++ line :: after ∧ (∀ l ∈ before, Fits width l) ∧
            line ≠ [] ∧ FaultOn width (number + (before.length + 1)) line what := by
        simpa only [Nat.add_assoc, Nat.add_comm 1] using @ih (number + 1)
      rw [← hmore]
      by_cases hline : line = []
      · have hfits : Fits width line := .inl hline
        rw [if_pos hline]
        exact ⟨fun h => .inr ⟨hfits, h⟩, fun h => (h.resolve_left fun hf => hf.1 hline).2⟩
      · have hfits : Fits width line ↔ ∃ r, decodeRow width number line = .ok r := by
          simp only [Fits, hline, false_or, rowOn_iff number]
        have hpush (row : Row) :
            (do let rows ← decodeRows width (number + 1) more; return row :: rows) = .error what ↔
              decodeRows width (number + 1) more = .error what := by
          cases decodeRows width (number + 1) more with
          | error e => exact Iff.rfl
          | ok rows =>
              constructor
              · intro h
                cases h
              · intro h
                cases h
        rw [if_neg hline, faultOn_iff, hfits, bind_eq_error_iff]
        simp only [hpush, exists_and_right, ne_eq, hline, not_false_eq_true, true_and]

/-! ### Tables -/

/-- A text begins with a line of pieces between tabs, its header; the other lines follow. -/
def Headed (contents : Text) (pieces : List Text) (behind : List Text) : Prop :=
  ∃ header, Lined contents (header :: behind) ∧ Stands header pieces

/-- The first piece of a header names the id column. -/
def IdFirst (pieces : List Text) : Prop := sameName (trim (pieces.headD [])) idColumn = true

instance (pieces : List Text) : Decidable (IdFirst pieces) := inferInstanceAs (Decidable (_ = true))

/-- A text holds some table: the first column is the id, and on every line behind the header that is not
empty stands a row. -/
def Shaped (contents : Text) : Prop :=
  ∃ pieces behind, Headed contents pieces behind ∧ IdFirst pieces ∧
    ∀ line ∈ behind, Fits pieces.length line

/-- A text holds a table: the columns are the pieces of the header, trimmed, and the rows are those on the
lines behind it that are not empty, one for each. -/
def Shows (contents : Text) (t : Table) : Prop :=
  ∃ pieces behind, Headed contents pieces behind ∧ IdFirst pieces ∧ t.columns = pieces.map trim ∧
    List.Forall₂ (RowOn pieces.length) (behind.filter (· ≠ [])) t.rows

/-- What is wrong with a text that holds no table: the header, or else the first line behind it that
cannot be passed.  Lines are numbered from 1 behind the header, empty ones included. -/
inductive Faulty (contents : Text) : Corruption → Prop where
  | missingHeader (h : contents = []) : Faulty contents .missingHeader
  | firstColumn {pieces behind : List Text} (h : Headed contents pieces behind)
      (hid : ¬ IdFirst pieces) : Faulty contents .firstColumn
  | line {pieces before after : List Text} {line : Text} {what : Corruption}
      (h : Headed contents pieces (before ++ line :: after)) (hid : IdFirst pieces)
      (hbefore : ∀ l ∈ before, Fits pieces.length l) (hne : line ≠ [])
      (hline : FaultOn pieces.length (1 + before.length) line what) : Faulty contents what

section tables
variable {contents : Text} {pieces behind : List Text} {t : Table} {what : Corruption}

theorem headed_iff : Headed contents pieces behind ↔
    ∃ header, lines contents = header :: behind ∧ splitOn tab header = pieces := by
  simp only [Headed, lined_iff, stands_iff]

/-- Every text but the empty one has a header. -/
theorem eq_nil_or_headed (contents : Text) :
    contents = [] ∨ ∃ pieces behind, Headed contents pieces behind := by
  cases hlines : lines contents with
  | nil =>
      have hnil : Lined contents [] := lined_iff.mpr hlines
      cases hnil
      exact .inl rfl
  | cons header behind => exact .inr ⟨_, behind, headed_iff.mpr ⟨header, hlines, rfl⟩⟩

/-- Reading a text with a header. -/
theorem decode_of_headed (h : Headed contents pieces behind) : decode contents =
    if IdFirst pieces then (decodeRows pieces.length 1 behind).map fun rows => ⟨pieces.map trim, rows⟩
    else .error .firstColumn := by
  obtain ⟨header, hlines, rfl⟩ := headed_iff.mp h
  unfold decode
  rw [hlines]
  dsimp only
  rw [List.length_map, splitOn, List.map_cons, List.headD_cons]
  by_cases hid : IdFirst ((cut tab header).1 :: (cut tab header).2)
  · have hname : sameName (trim (cut tab header).1) idColumn = true := hid
    rw [if_pos hid, hname]
    rfl
  · have hname : sameName (trim (cut tab header).1) idColumn = false := Bool.not_eq_true _ ▸ hid
    rw [if_neg hid, hname]
    rfl

theorem decode_eq_ok_iff : decode contents = .ok t ↔ Shows contents t := by
  constructor
  · intro h
    rcases eq_nil_or_headed contents with rfl | ⟨pieces, behind, hheaded⟩
    · cases h
    · rw [decode_of_headed hheaded] at h
      split at h
      · next hid =>
          obtain ⟨rows, hrows, rfl⟩ := map_eq_ok_iff.mp h
          exact ⟨pieces, behind, hheaded, hid, rfl, decodeRows_eq_ok_iff.mp hrows⟩
      · cases h
  · rintro ⟨pieces, behind, hheaded, hid, hcolumns, hrows⟩
    rw [decode_of_headed hheaded, if_pos hid, decodeRows_eq_ok_iff.mpr hrows, ← hcolumns]
    rfl

theorem decode_eq_error_iff : decode contents = .error what ↔ Faulty contents what := by
  constructor
  · intro h
    rcases eq_nil_or_headed contents with rfl | ⟨pieces, behind, hheaded⟩
    · cases h
      exact .missingHeader rfl
    · rw [decode_of_headed hheaded] at h
      split at h
      · next hid =>
          obtain ⟨before, line, after, rfl, hbefore, hne, hline⟩ :=
            decodeRows_eq_error_iff.mp (map_eq_error_iff.mp h)
          exact .line hheaded hid hbefore hne hline
      · next hid =>
          cases h
          exact .firstColumn hheaded hid
  · intro h
    cases h with
    | missingHeader h =>
        subst h
        rfl
    | firstColumn h hid => rw [decode_of_headed h, if_neg hid]
    | line h hid hbefore hne hline =>
        rw [decode_of_headed h, if_pos hid,
          decodeRows_eq_error_iff.mpr ⟨_, _, _, rfl, hbefore, hne, hline⟩]
        rfl

/-- A table can be read off a text in which every line can be passed. -/
theorem exists_shows_iff : (∃ t, Shows contents t) ↔ Shaped contents := by
  constructor
  · rintro ⟨t, pieces, behind, hheaded, hid, -, hrows⟩
    refine ⟨pieces, behind, hheaded, hid, fun line hl => or_iff_not_imp_left.mpr fun hne => ?_⟩
    exact exists_forall₂_iff.mp ⟨_, hrows⟩ line (List.mem_filter.mpr ⟨hl, by simpa using hne⟩)
  · rintro ⟨pieces, behind, hheaded, hid, hfits⟩
    have hrow : ∀ line ∈ behind.filter (· ≠ []), ∃ r, RowOn pieces.length line r := by
      intro line hl
      obtain ⟨hl, hne⟩ := List.mem_filter.mp hl
      exact (hfits line hl).resolve_left (by simpa using hne)
    obtain ⟨rows, hrows⟩ := exists_forall₂_iff.mpr hrow
    exact ⟨⟨pieces.map trim, rows⟩, pieces, behind, hheaded, hid, rfl, hrows⟩

/-- **The texts that can be read are those that hold a table.**  What is read is that table, and what is
reported of any other text is what is wrong with it. -/
theorem decode_iff_shaped (contents : Text) :
    ((∃ t, decode contents = .ok t) ↔ Shaped contents) ∧
      (∀ t, decode contents = .ok t ↔ Shows contents t) ∧
      ∀ what, decode contents = .error what ↔ Faulty contents what := by
  refine ⟨?_, fun t => decode_eq_ok_iff, fun what => decode_eq_error_iff⟩
  simp only [decode_eq_ok_iff, exists_shows_iff]

/-- The empty lines count, and two cells too many come before the bad id. -/
example : decode "id\tx\r\n\n1\ta\n\nb\tc\td\te\nf\n".toList = .error (.cellCount 4 4 2) := by
  decide

end tables

end Table

end FlatDb
