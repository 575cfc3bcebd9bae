import FlatDb.Proofs.Names
import FlatDb.Proofs.Pieces
import FlatDb.Proofs.Plans

/-! # Tables that were read

A table file need not have been written here.  Its names may stand between blanks, its lines may end
in CR LF, an id may be written with a plus sign or leading zeros, and a cell may hold a carriage
return.

* `Table.Readable` says what every table that was read satisfies, whatever the file holds
  (`Table.readable_of_decode`).
* A readable table is determined by its bytes (`Table.Readable.encode_inj`).
* Writing puts a line feed behind the last cell of each row.  A carriage return at the end of that
  cell belongs to the line end when the file is read again, so it is lost
  (`Table.Readable.decode_encode`).
* `Table.decode_encode_of_decode`: **nothing else is lost** on the way to a file and back. -/

namespace FlatDb

open Text

namespace Text

section pieces
variable {α : Type} [DecidableEq α] {cr sep : α}

theorem dropReturn_append_cons (h : sep ≠ cr) (xs ys : List α) :
    dropReturn cr (xs ++ sep :: ys) = xs ++ sep :: dropReturn cr ys := by
  have hlast : (xs ++ sep :: ys).getLast? = some (ys.getLast?.getD sep) := by
    simp [List.getLast?_append, List.getLast?_cons]
  cases ys with
  | nil =>
      rw [dropReturn_of_ne (by simpa using h)]
      rfl
  | cons y ys =>
      have hne : y :: ys ≠ [] := List.cons_ne_nil y ys
      unfold dropReturn
      rw [hlast, List.getLast?_eq_some_getLast hne, Option.getD_some]
      split
      · rw [List.dropLast_append_of_ne_nil (List.cons_ne_nil _ _), List.dropLast_cons_of_ne_nil hne]
      · rfl

theorem dropReturn_eq_self_iff {line : List α} : dropReturn cr line = line ↔ line.getLast? ≠ some cr := by
  refine ⟨fun h hlast => ?_, dropReturn_of_ne⟩
  have hne : line ≠ [] := by
    rintro rfl
    cases hlast
  have hlen := congrArg List.length h
  rw [dropReturn, if_pos hlast, List.length_dropLast] at hlen
  have := List.length_pos_iff.mpr hne
  omega

/-- A line ended by a line feed falls apart at it. -/
theorem splitOn_flatten {lf : α} {ls : List (List α)} (h : ∀ line ∈ ls, lf ∉ line) :
    splitOn lf (ls.map (· ++ [lf])).flatten = ls ++ [[]] := by
  induction ls with
  | nil => rfl
  | cons line more ih =>
      have e : ((line :: more).map (· ++ [lf])).flatten =
          line ++ lf :: (more.map (· ++ [lf])).flatten := by simp
      rw [e, splitOn_append_sep, splitOn_of_not_mem (h line List.mem_cons_self),
        ih fun l hl => h l (List.mem_cons_of_mem _ hl)]
      rfl

end pieces

/-! ### Blanks and digits -/

/-- There is no white space at either end. -/
structure IsTrimmed (t : Text) : Prop where
  first : ∀ c ∈ t.head?, isBlank c = false
  last : ∀ c ∈ t.getLast?, isBlank c = false

theorem dropWhile_isBlank_eq_self {t : Text} (h : ∀ c ∈ t.head?, isBlank c = false) :
    t.dropWhile isBlank = t := by
  cases t with
  | nil => rfl
  | cons c t => simp [h c rfl]

theorem IsTrimmed.trim_eq {t : Text} (h : IsTrimmed t) : trim t = t := by
  have hlast : t.reverse.dropWhile isBlank = t.reverse :=
    dropWhile_isBlank_eq_self fun c hc => h.last c (List.head?_reverse ▸ hc)
  rw [trim, dropWhile_isBlank_eq_self h.first, trimEnd, hlast, List.reverse_reverse]

theorem IsTrimmed.of_not_blank {t : Text} (h : ∀ c ∈ t, isBlank c = false) : IsTrimmed t :=
  ⟨fun c hc => h c (List.mem_of_head? hc), fun c hc => h c (List.mem_of_getLast? hc)⟩

theorem not_isBlank_of_head?_dropWhile {t : Text} :
    ∀ c ∈ (t.dropWhile isBlank).head?, isBlank c = false := by
  intro c hc
  have hnot := List.head?_dropWhile_not isBlank t
  rw [Option.mem_def.mp hc] at hnot
  simpa using hnot

theorem trimEnd_isPrefix (t : Text) : trimEnd t <+: t := by
  rw [trimEnd, ← List.reverse_suffix, List.reverse_reverse]
  exact List.dropWhile_suffix isBlank

/-- Trimming leaves no white space at either end. -/
theorem isTrimmed_trim (t : Text) : IsTrimmed (trim t) where
  first c hc := by
    obtain ⟨rest, hrest⟩ := trimEnd_isPrefix (t.dropWhile isBlank)
    refine not_isBlank_of_head?_dropWhile (t := t) c ?_
    rw [trim, Option.mem_def] at hc
    rw [← hrest, List.head?_append, hc]
    rfl
  last c hc := by
    rw [trim, trimEnd, List.getLast?_reverse] at hc
    exact not_isBlank_of_head?_dropWhile c hc

/-- What is read as a number is not empty and ends in a digit. -/
theorem getLast?_of_count? {t : Text} {n : Nat} (h : count? t = some n) :
    ∃ c, t.getLast? = some c ∧ c.isDigit = true := by
  obtain ⟨hn, -⟩ := Option.filter_eq_some_iff.mp h
  have hdigits : ∀ {s : Text}, natural? s = some n → ∃ c, s.getLast? = some c ∧ c.isDigit = true := by
    intro s hs
    obtain ⟨hne, hd, -⟩ := natural?_eq_some_iff.mp hs
    exact ⟨_, List.getLast?_eq_some_getLast hne, hd _ (List.getLast_mem hne)⟩
  split at hn
  · next rest =>
      obtain ⟨c, hc, hd⟩ := hdigits hn
      exact ⟨c, by rw [List.getLast?_cons, hc]; rfl, hd⟩
  · exact hdigits hn

end Text

/-! ### What is read -/

namespace Table

theorem decodeRow_eq_ok_iff {width number : Nat} {line : Text} {r : Row} :
    decodeRow width number line = .ok r ↔
      r.cells = splitOn tab line ∧ r.cells.length = width ∧ count? (r.cells.headD []) = some r.id := by
  unfold decodeRow
  dsimp only
  obtain ⟨id, cells⟩ := r
  split
  · next hw =>
      refine ⟨fun h => (nomatch h), ?_⟩
      rintro ⟨rfl, rfl, -⟩
      exact absurd rfl hw
  · next hw =>
      rw [Decidable.not_not] at hw
      split
      · next n hn =>
          simp only [Except.ok.injEq, Row.mk.injEq]
          constructor
          · rintro ⟨rfl, rfl⟩
            exact ⟨rfl, hw, hn⟩
          · rintro ⟨rfl, -, hid⟩
            exact ⟨Option.some.inj (hn.symm.trans hid), rfl⟩
      · next hn =>
          refine ⟨fun h => (nomatch h), ?_⟩
          rintro ⟨rfl, -, hid⟩
          rw [hn] at hid
          cases hid

/-- Every row stands on one of the lines. -/
theorem exists_line_of_mem {width number : Nat} {lines : List Text} {rows : List Row}
    (h : decodeRows width number lines = .ok rows) {r : Row} (hr : r ∈ rows) :
    ∃ line ∈ lines, r.cells = splitOn tab line ∧ r.cells.length = width ∧
      count? (r.cells.headD []) = some r.id := by
  induction lines generalizing number rows with
  | nil =>
      cases h
      cases hr
  | cons line more ih =>
      rw [decodeRows] at h
      split at h
      · obtain ⟨l, hl, hline⟩ := ih h hr
        exact ⟨l, List.mem_cons_of_mem _ hl, hline⟩
      · obtain ⟨row, hrow, h⟩ := bind_eq_ok_iff.mp h
        obtain ⟨rest, hrest, h⟩ := bind_eq_ok_iff.mp h
        cases h
        rcases List.mem_cons.mp hr with rfl | hr
        · exact ⟨line, List.mem_cons_self, decodeRow_eq_ok_iff.mp hrow⟩
        · obtain ⟨l, hl, hline⟩ := ih hrest hr
          exact ⟨l, List.mem_cons_of_mem _ hl, hline⟩

/-- What every table that was read satisfies. -/
structure Readable (t : Table) : Prop where
  idFirst : sameName (t.columns.headD []) idColumn = true
  trimmed : ∀ column ∈ t.columns, IsTrimmed column
  header : ∀ column ∈ t.columns, tab ∉ column ∧ '\n' ∉ column
  width : ∀ r ∈ t.rows, r.cells.length = t.columns.length
  idCell : ∀ r ∈ t.rows, count? (r.cells.headD []) = some r.id
  cells : ∀ r ∈ t.rows, ∀ cell ∈ r.cells, tab ∉ cell ∧ '\n' ∉ cell

theorem Readable.columns_ne_nil {t : Table} (h : t.Readable) : t.columns ≠ [] := by
  intro hn
  have hid := h.idFirst
  rw [hn] at hid
  cases hid

theorem Readable.cells_ne_nil {t : Table} (h : t.Readable) {r : Row} (hr : r ∈ t.rows) :
    r.cells ≠ [] := by
  have hw := h.width r hr
  have := List.length_pos_iff.mpr h.columns_ne_nil
  exact List.length_pos_iff.mp (hw ▸ this)

theorem not_mem_of_mem_splitOn {line : Text} (h : '\n' ∉ line) :
    ∀ cell ∈ splitOn tab line, tab ∉ cell ∧ '\n' ∉ cell :=
  fun _ hm => ⟨fun ht => (mem_of_mem_splitOn hm ht).2 rfl, fun hlf => h (mem_of_mem_splitOn hm hlf).1⟩

/-- **A table that was read is readable**, whatever the file holds. -/
theorem readable_of_decode {contents : Text} {t : Table} (h : decode contents = .ok t) :
    t.Readable := by
  have hl : ∀ line ∈ lines contents, '\n' ∉ line := fun line hm hlf => (mem_of_mem_linesBy hm hlf).2 rfl
  unfold decode at h
  cases hlines : lines contents with
  | nil =>
      rw [hlines] at h
      cases h
  | cons header more =>
      rw [hlines] at h hl
      dsimp only at h
      split at h
      · cases h
      · next hid =>
          obtain ⟨rows, hrows, rfl⟩ := map_eq_ok_iff.mp h
          have hheader := not_mem_of_mem_splitOn (hl header List.mem_cons_self)
          have htrim {column : Text} (hm : column ∈ (splitOn tab header).map trim) :
              IsTrimmed column ∧ tab ∉ column ∧ '\n' ∉ column := by
            obtain ⟨piece, hp, rfl⟩ := List.mem_map.mp hm
            exact ⟨isTrimmed_trim piece, fun ht => (hheader piece hp).1 (mem_of_mem_trim ht),
              fun hlf => (hheader piece hp).2 (mem_of_mem_trim hlf)⟩
          refine ⟨by simpa using hid, fun _ hm => (htrim hm).1, fun _ hm => (htrim hm).2,
            fun r hr => ?_, fun r hr => ?_, fun r hr cell hc => ?_⟩
          · obtain ⟨-, -, -, hw, -⟩ := exists_line_of_mem hrows hr
            exact hw
          · obtain ⟨-, -, -, -, hcount⟩ := exists_line_of_mem hrows hr
            exact hcount
          · obtain ⟨line, hline, hcells, -⟩ := exists_line_of_mem hrows hr
            rw [hcells] at hc
            exact not_mem_of_mem_splitOn (hl line (List.mem_cons_of_mem _ hline)) cell hc

/-! ### Writing what was read -/

/-- Cells without the carriage return at the end of the last one. -/
def dropLastReturn : List Text → List Text
  | [] => []
  | [cell] => [dropReturn '\r' cell]
  | cell :: next :: more => cell :: dropLastReturn (next :: more)

/-- The table without the carriage returns at the ends of its rows. -/
def withoutReturns (t : Table) : Table :=
  { t with rows := t.rows.map fun r => { r with cells := dropLastReturn r.cells } }

theorem dropLastReturn_append (cells : List Text) (last : Text) :
    dropLastReturn (cells ++ [last]) = cells ++ [dropReturn '\r' last] := by
  induction cells with
  | nil => rfl
  | cons cell more ih =>
      cases more with
      | nil => rfl
      | cons next more => exact congrArg (cell :: ·) ih

theorem dropReturn_join (cells : List Text) :
    dropReturn '\r' (Text.join tab cells) = Text.join tab (dropLastReturn cells) := by
  induction cells with
  | nil => rfl
  | cons cell more ih =>
      cases more with
      | nil => rfl
      | cons next more =>
          rw [join_cons_cons, dropReturn_append_cons (by decide), ih, dropLastReturn]
          cases hmore : dropLastReturn (next :: more) with
          | nil => cases more <;> cases hmore
          | cons a l => rfl

theorem length_dropLastReturn (cells : List Text) : (dropLastReturn cells).length = cells.length := by
  rcases List.eq_nil_or_concat cells with rfl | ⟨init, last, rfl⟩
  · rfl
  · simp [dropLastReturn_append]

theorem dropLastReturn_eq_self_iff {cells : List Text} :
    dropLastReturn cells = cells ↔ (cells.getLastD []).getLast? ≠ some '\r' := by
  rcases List.eq_nil_or_concat cells with rfl | ⟨init, last, rfl⟩
  · simp [dropLastReturn]
  · rw [List.concat_eq_append, dropLastReturn_append, List.append_cancel_left_eq,
      List.singleton_inj, dropReturn_eq_self_iff]
    simp

/-- Digits stay: only the last of several cells changes. -/
theorem count?_dropLastReturn {cells : List Text} {id : Nat} (h : count? (cells.headD []) = some id) :
    count? ((dropLastReturn cells).headD []) = some id := by
  cases cells with
  | nil => exact h
  | cons cell more =>
      cases more with
      | cons next more => exact h
      | nil =>
          obtain ⟨c, hc, hd⟩ := getLast?_of_count? h
          have hne : cell.getLast? ≠ some '\r' := by
            rintro hlast
            obtain rfl := Option.some.inj (hlast.symm.trans hc)
            exact absurd hd (by decide)
          rw [dropLastReturn, dropReturn_of_ne hne]
          exact h

theorem mem_dropLastReturn {cells : List Text} {c : Char} :
    ∀ cell ∈ dropLastReturn cells, c ∈ cell → ∃ cell ∈ cells, c ∈ cell := by
  rcases List.eq_nil_or_concat cells with rfl | ⟨init, last, rfl⟩
  · exact fun _ hm => nomatch hm
  · rw [List.concat_eq_append, dropLastReturn_append]
    intro cell hm hc
    rcases List.mem_append.mp hm with hm | hm
    · exact ⟨cell, List.mem_append_left _ hm, hc⟩
    · rw [List.mem_singleton.mp hm, dropReturn] at hc
      refine ⟨last, List.mem_append_right _ (List.mem_singleton_self last), ?_⟩
      split at hc
      · exact List.dropLast_subset _ hc
      · exact hc

theorem decodeRows_join {width number : Nat} {rows : List Row}
    (hw : ∀ r ∈ rows, r.cells.length = width)
    (hid : ∀ r ∈ rows, count? (r.cells.headD []) = some r.id)
    (hc : ∀ r ∈ rows, ∀ cell ∈ r.cells, tab ∉ cell) :
    decodeRows width number (rows.map fun r => Text.join tab r.cells) = .ok rows := by
  induction rows generalizing number with
  | nil => rfl
  | cons r more ih =>
      have hr : r ∈ r :: more := List.mem_cons_self
      obtain ⟨c, hlast, -⟩ := getLast?_of_count? (hid r hr)
      obtain ⟨cell, cells, hcells⟩ : ∃ cell cells, r.cells = cell :: cells := by
        refine List.exists_cons_of_ne_nil fun hn => ?_
        rw [hn] at hlast
        cases hlast
      have hline : Text.join tab r.cells ≠ [] := by
        rw [hcells]
        refine join_ne_nil ?_ cells
        rintro rfl
        rw [hcells] at hlast
        cases hlast
      have hsplit : splitOn tab (Text.join tab r.cells) = r.cells :=
        splitOn_join (hcells ▸ List.cons_ne_nil cell cells) (hc r hr)
      have hrow : decodeRow width number (Text.join tab r.cells) = .ok r :=
        decodeRow_eq_ok_iff.mpr ⟨hsplit.symm, hw r hr, hid r hr⟩
      rw [List.map_cons, decodeRows, if_neg hline, hrow,
        ih (fun s hs => hw s (List.mem_cons_of_mem _ hs)) (fun s hs => hid s (List.mem_cons_of_mem _ hs))
          fun s hs => hc s (List.mem_cons_of_mem _ hs)]
      rfl

theorem encode_eq (t : Table) :
    t.encode = ((t.columns :: t.rows.map Row.cells).map (Text.join tab)
      |>.map (· ++ ['\n'])).flatten := by
  simp only [encode, encodeLine, List.map_cons, List.map_map, List.flatten_cons]
  rfl

namespace Readable

variable {t : Table} (h : t.Readable)
include h

/-- No line that is written for a table holds a line feed. -/
theorem not_mem_line :
    ∀ line ∈ (t.columns :: t.rows.map Row.cells).map (Text.join tab), '\n' ∉ line := by
  intro line hl hlf
  obtain ⟨cells, hm, rfl⟩ := List.mem_map.mp hl
  rcases mem_join hlf with hs | ⟨cell, hc, hcell⟩
  · cases hs
  · rcases List.mem_cons.mp hm with rfl | hm
    · exact (h.header cell hc).2 hcell
    · obtain ⟨r, hr, rfl⟩ := List.mem_map.mp hm
      exact (h.cells r hr cell hc).2 hcell

theorem dropLastReturn_columns : dropLastReturn t.columns = t.columns := by
  rw [dropLastReturn_eq_self_iff]
  intro hlast
  have hm : t.columns.getLastD [] ∈ t.columns := by
    rw [List.getLastD_eq_getLast?, List.getLast?_eq_some_getLast h.columns_ne_nil]
    exact List.getLast_mem h.columns_ne_nil
  exact absurd ((h.trimmed _ hm).last '\r' hlast) (by decide)

/-- The lines of a table that is written: the last cell of each row is the only one that changes. -/
theorem lines_encode : lines t.encode =
    Text.join tab t.columns :: t.rows.map fun r => Text.join tab (dropLastReturn r.cells) := by
  rw [encode_eq, lines, linesBy_flatten_dropReturn h.not_mem_line, List.map_cons, List.map_cons,
    dropReturn_join, h.dropLastReturn_columns]
  simp only [List.map_map]
  exact congrArg _ (List.map_congr_left fun r _ => dropReturn_join r.cells)

/-- **A readable table, written and read again**, loses a carriage return at the end of each row and
nothing else. -/
theorem decode_encode : decode t.encode = .ok t.withoutReturns := by
  have hsplit : splitOn tab (Text.join tab t.columns) = t.columns :=
    splitOn_join h.columns_ne_nil fun column hm => (h.header column hm).1
  have htrim : t.columns.map trim = t.columns := by
    rw [List.map_congr_left fun column hm => (h.trimmed column hm).trim_eq, List.map_id']
  have hrows : decodeRows t.columns.length 1
      (t.withoutReturns.rows.map fun r => Text.join tab r.cells) = .ok t.withoutReturns.rows := by
    refine decodeRows_join (fun r hr => ?_) (fun r hr => ?_) fun r hr cell hc ht => ?_
    all_goals obtain ⟨s, hs, rfl⟩ := List.mem_map.mp hr
    · rw [length_dropLastReturn, h.width s hs]
    · exact count?_dropLastReturn (h.idCell s hs)
    · obtain ⟨cell, hc, ht⟩ := mem_dropLastReturn cell hc ht
      exact (h.cells s hs cell hc).1 ht
  have hmap : (t.withoutReturns.rows.map fun r => Text.join tab r.cells) =
      t.rows.map fun r => Text.join tab (dropLastReturn r.cells) := List.map_map
  unfold decode
  rw [h.lines_encode, ← hmap]
  dsimp only
  rw [hsplit, htrim, h.idFirst, hrows]
  rfl

end Readable

/-- Rows that end in no carriage return are left as they are. -/
theorem withoutReturns_eq_self_iff {t : Table} :
    t.withoutReturns = t ↔ ∀ r ∈ t.rows, (r.cells.getLastD []).getLast? ≠ some '\r' := by
  have hrow (r : Row) : { r with cells := dropLastReturn r.cells } = id r ↔
      (r.cells.getLastD []).getLast? ≠ some '\r' := by
    rw [← dropLastReturn_eq_self_iff]
    exact ⟨congrArg Row.cells, fun hcells => by rw [hcells]; rfl⟩
  have hrows : t.withoutReturns = t ↔ t.withoutReturns.rows = t.rows :=
    ⟨congrArg rows, fun hr => congrArg (Table.mk t.columns) hr⟩
  have hmap : t.withoutReturns.rows = t.rows ↔
      ∀ r ∈ t.rows, { r with cells := dropLastReturn r.cells } = id r := by
    rw [← List.map_inj_left, List.map_id]
    rfl
  rw [hrows, hmap]
  exact forall₂_congr fun r _ => hrow r

namespace Readable

/-- The lines of a table that is written fall apart into its cells. -/
theorem splitOn_lines {t : Table} (h : t.Readable) :
    ((splitOn '\n' t.encode).dropLast).map (splitOn tab) = t.columns :: t.rows.map Row.cells := by
  rw [encode_eq, splitOn_flatten h.not_mem_line, List.dropLast_concat, List.map_map]
  refine (List.map_congr_left fun cells hm => ?_).trans (List.map_id _)
  rcases List.mem_cons.mp hm with rfl | hm
  · exact splitOn_join h.columns_ne_nil fun column hc => (h.header column hc).1
  · obtain ⟨r, hr, rfl⟩ := List.mem_map.mp hm
    exact splitOn_join (h.cells_ne_nil hr) fun cell hc => (h.cells r hr cell hc).1

/-- The id of a row is what its first cell says. -/
theorem rows_eq {t : Table} (h : t.Readable) :
    (t.rows.map Row.cells).map (fun cells => ⟨(count? (cells.headD [])).getD 0, cells⟩) = t.rows := by
  rw [List.map_map]
  refine (List.map_congr_left fun r hr => ?_).trans (List.map_id _)
  rw [Function.comp_apply, h.idCell r hr]
  rfl

/-- A readable table is determined by the text it is written as. -/
theorem encode_inj {t t' : Table} (h : t.Readable) (h' : t'.Readable) (he : t.encode = t'.encode) :
    t = t' := by
  have hcells : t.columns :: t.rows.map Row.cells = t'.columns :: t'.rows.map Row.cells := by
    rw [← h.splitOn_lines, ← h'.splitOn_lines, he]
  obtain ⟨hcolumns, hrows⟩ := List.cons.inj hcells
  have hrows : t.rows = t'.rows := by rw [← h.rows_eq, ← h'.rows_eq, hrows]
  exact congrArg₂ Table.mk hcolumns hrows

end Readable

/-- **Storing a table and reading it back.**  A table that was read from any text is written as a text
that can be read again.  What comes back is the table without the carriage returns at the ends of its
rows: it is the same table, and written once more it has the same bytes, exactly if no row ends in
one. -/
theorem decode_encode_of_decode {contents : Text} {t : Table} (h : decode contents = .ok t) :
    decode t.encode = .ok t.withoutReturns ∧
      (decode t.encode = .ok t ↔
        ∀ r ∈ t.rows, (r.cells.getLastD []).getLast? ≠ some '\r') ∧
      (t.withoutReturns.encode = t.encode ↔
        ∀ r ∈ t.rows, (r.cells.getLastD []).getLast? ≠ some '\r') := by
  have hreadable := readable_of_decode h
  have hdecode := hreadable.decode_encode
  refine ⟨hdecode, ?_, ?_⟩
  · rw [hdecode, Except.ok.injEq, withoutReturns_eq_self_iff]
  · rw [← withoutReturns_eq_self_iff]
    exact ⟨fun he => (readable_of_decode hdecode).encode_inj hreadable he, congrArg encode⟩

/-- A table file in which blanks, empty lines, a plus sign and carriage returns stand in odd places. -/
def strayReturns : Text := "ID \t x\r\n\r\n+07\ta\r\r\n8\t \r".toList

/-- The table read from it. -/
def strayTable : Table where
  columns := ["ID".toList, "x".toList]
  rows := [⟨7, ["+07".toList, "a\r".toList]⟩, ⟨8, ["8".toList, " \r".toList]⟩]

theorem decode_encode_strayReturns :
    decode strayReturns = .ok strayTable ∧
      decode strayTable.encode = .ok strayTable.withoutReturns ∧
      strayTable.withoutReturns.encode ≠ strayTable.encode := by
  have hread : decode strayReturns = .ok strayTable := by decide
  obtain ⟨hdecode, -, hbytes⟩ := decode_encode_of_decode hread
  exact ⟨hread, hdecode, fun he => hbytes.mp he ⟨7, ["+07".toList, "a\r".toList]⟩
    List.mem_cons_self (by decide)⟩

/-- The last line of a file may end in a carriage return alone. -/
theorem decode_encode_ne_lastReturn :
    ∃ t, decode "id\tx\n1\ta\r".toList = .ok t ∧ decode t.encode ≠ .ok t ∧
      decode t.encode = .ok ⟨["id".toList, "x".toList], [⟨1, ["1".toList, "a".toList]⟩]⟩ := by
  refine ⟨⟨["id".toList, "x".toList], [⟨1, ["1".toList, "a\r".toList]⟩]⟩, ?_, ?_, ?_⟩ <;> decide

end Table

end FlatDb
