import FlatDb.Proofs.Readable

/-! # Files that read back

What is written to a file is read back as it was.

* `Table.WellFormed` says what every stored table satisfies: the first column is the id, columns are
  names that differ ignoring case, rows have one cell for each column, the first of which is the
  written id, and cells hold neither tabs nor line breaks.
* `Registry.WellFormed` says the same of counters: lower-case names, one counter for each pair.
* `Table.decode_encode` and `Registry.decode_encode`: **a well-formed table, and well-formed
  counters, written as text and read again, are the same**.
* `Registry.Legible` says which names a counter may have for that, and `Registry.readable_of_decode`
  that counters which were read have no others. -/

namespace FlatDb

open Text

namespace Text

theorem isCell_ofNat (n : Nat) : IsCell (ofNat n) := by
  have h {c : Char} (hc : c.isDigit = false) : c ∉ ofNat n := by
    intro hm
    rw [isDigit_of_mem_ofNat hm] at hc
    cases hc
  exact ⟨h (by decide), h (by decide), h (by decide)⟩

end Text

/-! ### Tables -/

namespace Table

/-- What every stored table satisfies. -/
structure WellFormed (t : Table) : Prop where
  idFirst : t.columns.head? = some idColumn
  names : ∀ column ∈ t.columns, IsName column
  distinct : t.columns.Pairwise fun a b => sameName a b = false
  width : ∀ r ∈ t.rows, r.cells.length = t.columns.length
  idCell : ∀ r ∈ t.rows, r.cells.head? = some (ofNat r.id)
  clean : ∀ r ∈ t.rows, ∀ cell ∈ r.cells, IsCell cell
  small : ∀ r ∈ t.rows, r.id < UInt64.size

/-- A well-formed table is as if it had been read. -/
theorem WellFormed.readable {t : Table} (h : t.WellFormed) : t.Readable where
  idFirst := by
    rw [List.headD_eq_head?_getD, h.idFirst, Option.getD_some]
    exact sameName_refl _
  trimmed column hm := .of_not_blank (h.names column hm).not_blank
  header column hm := ⟨(h.names column hm).isCell.1, (h.names column hm).isCell.2.1⟩
  width := h.width
  idCell r hr := by
    rw [List.headD_eq_head?_getD, h.idCell r hr, Option.getD_some, count?_ofNat (h.small r hr)]
  cells r hr cell hc := ⟨(h.clean r hr cell hc).1, (h.clean r hr cell hc).2.1⟩

/-- **A well-formed table is read back** as it was written. -/
theorem decode_encode {t : Table} (h : t.WellFormed) : decode t.encode = .ok t := by
  have hsame : t.withoutReturns = t := by
    refine withoutReturns_eq_self_iff.mpr fun r hr hlast => ?_
    have hne : r.cells ≠ [] := h.readable.cells_ne_nil hr
    have hm : r.cells.getLastD [] ∈ r.cells := by
      rw [List.getLastD_eq_getLast?, List.getLast?_eq_some_getLast hne]
      exact List.getLast_mem hne
    exact (h.clean r hr _ hm).2.2 (List.mem_of_getLast? hlast)
  rw [h.readable.decode_encode, hsame]

end Table

/-! ### Counters -/

namespace Registry

/-- What stored counters satisfy: lower-case names, one counter for each pair of them. -/
structure WellFormed (r : Registry) : Prop where
  names : ∀ c ∈ r, IsName c.database ∧ IsName c.table
  lower : ∀ c ∈ r, c.database.lowercase = c.database ∧ c.table.lowercase = c.table
  distinct : r.Pairwise fun a b => ¬ (a.database = b.database ∧ a.table = b.table)
  small : ∀ c ∈ r, c.next < UInt64.size

/-- The line of a counter, without its end. -/
def line (c : Counter) : Text := join colon [c.database, c.table, ofNat c.next]

/-- Names that can be told apart again on a line: no separator and no line end in them, and no white
space at the start of the line. -/
structure Legible (database table : Text) : Prop where
  noColon : colon ∉ database ∧ colon ∉ table
  oneLine : '\n' ∉ database ∧ '\n' ∉ table
  start : ∀ c ∈ database.head?, isBlank c = false

instance decidableLegible (database table : Text) : Decidable (Legible database table) :=
  decidable_of_iff ((colon ∉ database ∧ colon ∉ table) ∧ ('\n' ∉ database ∧ '\n' ∉ table) ∧
      database.head?.any isBlank = false)
    ⟨fun h => ⟨h.1, h.2.1, (Option.any_eq_false _ _).mp h.2.2⟩,
      fun h => ⟨h.noColon, h.oneLine, (Option.any_eq_false _ _).mpr h.start⟩⟩

/-- Letters and digits are legible. -/
theorem Legible.of_isAlphanum {database table : Text} (hd : ∀ c ∈ database, c.isAlphanum = true)
    (ht : ∀ c ∈ table, c.isAlphanum = true) : Legible database table := by
  have hnot {t : Text} (h : ∀ c ∈ t, c.isAlphanum = true) {c : Char} (hc : c.isAlphanum = false) :
      c ∉ t := by
    intro hm
    rw [h c hm] at hc
    cases hc
  exact ⟨⟨hnot hd rfl, hnot ht rfl⟩, ⟨hnot hd rfl, hnot ht rfl⟩,
    fun c hc => isBlank_of_isAlphanum (hd c (List.mem_of_head? hc))⟩

/-- What all counters that were read satisfy. -/
structure Readable (r : Registry) : Prop where
  legible : ∀ c ∈ r, Legible c.database c.table
  small : ∀ c ∈ r, c.next < UInt64.size

theorem readable_nil : Readable [] := ⟨fun _ hc => (nomatch hc), fun _ hc => nomatch hc⟩

theorem readable_cons_iff {c : Counter} {r : Registry} :
    Readable (c :: r) ↔ (Legible c.database c.table ∧ c.next < UInt64.size) ∧ r.Readable := by
  refine ⟨fun h => ?_, fun ⟨hc, hr⟩ => ?_⟩
  · obtain ⟨hlegible, hlegibles⟩ := List.forall_mem_cons.mp h.legible
    obtain ⟨hsmall, hsmalls⟩ := List.forall_mem_cons.mp h.small
    exact ⟨⟨hlegible, hsmall⟩, hlegibles, hsmalls⟩
  · exact ⟨List.forall_mem_cons.mpr ⟨hc.1, hr.legible⟩, List.forall_mem_cons.mpr ⟨hc.2, hr.small⟩⟩

theorem WellFormed.readable {r : Registry} (h : r.WellFormed) : r.Readable where
  legible c hc := .of_isAlphanum (h.names c hc).1.2 (h.names c hc).2.2
  small := h.small

section legible
variable {c : Counter} (h : Legible c.database c.table)
include h

theorem not_mem_line : '\n' ∉ line c := by
  intro hm
  rcases mem_join hm with hs | ⟨piece, hp, hc⟩
  · cases hs
  · simp only [List.mem_cons, List.not_mem_nil, or_false] at hp
    rcases hp with rfl | rfl | rfl
    · exact h.oneLine.1 hc
    · exact h.oneLine.2 hc
    · exact absurd (isDigit_of_mem_ofNat hc) (by decide)

/-- A line begins with the name of the database or with a colon, and it ends in a digit. -/
theorem isTrimmed_line : IsTrimmed (line c) := by
  have hline : line c = c.database ++ colon :: (c.table ++ colon :: ofNat c.next) := rfl
  constructor
  · intro a ha
    rw [hline, List.head?_append, Option.mem_def] at ha
    cases hd : c.database.head? with
    | none =>
        rw [hd] at ha
        cases ha
        rfl
    | some first =>
        rw [hd] at ha
        exact h.start a (hd.trans ha)
  · intro a ha
    have hlast := List.getLast?_eq_some_getLast (ofNat_ne_nil c.next)
    have hdigit := isDigit_of_mem_ofNat (List.getLast_mem (ofNat_ne_nil c.next))
    rw [hline, Option.mem_def] at ha
    simp only [List.getLast?_append, List.getLast?_cons, hlast, Option.getD_some,
      Option.some_or, Option.some.injEq] at ha
    refine isBlank_of_isAlphanum ?_
    simp [← ha, Char.isAlphanum, hdigit]

theorem decodeLine_line (hs : c.next < UInt64.size) (number : Nat) :
    decodeLine number (line c) = .ok c := by
  have hsplit : splitOn colon (line c) = [c.database, c.table, ofNat c.next] := by
    refine splitOn_join (by simp) fun piece hp => ?_
    simp only [List.mem_cons, List.not_mem_nil, or_false] at hp
    rcases hp with rfl | rfl | rfl
    · exact h.noColon.1
    · exact h.noColon.2
    · intro hm
      exact absurd (isDigit_of_mem_ofNat hm) (by decide)
  unfold decodeLine
  rw [(isTrimmed_line h).trim_eq, hsplit]
  dsimp only
  rw [count?_ofNat hs]

end legible

theorem allBlank_line (c : Counter) : allBlank (line c) = false :=
  List.all_eq_false.mpr ⟨colon, List.mem_append_right _ List.mem_cons_self, by decide⟩

theorem decodeLines_line {r : Registry} (h : r.Readable) (number : Nat) :
    decodeLines number (r.map line) = .ok r := by
  induction r generalizing number with
  | nil => rfl
  | cons c more ih =>
      obtain ⟨⟨hlegible, hsmall⟩, hmore⟩ := readable_cons_iff.mp h
      rw [List.map_cons, decodeLines, allBlank_line, decodeLine_line hlegible hsmall, ih hmore]
      rfl

/-- **Counters with legible names are read back** as they were written. -/
theorem Readable.decode_encode {r : Registry} (h : r.Readable) : decode r.encode = .ok r := by
  have hlines : lines r.encode = r.map line := by
    have e : r.encode = ((r.map line).map (· ++ ['\n'])).flatten := by
      rw [encode, List.map_map]
      rfl
    rw [e]
    refine lines_flatten fun l hl => ?_
    obtain ⟨c, hc, rfl⟩ := List.mem_map.mp hl
    refine ⟨not_mem_line (h.legible c hc), fun hlast => ?_⟩
    exact absurd ((isTrimmed_line (h.legible c hc)).last _ hlast) (by decide)
  unfold decode
  rw [hlines]
  exact decodeLines_line h 1

/-- **Well-formed counters are read back** as they were written. -/
theorem decode_encode {r : Registry} (h : r.WellFormed) : decode r.encode = .ok r :=
  h.readable.decode_encode

/-! ### Counters that were read -/

/-- The names on a line are legible. -/
theorem legible_of_decodeLine {number : Nat} {line : Text} {c : Counter} (hlf : '\n' ∉ line)
    (h : decodeLine number line = .ok c) :
    Legible c.database c.table ∧ c.next < UInt64.size := by
  unfold decodeLine at h
  split at h
  · next database table next hsplit =>
      split at h
      · next n hn =>
          cases h
          have hpiece {piece : Text} (hp : piece ∈ splitOn colon line.trim) :
              colon ∉ piece ∧ '\n' ∉ piece :=
            ⟨fun hc => (mem_of_mem_splitOn hp hc).2 rfl,
              fun hc => hlf (mem_of_mem_trim (mem_of_mem_splitOn hp hc).1)⟩
          have hd := hpiece (show database ∈ splitOn colon line.trim by simp [hsplit])
          have ht := hpiece (show table ∈ splitOn colon line.trim by simp [hsplit])
          refine ⟨⟨⟨hd.1, ht.1⟩, ⟨hd.2, ht.2⟩, fun c hc => ?_⟩, ?_⟩
          · -- the line begins with the name of the database
            refine (isTrimmed_trim line).first c ?_
            have hjoin := join_splitOn colon line.trim
            rw [hsplit, join_cons_cons] at hjoin
            rw [← hjoin, Option.mem_def, List.head?_append, Option.mem_def.mp hc]
            rfl
          · exact of_decide_eq_true (Option.filter_eq_some_iff.mp hn).2
      · cases h
  · cases h

theorem readable_of_decodeLines {number : Nat} {lines : List Text} {r : Registry}
    (hlf : ∀ line ∈ lines, '\n' ∉ line) (h : decodeLines number lines = .ok r) : r.Readable := by
  induction lines generalizing number r with
  | nil =>
      cases h
      exact readable_nil
  | cons line more ih =>
      have hmore : ∀ l ∈ more, '\n' ∉ l := fun l hl => hlf l (List.mem_cons_of_mem _ hl)
      rw [decodeLines] at h
      split at h
      · exact ih hmore h
      · obtain ⟨c, hc, h⟩ := bind_eq_ok_iff.mp h
        obtain ⟨rest, hrest, h⟩ := bind_eq_ok_iff.mp h
        cases h
        exact readable_cons_iff.mpr
          ⟨legible_of_decodeLine (hlf line List.mem_cons_self) hc, ih hmore hrest⟩

/-- Whatever a file holds, the counters that are read from it would be read back. -/
theorem readable_of_decode {contents : Text} {r : Registry} (h : decode contents = .ok r) :
    r.Readable :=
  readable_of_decodeLines (fun _ hl hlf => (mem_of_mem_linesBy hl hlf).2 rfl) h

end Registry

end FlatDb
