import FlatDb.Proofs.Judging
import FlatDb.Proofs.Listings
import FlatDb.Proofs.Revising
import Mathlib.Data.List.Forall2

/-! # Deleting rows

A `DELETE` picks ids by its condition and takes away every row with such an id.

* `Table.spared` is what is left of a table; `Table.Spares` says of a row that it stays.
* `rows_of_delete`: **what is read back are the rows that are spared, in their order**, whatever wrote
  the file, each with the cells it had unless the last of them ends in CR (`Table.ReadBack`).
  Rows that share an id go together, so these are the rows of which the condition is false
  only if no id is used twice (`rows_of_delete_provisos`).
* `spared_spared`: sparing by one condition and then by another is sparing by either.  On disks that
  runs reach, **deletions can therefore change places and be put together** (`diskAfter_delete_delete`). -/

namespace FlatDb

open Text

/-! ### Tables -/

namespace Table

variable {t : Table} {c c₁ c₂ : Condition}

/-- No row with the id of this one satisfies the condition. -/
def Spares (t : Table) (c : Condition) (r : Row) : Prop :=
  ∀ s ∈ t.rows, s.id = r.id → c.holds t.columns s.cells = .ok false

instance (t : Table) (c : Condition) (r : Row) : Decidable (t.Spares c r) :=
  inferInstanceAs (Decidable (∀ s ∈ t.rows, s.id = r.id → c.holds t.columns s.cells = .ok false))

/-- The table without the rows that a condition picks. -/
def spared (t : Table) (c : Condition) : Table :=
  { t with rows := t.rows.filter fun r => r.id ∉ t.picked c }

/-- A deletion succeeds exactly if its condition suits the header. -/
theorem delete_eq_ok_iff {result : Option Table} :
    t.delete c = .ok result ↔
      c.Suits t.columns ∧ result = if t.picked c = [] then none else some (t.spared c) := by
  unfold delete
  rw [bind_eq_ok_iff]
  constructor
  · rintro ⟨ids, hids, h⟩
    obtain ⟨hs, rfl⟩ := matchingIds_eq_ok_iff.mp hids
    refine ⟨hs, ?_⟩
    split at h <;> next hnil =>
      cases h
      simp [hnil, spared]
  · rintro ⟨hs, rfl⟩
    refine ⟨t.picked c, matchingIds_eq_ok_iff.mpr ⟨hs, rfl⟩, ?_⟩
    split <;> rfl

theorem delete_of_suits (hs : c.Suits t.columns) :
    t.delete c = .ok (if t.picked c = [] then none else some (t.spared c)) :=
  delete_eq_ok_iff.mpr ⟨hs, rfl⟩

theorem not_mem_picked_iff (hs : c.Suits t.columns) {r : Row} : r.id ∉ t.picked c ↔ t.Spares c r := by
  have hjudge (s : Row) : c.holds t.columns s.cells = .ok false ↔
      c.meaning t.columns s.cells ≠ true := by
    simp [Condition.holds_eq_meaning hs]
  simp only [mem_picked_iff, Spares, hjudge]
  constructor
  · exact fun h s hm hid hmeaning => h ⟨s, hm, hmeaning, hid⟩
  · exact fun h ⟨s, hm, hmeaning, hid⟩ => h s hm hid hmeaning

theorem spared_eq (hs : c.Suits t.columns) :
    t.spared c = { t with rows := t.rows.filter fun r => t.Spares c r } := by
  simp [spared, not_mem_picked_iff hs]

theorem spared_of_picked_eq_nil (h : t.picked c = []) : t.spared c = t := by simp [spared, h]

/-- Where no id is used twice, the rows that are spared are those of which the condition is false. -/
theorem spares_iff_of_nodup (hs : c.Suits t.columns) (hn : (t.rows.map Row.id).Nodup) {r : Row}
    (hr : r ∈ t.rows) : t.Spares c r ↔ c.holds t.columns r.cells = .ok false := by
  rw [← not_mem_picked_iff hs, mem_picked_iff_of_nodup hn hr, Condition.holds_eq_meaning hs]
  simp

/-- A condition that suits the header is true or false of each row. -/
theorem length_filter_add (hs : c.Suits t.columns) :
    (t.rows.filter fun r => c.holds t.columns r.cells = .ok false).length +
      (t.rows.filter fun r => c.holds t.columns r.cells = .ok true).length = t.rows.length := by
  have htrue : (t.rows.filter fun r => c.holds t.columns r.cells = .ok true) =
      t.rows.filter fun r => !decide (c.holds t.columns r.cells = .ok false) := by
    refine List.filter_congr fun r _ => ?_
    rw [Condition.holds_eq_meaning hs]
    cases c.meaning t.columns r.cells <;> decide
  rw [htrue]
  exact (List.length_eq_length_filter_add _).symm

/-! ### Two deletions -/

theorem mem_picked_either_iff {id : Nat} :
    id ∈ t.picked (.either c₁ c₂) ↔ id ∈ t.picked c₁ ∨ id ∈ t.picked c₂ := by
  simp only [mem_picked_iff, Condition.meaning, Bool.or_eq_true]
  constructor
  · rintro ⟨r, hr, h | h, hid⟩
    · exact .inl ⟨r, hr, h, hid⟩
    · exact .inr ⟨r, hr, h, hid⟩
  · rintro (⟨r, hr, h, hid⟩ | ⟨r, hr, h, hid⟩)
    · exact ⟨r, hr, .inl h, hid⟩
    · exact ⟨r, hr, .inr h, hid⟩

/-- After a deletion a condition picks what it picked before, as far as it is left. -/
theorem mem_picked_spared_iff {id : Nat} :
    id ∈ (t.spared c₁).picked c₂ ↔ id ∈ t.picked c₂ ∧ id ∉ t.picked c₁ := by
  simp only [mem_picked_iff (c := c₂), spared, List.mem_filter, decide_eq_true_eq]
  constructor
  · rintro ⟨r, ⟨hr, hleft⟩, h, rfl⟩
    exact ⟨⟨r, hr, h, rfl⟩, hleft⟩
  · rintro ⟨⟨r, hr, h, rfl⟩, hleft⟩
    exact ⟨r, ⟨hr, hleft⟩, h, rfl⟩

/-- **Sparing by one condition and then by another** is sparing by either. -/
theorem spared_spared (t : Table) (c₁ c₂ : Condition) :
    (t.spared c₁).spared c₂ = t.spared (.either c₁ c₂) := by
  have hrows : (t.spared c₁).rows.filter (fun r => r.id ∉ (t.spared c₁).picked c₂) =
      t.rows.filter fun r => r.id ∉ t.picked (.either c₁ c₂) := by
    change (t.rows.filter _).filter _ = _
    rw [List.filter_filter]
    refine List.filter_congr fun r _ => ?_
    simp only [mem_picked_spared_iff, mem_picked_either_iff, ← Bool.decide_and, decide_eq_decide]
    tauto
  exact congrArg (Table.mk t.columns) hrows

theorem picked_either_eq_nil_iff :
    t.picked (.either c₁ c₂) = [] ↔ t.picked c₁ = [] ∧ t.picked c₂ = [] := by
  simp only [List.eq_nil_iff_forall_not_mem, mem_picked_either_iff, not_or, forall_and]

/-- It makes no difference which side of a connective comes first. -/
theorem spared_either_comm (t : Table) (c₁ c₂ : Condition) :
    t.spared (.either c₁ c₂) = t.spared (.either c₂ c₁) := by
  simp only [spared, mem_picked_either_iff, or_comm]

theorem Readable.spared (h : t.Readable) (c : Condition) : (t.spared c).Readable := by
  have hsub : (t.spared c).rows.Sublist t.rows := List.filter_sublist
  exact ⟨h.idFirst, h.trimmed, h.header, fun r hr => h.width r (hsub.subset hr),
    fun r hr => h.idCell r (hsub.subset hr), fun r hr => h.cells r (hsub.subset hr)⟩

/-! ### Rows that are written -/

/-- A row that was written and is read again has its id, and its cells as well, unless the last one ended in
a carriage return. -/
structure ReadBack (r r' : Row) : Prop where
  id : r'.id = r.id
  cells : (r.cells.getLastD []).getLast? ≠ some '\r' → r'.cells = r.cells

theorem ReadBack.refl (r : Row) : ReadBack r r := ⟨rfl, fun _ => rfl⟩

theorem forall₂_readBack (t : Table) : List.Forall₂ ReadBack t.rows t.withoutReturns.rows := by
  rw [withoutReturns, List.forall₂_map_right_iff, List.forall₂_same]
  exact fun r _ => ⟨rfl, dropLastReturn_eq_self_iff.mpr⟩

end Table

/-! ### Any disk -/

/-- A table that was read is readable. -/
theorem Disk.readable_of_readTable {d : Disk} {p : Path} {t : Table} (h : d.readTable p = .ok t) :
    t.Readable := by
  unfold readTable at h
  split at h
  · cases h
  · split at h
    · next hdecode =>
        cases h
        exact Table.readable_of_decode hdecode
    · cases h

section delete
variable {e : Engine} {session : Session} {d : Disk} {name : Text} {c : Condition}
  {stored : Stored Path} {t : Table}

/-- A deletion from a table that can be opened. -/
theorem Engine.run_delete (ho : e.openTable session d name = .ok (stored, t)) :
    e.run session d (.delete name c) = d.revise session stored.key (t.delete c) :=
  run_of_openTable (f := fun t => t.delete c) rfl ho

theorem suits_of_run_delete {result : Option ResultSet} (ho : e.openTable session d name = .ok (stored, t))
    (hok : (e.run session d (.delete name c)).result = .ok result) : c.Suits t.columns := by
  rw [Engine.run_delete ho] at hok
  cases hdelete : t.delete c with
  | error why =>
      rw [hdelete] at hok
      cases hok
  | ok result => exact (Table.delete_eq_ok_iff.mp hdelete).1

/-- After a deletion that succeeds the file holds what is spared, as far as that survives being written, if
rows were taken away. -/
theorem readTable_of_delete {result : Option ResultSet} (ho : e.openTable session d name = .ok (stored, t))
    (hok : (e.run session d (.delete name c)).result = .ok result) :
    ∃ t', (e.run session d (.delete name c)).disk.readTable stored.key = .ok t' ∧
      t'.columns = t.columns ∧ List.Forall₂ Table.ReadBack (t.spared c).rows t'.rows ∧
      ((t.picked c ≠ [] → ∀ r ∈ (t.spared c).rows, (r.cells.getLastD []).getLast? ≠ some '\r') →
        t' = t.spared c) := by
  have hsuits := suits_of_run_delete ho hok
  have hread := Engine.readTable_of_openTable ho
  rw [Engine.run_delete ho, Table.delete_of_suits hsuits] at hok ⊢
  by_cases hnil : t.picked c = []
  · rw [if_pos hnil, Table.spared_of_picked_eq_nil hnil]
    exact ⟨t, hread, rfl, List.forall₂_same.mpr fun r _ => .refl r, fun _ => rfl⟩
  · rw [if_neg hnil] at hok ⊢
    rcases (Disk.isFile_of_openTable ho).storeTable_cases with hfull | hroom
    · obtain ⟨why, hs⟩ := hfull (t.spared c)
      rw [Disk.revise_of_error hs] at hok
      cases hok
    · obtain ⟨d', hs, hagain, -⟩ := hroom (t.spared c)
      rw [Disk.revise_of_ok hs]
      have hreadable := (Disk.readable_of_readTable hread).spared c
      refine ⟨_, hagain _ hreadable.decode_encode, rfl, Table.forall₂_readBack _, fun hend => ?_⟩
      exact Table.withoutReturns_eq_self_iff.mpr (hend hnil)

/-- **What is left after a deletion that succeeds**, in whatever file.  The rows that are spared are read
back, one for one and in their order, with their ids; they have their cells, too, as long as none of them
ends in a carriage return or nothing is taken away.  If no id is used twice, these are the rows of which the
condition is false, and they are as many fewer as the condition is true of. -/
theorem rows_of_delete {result : Option ResultSet}
    (ho : e.openTable session d name = .ok (stored, t))
    (hok : (e.run session d (.delete name c)).result = .ok result) :
    ∃ t', (e.run session d (.delete name c)).disk.readTable stored.key = .ok t' ∧
      t'.columns = t.columns ∧
      List.Forall₂ Table.ReadBack (t.rows.filter fun r => t.Spares c r) t'.rows ∧
      (((∃ r ∈ t.rows, c.holds t.columns r.cells = .ok true) →
          ∀ r ∈ t.rows, t.Spares c r → (r.cells.getLastD []).getLast? ≠ some '\r') →
        t'.rows = t.rows.filter fun r => t.Spares c r) ∧
      ((t.rows.map Row.id).Nodup →
        (t.rows.filter fun r => t.Spares c r) =
          (t.rows.filter fun r => c.holds t.columns r.cells = .ok false) ∧
        t'.rows.length + (t.rows.filter fun r => c.holds t.columns r.cells = .ok true).length =
          t.rows.length) := by
  have hsuits := suits_of_run_delete ho hok
  have hrows : (t.spared c).rows = t.rows.filter fun r => t.Spares c r := by
    rw [Table.spared_eq hsuits]
  obtain ⟨t', hread, hcolumns, hback, hsame⟩ := readTable_of_delete ho hok
  rw [hrows] at hback hsame
  refine ⟨t', hread, hcolumns, hback, fun hend => ?_, fun hn => ?_⟩
  · refine (congrArg Table.rows (hsame fun hpicked r hr => ?_)).trans hrows
    obtain ⟨hr, hspares⟩ := List.mem_filter.mp hr
    obtain ⟨id, hid⟩ := List.exists_mem_of_ne_nil _ hpicked
    obtain ⟨s, hs, hmeaning, -⟩ := Table.mem_picked_iff.mp hid
    have htrue : c.holds t.columns s.cells = .ok true := by rw [Condition.holds_eq_meaning hsuits, hmeaning]
    exact hend ⟨s, hs, htrue⟩ r hr (of_decide_eq_true hspares)
  · have hfalse : (t.rows.filter fun r => t.Spares c r) =
        t.rows.filter fun r => c.holds t.columns r.cells = .ok false := by
      refine List.filter_congr fun r hr => ?_
      rw [decide_eq_decide]
      exact Table.spares_iff_of_nodup hsuits hn hr
    refine ⟨hfalse, ?_⟩
    rw [← hback.length_eq, hfalse]
    exact Table.length_filter_add hsuits

end delete

/-- A file that was written elsewhere: line ends of two kinds, an empty line, and an id with a sign and
zeros. -/
def foreignTable : Text := "ID\t x\r\n\n+07\ta\r\n3\tb\n2\ta\n".toList

/-- A disk with that table. -/
def foreignDisk : Disk :=
  .directory [("data".toList, .directory [("d".toList, .directory
    [("t.TAB".toList, .file foreignTable.toBytes)])])]

/-- The engine below `data` that lists directories as they are kept. -/
def keptEngine : Engine := .below "data".toList fun _ => .kept

/-- Asks whether the column `x` holds `a`. -/
def isA : Condition := .compare "X".toList .equal (.quoted "a".toList)

theorem rows_of_delete_foreignTable :
    ∃ t stored t',
      keptEngine.openTable ⟨some "d".toList⟩ foreignDisk "t".toList = .ok (stored, t) ∧
        (t.rows.map Row.id).Nodup ∧
        (keptEngine.run ⟨some "d".toList⟩ foreignDisk (.delete "t".toList isA)).disk.readTable
          stored.key = .ok t' ∧
        t'.rows = t.rows.filter (fun r => isA.holds t.columns r.cells = .ok false) ∧
        t'.rows.length + 2 = t.rows.length := by
  let t : Table := ⟨["ID".toList, "x".toList],
    [⟨7, ["+07".toList, "a".toList]⟩, ⟨3, ["3".toList, "b".toList]⟩, ⟨2, ["2".toList, "a".toList]⟩]⟩
  have ho : keptEngine.openTable ⟨some "d".toList⟩ foreignDisk "t".toList =
      .ok (⟨"t".toList, ⟨"data".toList, ["d".toList, "t.TAB".toList]⟩⟩, t) := by
    decide +kernel
  have hok : (keptEngine.run ⟨some "d".toList⟩ foreignDisk (.delete "t".toList isA)).result =
      .ok none := by
    decide +kernel
  have hn : (t.rows.map Row.id).Nodup := by decide
  obtain ⟨t', hread, -, -, hcells, hids⟩ := rows_of_delete ho hok
  obtain ⟨hfalse, hlength⟩ := hids hn
  have hrows := (hcells (by decide +kernel)).trans hfalse
  have htwo : (t.rows.filter fun r => isA.holds t.columns r.cells = .ok true).length = 2 := by
    decide +kernel
  rw [htwo] at hlength
  exact ⟨t, _, t', ho, hn, hread, hrows, hlength⟩

/-- A disk with one table of these contents. -/
def diskOf (contents : Text) : Disk :=
  .directory [("data".toList, .directory [("d".toList, .directory
    [("t.tab".toList, .file contents.toBytes)])])]

/-- Two rows have the same id. -/
def sharedDisk : Disk := diskOf "id\tx\n1\ta\n1\tb\n".toList

/-- A line ends in two carriage returns, of which one belongs to the cell. -/
def returnDisk : Disk := diskOf "id\tx\n1\tb\r\r\n2\ta\n".toList

/-- Neither proviso can be left out.  A row goes together with one of the same id, though the condition is
false of it; and a cell loses the carriage return at its end when the file is written. -/
theorem rows_of_delete_provisos :
    (∃ t stored t',
      keptEngine.openTable ⟨some "d".toList⟩ sharedDisk "t".toList = .ok (stored, t) ∧
        (keptEngine.run ⟨some "d".toList⟩ sharedDisk (.delete "t".toList isA)).result = .ok none ∧
        (keptEngine.run ⟨some "d".toList⟩ sharedDisk (.delete "t".toList isA)).disk.readTable
          stored.key = .ok t' ∧
        t'.rows = [] ∧
        t.rows.filter (fun r => isA.holds t.columns r.cells = .ok false) =
          [⟨1, ["1".toList, "b".toList]⟩]) ∧
    ∃ t stored t',
      keptEngine.openTable ⟨some "d".toList⟩ returnDisk "t".toList = .ok (stored, t) ∧
        (keptEngine.run ⟨some "d".toList⟩ returnDisk (.delete "t".toList isA)).result = .ok none ∧
        (keptEngine.run ⟨some "d".toList⟩ returnDisk (.delete "t".toList isA)).disk.readTable
          stored.key = .ok t' ∧
        t'.rows = [⟨1, ["1".toList, "b".toList]⟩] ∧
        t.rows.filter (fun r => isA.holds t.columns r.cells = .ok false) =
          [⟨1, ["1".toList, "b\r".toList]⟩] := by
  let stored : Stored Path := ⟨"t".toList, ⟨"data".toList, ["d".toList, "t.tab".toList]⟩⟩
  let header : List Text := ["id".toList, "x".toList]
  constructor
  · refine ⟨⟨header, [⟨1, ["1".toList, "a".toList]⟩, ⟨1, ["1".toList, "b".toList]⟩]⟩, stored,
      ⟨header, []⟩, ?_⟩
    decide +kernel
  · refine ⟨⟨header, [⟨1, ["1".toList, "b\r".toList]⟩, ⟨2, ["2".toList, "a".toList]⟩]⟩, stored,
      ⟨header, [⟨1, ["1".toList, "b".toList]⟩]⟩, ?_⟩
    decide +kernel

/-! ### Two deletions on a disk -/

/-- The disk after commands of one session, each with listings of its own. -/
def Engine.diskAfter (root : Text) : Session → Disk → List ((Nat → Listing) × Command) → Disk
  | _, d, [] => d
  | session, d, (listings, c) :: more =>
    let o := (below root listings).run session d c
    diskAfter root o.session o.disk more

/-- The disk after rows of a table in a file were taken away. -/
def Disk.sweep (d : Disk) (p : Path) (t : Table) (c : Condition) : Disk :=
  if t.picked c = [] then d else (d.storeTable p (t.spared c)).2

section sweep
variable {e : Engine} {session : Session} {d : Disk} {p : Path} {name : Text}
  {c c₁ c₂ : Condition} {stored : Stored Path} {t : Table}

theorem Engine.disk_run_delete (ho : e.openTable session d name = .ok (stored, t))
    (hs : c.Suits t.columns) :
    (e.run session d (.delete name c)).session = session ∧
      (e.run session d (.delete name c)).disk = d.sweep stored.key t c := by
  rw [Engine.run_delete ho]
  refine ⟨Disk.session_revise _, ?_⟩
  rw [Table.delete_of_suits hs, Disk.sweep]
  split
  · rfl
  · dsimp only [Disk.revise]
    split <;> next hstore => rw [hstore]

theorem Disk.sweep_of_picked_eq_nil (h : t.picked c = []) : d.sweep p t c = d := if_pos h

theorem Disk.sweep_of_full (h : ∀ t, ∃ e, d.storeTable p t = (.error e, d)) : d.sweep p t c = d := by
  obtain ⟨why, hs⟩ := h (t.spared c)
  rw [sweep, hs, ite_self]

/-- After a sweep that found nothing, or that was stored, a second one comes to a sweep by either
condition. -/
theorem Disk.sweep_sweep
    (h : t.picked c₁ ≠ [] → ∃ d', d.storeTable p (t.spared c₁) = (.ok (), d') ∧
      ∀ t', d'.storeTable p t' = d.storeTable p t') :
    (d.sweep p t c₁).sweep p (t.spared c₁) c₂ = d.sweep p t (.either c₁ c₂) := by
  by_cases h₁ : t.picked c₁ = []
  · rw [sweep_of_picked_eq_nil h₁, Table.spared_of_picked_eq_nil h₁, sweep, sweep]
    simp only [Table.picked_either_eq_nil_iff, h₁, true_and, ← Table.spared_spared,
      Table.spared_of_picked_eq_nil h₁]
  · obtain ⟨d', hs, hagain⟩ := h h₁
    have heither : t.picked (.either c₁ c₂) ≠ [] := fun h => h₁ (Table.picked_either_eq_nil_iff.mp h).1
    have hswept : d.sweep p t c₁ = d' := by rw [sweep, if_neg h₁, hs]
    rw [hswept, sweep, sweep, if_neg heither, ← Table.spared_spared]
    split
    · next h₂ => rw [Table.spared_of_picked_eq_nil h₂, hs]
    · rw [hagain]

theorem Disk.sweep_either_comm (d : Disk) (p : Path) (t : Table) (c₁ c₂ : Condition) :
    d.sweep p t (.either c₁ c₂) = d.sweep p t (.either c₂ c₁) := by
  simp only [sweep, Table.picked_either_eq_nil_iff, and_comm, Table.spared_either_comm t c₁ c₂]

variable {root : Text} {listings listings' listings₁ listings₂ : Nat → Listing}

/-- A table of a mirror that can be stored is opened without the rows that a sweep took away. -/
theorem Disk.Mirrored.openTable_sweep (h : d.Mirrored root)
    (ho : (Engine.below root listings).openTable session d name = .ok (stored, t))
    (hs : c.Suits t.columns)
    (hroom : t.picked c ≠ [] → ∃ d', d.storeTable stored.key (t.spared c) = (.ok (), d')) :
    (Engine.below root listings').openTable session (d.sweep stored.key t c) name =
      .ok (stored, t.spared c) := by
  rw [h.openTable_eq listings listings'] at ho
  by_cases hpicked : t.picked c = []
  · rw [sweep_of_picked_eq_nil hpicked, Table.spared_of_picked_eq_nil hpicked]
    exact ho
  · obtain ⟨d', hstore⟩ := hroom hpicked
    have hdelete : t.delete c = .ok (some (t.spared c)) := by
      rw [Table.delete_of_suits hs, if_neg hpicked]
    have hwf := (Table.wellFormed_of_delete (h.wellFormed ho) hdelete).1
    rw [sweep, if_neg hpicked, hstore]
    exact (h.of_storeTable ho hwf hstore).2 listings'

/-- Two deletions from a table of a mirror leave what one by either condition leaves. -/
theorem Disk.Mirrored.diskAfter_eq_sweep (h : d.Mirrored root)
    (ho : (Engine.below root listings).openTable session d name = .ok (stored, t))
    (h₁ : c₁.Suits t.columns) (h₂ : c₂.Suits t.columns) :
    Engine.diskAfter root session d [(listings₁, .delete name c₁), (listings₂, .delete name c₂)] =
      d.sweep stored.key t (.either c₁ c₂) := by
  have ho₁ := (h.openTable_eq listings₁ listings session name).trans ho
  have ho₂ := (h.openTable_eq listings₂ listings session name).trans ho
  obtain ⟨hsession, hdisk⟩ := Engine.disk_run_delete ho₁ h₁
  simp only [Engine.diskAfter, hsession, hdisk]
  rcases (isFile_of_openTable ho).storeTable_cases with hfull | hroom
  · rw [sweep_of_full hfull, sweep_of_full hfull, (Engine.disk_run_delete ho₂ h₂).2,
      sweep_of_full hfull]
  · obtain ⟨d', hstore, -, hagain⟩ := hroom (t.spared c₁)
    have hopen : (Engine.below root listings₂).openTable session (d.sweep stored.key t c₁) name =
        .ok (stored, t.spared c₁) := h.openTable_sweep ho h₁ fun _ => ⟨d', hstore⟩
    rw [(Engine.disk_run_delete hopen h₂).2]
    exact sweep_sweep fun _ => ⟨d', hstore, hagain⟩

/-- **Deletions can change places and be put together.**  In every state that a run from an empty root
reaches, deleting by one condition and then by another leaves the same disk as the other way round and as
deleting by either. -/
theorem diskAfter_delete_delete (hd : d.list (.ofText root) = .ok []) (events : List Event)
    (ho : (Engine.below root listings).openTable session ((World.start d).after root events).store name =
      .ok (stored, t))
    (h₁ : c₁.Suits t.columns) (h₂ : c₂.Suits t.columns) (l₁ l₂ l₃ l₄ l₅ : Nat → Listing) :
    Engine.diskAfter root session ((World.start d).after root events).store
        [(l₁, .delete name c₁), (l₂, .delete name c₂)] =
      Engine.diskAfter root session ((World.start d).after root events).store
        [(l₃, .delete name c₂), (l₄, .delete name c₁)] ∧
    Engine.diskAfter root session ((World.start d).after root events).store
        [(l₁, .delete name c₁), (l₂, .delete name c₂)] =
      Engine.diskAfter root session ((World.start d).after root events).store
        [(l₅, .delete name (.either c₁ c₂))] := by
  have hm := Disk.Mirrored.after hd events
  rw [hm.diskAfter_eq_sweep ho h₁ h₂, hm.diskAfter_eq_sweep ho h₂ h₁]
  refine ⟨Disk.sweep_either_comm _ _ _ _ _, ?_⟩
  have ho₅ := (hm.openTable_eq l₅ listings session name).trans ho
  exact (Engine.disk_run_delete ho₅ (Condition.suits_either_iff.mpr ⟨h₁, h₂⟩)).2.symm

end sweep

/-- A run that fills a table. -/
def fillingRun : List Event :=
  [.call (.of 0 "CREATE DATABASE shop;"), .call (.of 0 "USE shop;"), .call (.of 0 "CREATE TABLE t (x, n);"),
    .call (.of 0 "INSERT INTO t VALUES('a', 1);"), .call (.of 0 "INSERT INTO t VALUES('b', 2);"),
    .call (.of 0 "INSERT INTO t VALUES('b', 10);")]

/-- The world after that run. -/
def filledWorld : World Disk := (World.start exampleDisk).after "data".toList fillingRun

/-- Asks whether the column `n` is above 2. -/
def isLarge : Condition := .compare "n".toList .greater (.number "2".toList)

/-- The table in that world. -/
def filledTable : Table :=
  ⟨["id".toList, "x".toList, "n".toList],
    [⟨1, ["1".toList, "a".toList, "1".toList]⟩, ⟨2, ["2".toList, "b".toList, "2".toList]⟩,
      ⟨3, ["3".toList, "b".toList, "10".toList]⟩]⟩

/-- Where it is. -/
def filledStored : Stored Path := ⟨"t".toList, ⟨"data".toList, ["shop".toList, "t.tab".toList]⟩⟩

theorem openTable_filledWorld {name : Text} (hn : sameName "t".toList name = true) :
    keptEngine.openTable ⟨some "shop".toList⟩ filledWorld.store name = .ok (filledStored, filledTable) := by
  have hopen : keptEngine.openTable ⟨some "shop".toList⟩ filledWorld.store "t".toList =
      .ok (filledStored, filledTable) := by decide +kernel
  have hempty : exampleDisk.list (.ofText "data".toList) = .ok [] := rfl
  exact (Disk.Mirrored.after hempty fillingRun).openTable_of_sameName hopen hn

theorem diskAfter_delete_delete_fillingRun :
    ∃ stored t,
      keptEngine.openTable ⟨some "shop".toList⟩ filledWorld.store "T".toList = .ok (stored, t) ∧
        isA.Suits t.columns ∧ isLarge.Suits t.columns ∧
        Engine.diskAfter "data".toList ⟨some "shop".toList⟩ filledWorld.store
            [(fun _ => .kept, .delete "T".toList isA), (fun _ => .backwards, .delete "T".toList isLarge)] =
          Engine.diskAfter "data".toList ⟨some "shop".toList⟩ filledWorld.store
            [(fun _ => .kept, .delete "T".toList (.either isA isLarge))] ∧
        (Engine.diskAfter "data".toList ⟨some "shop".toList⟩ filledWorld.store
            [(fun _ => .kept, .delete "T".toList (.either isA isLarge))]).look
            ["data".toList, "shop".toList, "t.tab".toList] =
          some (some (Text.toBytes "id\tx\tn\n2\tb\t2\n".toList)) := by
  have ho := openTable_filledWorld (by decide : sameName "t".toList "T".toList = true)
  have h₁ : isA.Suits filledTable.columns := by decide
  have h₂ : isLarge.Suits filledTable.columns := by decide
  have hempty : exampleDisk.list (.ofText "data".toList) = .ok [] := rfl
  refine ⟨_, filledTable, ho, h₁, h₂, (diskAfter_delete_delete hempty fillingRun ho h₁ h₂ _ _
    (fun _ => .kept) (fun _ => .kept) _).2, ?_⟩
  decide +kernel

end FlatDb
