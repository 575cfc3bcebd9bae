import FlatDb.Proofs.Mirror

/-! # Changes in step

A change of a memory and the same change of a disk that mirrors it.

* `Mirrors.make`: **a sound change fails and leaves the disk as it was, or the disk mirrors the
  changed memory afterwards**.
* `Mirrors.stages_take` follows the changes of one command, cut off anywhere. -/

namespace FlatDb

open Text Node

namespace Memory

open Entries

variable {m : Memory} {root : Text} {place : Place} {d₀ d : Disk}

/-! ### What fits -/

theorem Fits.setTables (h : m.Fits root) {name : Text} {ts : List (Text × Table)}
    (hd : (Key.path root (.database name)).fault? = none ∧ name.size ≤ maxNameSize)
    (ht : ∀ x ∈ ts,
      (Key.path root (.table name x.1)).fault? = none ∧ (Path.fileOf x.1).size ≤ maxNameSize) :
    (m.setTables name ts).Fits root where
  databases e he := by
    rcases mem_set he with rfl | he
    · exact hd
    · exact h.databases e he
  tables e he := by
    rcases mem_set he with rfl | he
    · exact ht
    · exact h.tables e he
  counters := h.counters

namespace Mirrors

/-! ### Altering the root -/

/-- A disk after an alteration of one entry below the root. -/
theorem alter (h : Mirrors root place d₀ m d) (hr : EmptyRoot root place d₀)
    {f : List (Text × Node) → List (Text × Node)} {name : Text} (hn : name ≠ absolute)
    (hf : ChangesOnly name f) {all : List (Text × Node)} (ha : d.entriesAt place = .ok all)
    {m' : Memory} (hp : (Entries.erase absolute (f all)).Perm m'.entries) (hfits : m'.Fits root) :
    Mirrors root place d₀ m' (Node.alter f place d) := by
  obtain ⟨all₀, ha₀, he₀⟩ := hr.empty
  have hnone : all₀.lookup name = none := by
    have hl := lookup_erase name absolute all₀
    rw [he₀, if_neg hn] at hl
    exact hl.symm
  refine ⟨h.kept.alter hf fun q hq => look_ne_directory ha₀ (fun below hb => ?_) hq,
    ⟨f all, entriesAt_alter ha, hp⟩, hfits⟩
  rw [hnone] at hb
  cases hb

/-- A disk after an entry below the root is set. -/
theorem set (h : Mirrors root place d₀ m d) (hr : EmptyRoot root place d₀) (hw : m.WellFormed)
    {name : Text} (hn : name ≠ absolute) {node : Node}
    {f : List (Text × Node) → List (Text × Node)} (hf : ChangesOnly name f)
    (hset : ∀ all, d.entriesAt place = .ok all → f all = Entries.set name node all) {m' : Memory}
    (hp : (Entries.set name node m.entries).Perm m'.entries) (hfits : m'.Fits root) :
    Mirrors root place d₀ m' (Node.alter f place d) := by
  obtain ⟨all, ha, hall⟩ := h.entries
  refine h.alter hr hn hf ha ?_ hfits
  rw [hset all ha, erase_set_of_ne hn]
  exact (perm_set hall (nodup_entries hw) name node).trans hp

/-- A disk after the directory of a database was altered. -/
theorem setDatabase (h : Mirrors root place d₀ m d) (hr : EmptyRoot root place d₀)
    (hw : m.WellFormed) {e : Text × List (Text × Table)} (he : e ∈ m.databases)
    {f : List (Text × Node) → List (Text × Node)} {ts : List (Text × Table)}
    (hf : Node.alter f [] (databaseNode e.2) = databaseNode ts) (hfits : (m.setTables e.1 ts).Fits root) :
    Mirrors root place d₀ (m.setTables e.1 ts) (Node.alter f (place ++ [e.1]) d) := by
  have hname := isName_database hw he
  rw [alter_child]
  refine h.set hr hw hname.ne_absolute (changesOnly_alterIn f e.1) (fun all ha => ?_)
    (.of_eq (entries_setTables hname.ne_registryName ts).symm) hfits
  obtain ⟨all', ha', hp⟩ := h.entries
  rw [ha, Except.ok.injEq] at ha'
  subst ha'
  rw [alterIn, lookup hw hp hname.ne_absolute, lookup_entries_of_mem hw he]
  dsimp only
  rw [hf]

/-! ### One change -/

theorem make_createDatabase (h : Mirrors root place d₀ m d) (hr : EmptyRoot root place d₀)
    (hw : m.WellFormed) {name : Text} (hn : IsName name)
    (hnew : ∀ e ∈ m.databases, sameName e.1 name = false) :
    (∃ e, Change.make (.ofText root) d (.createDatabase name) = (.error e, d)) ∨
      ∃ d', Change.make (.ofText root) d (.createDatabase name) = (.ok (), d') ∧
        Mirrors root place d₀ (m.setTables name []) d' := by
  obtain ⟨all, ha, hp⟩ := h.entries
  have hl : all.lookup name = none := by
    rw [lookup hw hp hn.ne_absolute, lookup_entries_of_new hn hnew]
  change (∃ e, StorageError.ofDisk _ = _) ∨ ∃ d', StorageError.ofDisk _ = _ ∧ _
  rw [makeDirectories_child (h.locate hr) ha hn, hl]
  cases hf : ((Path.ofText root).child name).fault? with
  | some cause => exact Or.inl ⟨_, rfl⟩
  | none =>
      dsimp only
      split
      · exact Or.inl ⟨_, rfl⟩
      · next hs =>
          refine Or.inr ⟨_, rfl, ?_⟩
          refine h.set hr hw hn.ne_absolute (changesOnly_set name _) (fun _ _ => rfl) ?_ ?_
          · exact .of_eq (entries_setTables hn.ne_registryName []).symm
          · exact h.fits.setTables ⟨hf, by omega⟩ fun _ hx => nomatch hx

theorem discard_of_find {p : Path} {dir : Place} {name : Text} {node : Node}
    (hres : d.resolve p = .ok (dir ++ [name])) (hfind : d.find (dir ++ [name]) = .ok node) :
    StorageError.ofDisk (d.discard p) = (.ok (), d.erase dir name) := by
  unfold Disk.discard
  rw [remove_of_resolve hres, hfind]
  rfl

/-- Dropping a database succeeds. -/
theorem make_dropDatabase (h : Mirrors root place d₀ m d) (hr : EmptyRoot root place d₀)
    (hw : m.WellFormed) {e : Text × List (Text × Table)} (he : e ∈ m.databases) :
    ∃ d', Change.make (.ofText root) d (.dropDatabase (Key.path root (.database e.1))) = (.ok (), d') ∧
      Mirrors root place d₀ (m.make (.dropDatabase (.database e.1))) d' := by
  have hname := isName_database hw he
  have hres : d.resolve (Key.path root (.database e.1)) = .ok (place ++ [e.1]) :=
    resolve_child (h.locate hr) (h.fits.databases e he).1
  obtain ⟨all, ha, hp⟩ := h.entries
  refine ⟨_, discard_of_find hres (entriesAt_eq_ok_iff.mp (h.entriesAt_database hw he)), ?_⟩
  refine h.alter hr hname.ne_absolute (changesOnly_erase e.1) ha ?_ ?_
  · rw [erase_comm]
    exact (perm_erase hp e.1).trans (.of_eq (entries_dropDatabase hname.ne_registryName).symm)
  · exact ⟨fun e' he' => h.fits.databases e' (mem_of_mem_erase he'),
      fun e' he' => h.fits.tables e' (mem_of_mem_erase he'), h.fits.counters⟩

/-- Dropping a table succeeds. -/
theorem make_dropTable (h : Mirrors root place d₀ m d) (hr : EmptyRoot root place d₀)
    (hw : m.WellFormed) {e : Text × List (Text × Table)} (he : e ∈ m.databases)
    {x : Text × Table} (hx : x ∈ e.2) :
    ∃ d', Change.make (.ofText root) d (.dropTable (Key.path root (.table e.1 x.1))) = (.ok (), d') ∧
      Mirrors root place d₀ (m.make (.dropTable (.table e.1 x.1))) d' := by
  have hres : d.resolve (Key.path root (.table e.1 x.1)) =
      .ok (place ++ [e.1] ++ [Path.fileOf x.1]) :=
    resolve_child (h.locate_database hr e.1) (h.fits.tables e he x hx).1
  refine ⟨_, discard_of_find hres (h.find_table hw he hx), ?_⟩
  rw [Memory.make, tables_of_mem hw he]
  refine h.setDatabase hr hw he (erase_databaseNode x.1 e.2) ?_
  exact h.fits.setTables (h.fits.databases e he) fun y hy => h.fits.tables e he y (mem_of_mem_erase hy)

theorem make_storeTable (h : Mirrors root place d₀ m d) (hr : EmptyRoot root place d₀)
    (hw : m.WellFormed) {e : Text × List (Text × Table)} (he : e ∈ m.databases) (name : Text)
    (t : Table) :
    (∃ why, Change.make (.ofText root) d (.storeTable (Key.path root (.table e.1 name)) t) =
        (.error why, d)) ∨
      ∃ d', Change.make (.ofText root) d (.storeTable (Key.path root (.table e.1 name)) t) =
          (.ok (), d') ∧
        Mirrors root place d₀ (m.make (.storeTable (.table e.1 name) t)) d' := by
  have hpath : Key.path root (.table e.1 name) =
      (Key.path root (.database e.1)).child (Path.fileOf name) := rfl
  change (∃ why, Disk.storeTable d _ t = _) ∨ ∃ d', Disk.storeTable d _ t = _ ∧ _
  rcases Disk.storeTable_child (h.locate_database hr e.1) (h.entriesAt_database hw he)
    (Path.fileOf name) t with ⟨why, hc⟩ | ⟨hc, hf, hs, -⟩
  · exact Or.inl ⟨why, hpath ▸ hc⟩
  · refine Or.inr ⟨_, hpath ▸ hc, ?_⟩
    rw [Memory.make, tables_of_mem hw he]
    refine h.setDatabase hr hw he (set_databaseNode name t e.2) ?_
    refine h.fits.setTables (h.fits.databases e he) fun y hy => ?_
    rcases mem_set hy with rfl | hy
    · exact ⟨hf, hs⟩
    · exact h.fits.tables e he y hy

theorem make_storeCounters (h : Mirrors root place d₀ m d) (hr : EmptyRoot root place d₀)
    (hw : m.WellFormed) {r : Registry} (hne : r ≠ []) :
    (∃ why, Change.make (.ofText root) d (.storeCounters r) = (.error why, d)) ∨
      ∃ d', Change.make (.ofText root) d (.storeCounters r) = (.ok (), d') ∧
        Mirrors root place d₀ (m.make (.storeCounters r)) d' := by
  obtain ⟨all, ha, -⟩ := h.entries
  change (∃ why, Disk.storeRegistry d _ r = _) ∨ ∃ d', Disk.storeRegistry d _ r = _ ∧ _
  rcases Disk.storeRegistry_child (h.locate hr) ha r with ⟨why, hc⟩ | ⟨hc, hf, -⟩
  · exact Or.inl ⟨why, hc⟩
  · refine Or.inr ⟨_, hc, ?_⟩
    exact h.set hr hw (by decide) (changesOnly_set _ _) (fun _ _ => rfl)
      (entries_storeCounters hw hne) ⟨h.fits.databases, h.fits.tables, fun _ => hf⟩

/-- **A sound change** fails and leaves the disk as it was, or the disk mirrors the changed memory
afterwards. -/
theorem make (h : Mirrors root place d₀ m d) (hr : EmptyRoot root place d₀) (hw : m.WellFormed)
    {change : Change Key} (hs : m.Sound change) :
    (∃ why, (change.map (Key.path root)).make (.ofText root) d = (.error why, d)) ∨
      ∃ d', (change.map (Key.path root)).make (.ofText root) d = (.ok (), d') ∧
        Mirrors root place d₀ (m.make change) d' := by
  cases hs with
  | createDatabase hn hnew => exact h.make_createDatabase hr hw hn hnew
  | dropDatabase he => exact Or.inr (h.make_dropDatabase hr hw he)
  | storeTable he hn hnew ht => exact h.make_storeTable hr hw he _ _
  | dropTable he hx => exact Or.inr (h.make_dropTable hr hw he hx)
  | storeCounters hr' hne => exact h.make_storeCounters hr hw hne

/-! ### Changes one after the other -/

/-- After any number of stages of some sound changes the disk mirrors the memory after some of the
changes, and after one at least if the first one was made. -/
theorem stages_take (h : Mirrors root place d₀ m d) (hr : EmptyRoot root place d₀)
    (hw : m.WellFormed) {changes : List (Change Key)} (hc : Each Sound m changes) (n : Nat) :
    ∃ j, Mirrors root place d₀ (m.makeAll (changes.take j))
        (((Change.stages (.ofText root) d (changes.map (Change.map (Key.path root)))).take n).getLastD
          d) ∧
      (0 < n → ∀ change more d', changes = change :: more →
        (change.map (Key.path root)).make (.ofText root) d = (.ok (), d') → 0 < j) := by
  induction changes generalizing m d n with
  | nil => exact ⟨0, by simpa [Change.stages, makeAll] using h, fun _ _ _ _ hn => nomatch hn⟩
  | cons change more ih =>
      rw [List.map_cons, Change.stages]
      cases n with
      | zero => exact ⟨0, by simpa [makeAll] using h, fun hn => absurd hn (Nat.lt_irrefl 0)⟩
      | succ n =>
          rcases h.make hr hw hc.1 with ⟨why, hm⟩ | ⟨d', hm, h'⟩
          · rw [hm]
            refine ⟨0, by simpa [makeAll] using h, fun _ _ _ d' he hok => ?_⟩
            cases he
            rw [hm] at hok
            cases hok
          · rw [hm]
            obtain ⟨j, hj, -⟩ := ih h' (hw.make hc.1) hc.2 n
            refine ⟨j + 1, ?_, fun _ _ _ _ _ _ => Nat.succ_pos j⟩
            rw [List.take_succ_cons, List.take_succ_cons, List.getLastD_cons]
            exact hj

end Mirrors

end Memory

end FlatDb
