import FlatDb.Proofs.Contents
import FlatDb.Proofs.Operations
import FlatDb.Run

/-! # Disks that mirror memory

A disk mirrors databases in memory when below the root there is what writing the databases would
put there, and nothing else (`Memory.Mirrors`).

* The root is a directory that was empty on some earlier disk (`EmptyRoot`); all directories of that
  disk are there still, so that the root's own path leads to the same place.
* `Mirrors.simulates`: **the catalog of the disk answers as the catalog of the memory**, in whichever
  orders directories are listed. -/

namespace FlatDb

open Text Node

namespace Memory

open Entries

/-! ### What a disk would hold -/

/-- The file of a table. -/
def tableNode (t : Table) : Node := .file (toBytes t.encode)

/-- The directory of a database. -/
def databaseNode (ts : List (Text × Table)) : Node :=
  .directory (ts.map fun x => (Path.fileOf x.1, tableNode x.2))

/-- The file of the counters. -/
def registryNode (r : Registry) : Node := .file (toBytes r.encode)

/-- The file of the counters under its name, once there are counters. -/
def registryEntries (r : Registry) : List (Text × Node) :=
  if r = [] then [] else [(registryName, registryNode r)]

/-- What a disk would hold below the root. -/
def entries (m : Memory) : List (Text × Node) :=
  registryEntries m.counters ++ m.databases.map fun e => (e.1, databaseNode e.2)

/-- The path of a key below a root. -/
def Key.path (root : Text) : Key → Path
  | .database name => (Path.ofText root).child name
  | .table dir name => ((Path.ofText root).child dir).child (Path.fileOf name)

variable {m : Memory} {root : Text}

theorem mem_registryEntries {r : Registry} {e : Text × Node} (h : e ∈ registryEntries r) :
    r ≠ [] ∧ e = (registryName, registryNode r) := by
  unfold registryEntries at h
  split at h
  · cases h
  · next hr => exact ⟨hr, List.mem_singleton.mp h⟩

theorem mem_entries {e : Text × Node} (h : e ∈ m.entries) :
    (m.counters ≠ [] ∧ e = (registryName, registryNode m.counters)) ∨
      ∃ x ∈ m.databases, e = (x.1, databaseNode x.2) := by
  rcases List.mem_append.mp h with h | h
  · exact Or.inl (mem_registryEntries h)
  · obtain ⟨x, hx, rfl⟩ := List.mem_map.mp h
    exact Or.inr ⟨x, hx, rfl⟩

theorem isName_database (h : m.WellFormed) {e : Text × List (Text × Table)} (he : e ∈ m.databases) :
    IsName e.1 := h.databases.1 _ (List.mem_map_of_mem he)

theorem isName_table (h : m.WellFormed) {e : Text × List (Text × Table)} (he : e ∈ m.databases)
    {x : Text × Table} (hx : x ∈ e.2) : IsName x.1 := (h.tables e he).1 _ (List.mem_map_of_mem hx)

theorem names_entries (m : Memory) :
    m.entries.map Prod.fst = (registryEntries m.counters).map Prod.fst ++ m.databases.map Prod.fst := by
  simp [entries, Function.comp_def]

theorem not_mem_registryEntries {name : Text} (h : name ≠ registryName) (r : Registry) :
    name ∉ (registryEntries r).map Prod.fst := by
  intro hm
  obtain ⟨e, he, rfl⟩ := List.mem_map.mp hm
  rw [(mem_registryEntries he).2] at h
  exact h rfl

theorem registryName_not_mem (h : m.WellFormed) : registryName ∉ m.databases.map Prod.fst :=
  fun hm => (h.databases.1 _ hm).ne_registryName rfl

theorem nodup_entries (h : m.WellFormed) : (m.entries.map Prod.fst).Nodup := by
  rw [names_entries]
  refine List.nodup_append.mpr ⟨?_, h.databases.nodup, fun a ha b hb hab => ?_⟩
  · unfold registryEntries
    split <;> simp
  · obtain ⟨e, he, rfl⟩ := List.mem_map.mp ha
    rw [(mem_registryEntries he).2] at hab
    exact registryName_not_mem h ((show registryName = b from hab) ▸ hb)

theorem lookup_entries_of_mem (h : m.WellFormed) {e : Text × List (Text × Table)}
    (he : e ∈ m.databases) : m.entries.lookup e.1 = some (databaseNode e.2) :=
  lookup_of_mem (nodup_entries h) (List.mem_append_right _ (List.mem_map.mpr ⟨e, he, rfl⟩))

theorem lookup_entries_of_not_mem {name : Text} (hn : IsName name)
    (h : name ∉ m.databases.map Prod.fst) : m.entries.lookup name = none := by
  rw [lookup_eq_none_iff, names_entries, List.mem_append, not_or]
  exact ⟨not_mem_registryEntries hn.ne_registryName _, h⟩

theorem lookup_entries_of_new {name : Text} (hn : IsName name)
    (hnew : ∀ e ∈ m.databases, sameName e.1 name = false) : m.entries.lookup name = none := by
  refine lookup_entries_of_not_mem hn fun hm => ?_
  obtain ⟨e, he, rfl⟩ := List.mem_map.mp hm
  have := hnew e he
  rw [sameName_refl] at this
  cases this

theorem lookup_entries_registry (h : m.WellFormed) :
    m.entries.lookup registryName = if m.counters = [] then none else some (registryNode m.counters) := by
  split
  · next hc =>
      rw [lookup_eq_none_iff, names_entries, hc]
      exact registryName_not_mem h
  · next hc =>
      refine lookup_of_mem (nodup_entries h) (List.mem_append_left _ ?_)
      rw [registryEntries, if_neg hc]
      exact List.mem_cons_self

/-! ### What changes of it -/

theorem entries_setTables {name : Text} (hn : name ≠ registryName) (ts : List (Text × Table)) :
    (m.setTables name ts).entries = set name (databaseNode ts) m.entries := by
  have hset := map_set (f := fun n => n) (fun h => h) databaseNode name ts m.databases
  unfold entries
  rw [set_append (not_mem_registryEntries hn _), ← hset]
  rfl

theorem entries_dropDatabase {name : Text} (hn : name ≠ registryName) :
    (Memory.mk (Entries.erase name m.databases) m.counters).entries =
      Entries.erase name m.entries := by
  have herase := map_erase (f := fun n => n) (fun h => h) databaseNode name m.databases
  have hreg := erase_of_not_mem (not_mem_registryEntries hn m.counters)
  unfold entries
  rw [erase_append, hreg, ← herase]

theorem entries_storeCounters (h : m.WellFormed) {r : Registry} (hr : r ≠ []) :
    (set registryName (registryNode r) m.entries).Perm (Memory.mk m.databases r).entries := by
  have hnot : registryName ∉ (m.databases.map fun e => (e.1, databaseNode e.2)).map Prod.fst := by
    simpa [Function.comp_def] using registryName_not_mem h
  unfold entries
  rw [registryEntries, registryEntries, if_neg hr]
  split
  · rw [List.nil_append, set_of_not_mem hnot]
    exact List.perm_append_comm
  · exact List.Perm.refl _

theorem set_databaseNode (name : Text) (t : Table) (ts : List (Text × Table)) :
    alter (set (Path.fileOf name) (tableNode t)) [] (databaseNode ts) =
      databaseNode (set name t ts) := by
  rw [databaseNode, databaseNode, alter, map_set Path.fileOf_inj]

theorem erase_databaseNode (name : Text) (ts : List (Text × Table)) :
    alter (Entries.erase (Path.fileOf name)) [] (databaseNode ts) =
      databaseNode (Entries.erase name ts) := by
  rw [databaseNode, databaseNode, alter, map_erase Path.fileOf_inj]

end Memory

/-! ### Mirrors -/

/-- A root that leads to an empty directory.  The entry `/` at the top of a disk does not count. -/
structure EmptyRoot (root : Text) (place : Place) (d : Disk) : Prop where
  fault : (Path.ofText root).fault? = none
  locate : d.locate (.ofText root) = .ok place
  empty : ∃ all, d.entriesAt place = .ok all ∧ Entries.erase absolute all = []

/-- Listing an empty root tells that it is one. -/
theorem emptyRoot_of_list {root : Text} {d : Disk} (h : d.list (.ofText root) = .ok []) :
    ∃ place, EmptyRoot root place d := by
  obtain ⟨place, all, hr, ha, he⟩ := list_eq_ok_iff.mp h
  obtain ⟨hf, hl⟩ := resolve_eq_ok_iff.mp hr
  exact ⟨place, hf, hl, all, ha, he.symm⟩

namespace Memory

open Entries

/-- The paths of databases, tables and counters are in order and their names are not too long. -/
structure Fits (root : Text) (m : Memory) : Prop where
  databases : ∀ e ∈ m.databases,
    (Key.path root (.database e.1)).fault? = none ∧ e.1.size ≤ maxNameSize
  tables : ∀ e ∈ m.databases, ∀ x ∈ e.2,
    (Key.path root (.table e.1 x.1)).fault? = none ∧ (Path.fileOf x.1).size ≤ maxNameSize
  counters : m.counters ≠ [] → ((Path.ofText root).child registryName).fault? = none

/-- A disk holds below a root what writing the memory would put there, and all directories that
were there when the root was empty. -/
structure Mirrors (root : Text) (place : Place) (empty : Disk) (m : Memory) (d : Disk) : Prop where
  kept : KeepsDirectories empty d
  entries : ∃ all, d.entriesAt place = .ok all ∧ (Entries.erase absolute all).Perm m.entries
  fits : m.Fits root

/-- A search of a list finds the entry of a name, wherever it stands there, if entries of that name
and no others pass the test. -/
theorem find?_eq_named {α β : Type} {entries : List (Text × α)} {name : Text}
    (hd : Distinct (entries.map Prod.fst)) {l : List β} {p : β → Bool} {g : Text × α → β}
    (hmem : ∀ b ∈ l, p b = true → ∃ e ∈ entries, sameName e.1 name = true ∧ b = g e)
    (hin : ∀ e ∈ entries, sameName e.1 name = true → g e ∈ l ∧ p (g e) = true) :
    l.find? p = (named name entries).map g := by
  cases hn : named name entries with
  | none =>
      have hno := named_eq_none_iff.mp hn
      refine List.find?_eq_none.mpr fun b hb hp => ?_
      obtain ⟨e, he, hs, -⟩ := hmem b hb hp
      rw [hno e he] at hs
      cases hs
  | some e =>
      obtain ⟨he, hs⟩ := of_named_eq_some hn
      obtain ⟨hl, hp⟩ := hin e he hs
      cases hf : l.find? p with
      | none => exact absurd hp (List.find?_eq_none.mp hf _ hl)
      | some b =>
          obtain ⟨e', he', hs', rfl⟩ := hmem b (List.mem_of_find?_eq_some hf) (List.find?_some hf)
          have hname : e'.1 = e.1 := hd.eq_of_sameName (List.mem_map_of_mem he')
            (List.mem_map_of_mem he) (sameName_trans hs' (sameName_comm _ _ ▸ hs))
          rw [eq_of_name hd.nodup he' he hname, Option.map_some]

variable {m : Memory} {root : Text} {place : Place} {d₀ d : Disk}

theorem mirrors_empty (hr : EmptyRoot root place d₀) : Mirrors root place d₀ empty d₀ := by
  obtain ⟨all, ha, he⟩ := hr.empty
  refine ⟨.refl d₀, ⟨all, ha, ?_⟩, ⟨fun _ h => (nomatch h), fun _ h => (nomatch h), fun h => ?_⟩⟩
  · rw [he]
    exact List.Perm.refl _
  · exact absurd rfl h

namespace Mirrors

theorem locate (h : Mirrors root place d₀ m d) (hr : EmptyRoot root place d₀) :
    d.locate (.ofText root) = .ok place := locate_mono h.kept hr.locate

/-- Looking up a name below the root. -/
theorem lookup (hw : m.WellFormed) {all : List (Text × Node)}
    (hp : (Entries.erase absolute all).Perm m.entries) {name : Text} (hn : name ≠ absolute) :
    all.lookup name = m.entries.lookup name := by
  rw [← lookup_perm hp (nodup_entries hw), lookup_erase, if_neg hn]

/-- The directory of a database. -/
theorem entriesAt_database (h : Mirrors root place d₀ m d) (hw : m.WellFormed)
    {e : Text × List (Text × Table)} (he : e ∈ m.databases) :
    d.entriesAt (place ++ [e.1]) = .ok (e.2.map fun x => (Path.fileOf x.1, tableNode x.2)) := by
  obtain ⟨all, ha, hp⟩ := h.entries
  refine (entriesAt_child_iff ha).mpr ⟨(h.fits.databases e he).2, ?_⟩
  rw [lookup hw hp (isName_database hw he).ne_absolute, lookup_entries_of_mem hw he]
  rfl

theorem locate_database (h : Mirrors root place d₀ m d) (hr : EmptyRoot root place d₀)
    (name : Text) : d.locate (Key.path root (.database name)) = .ok (place ++ [name]) :=
  locate_child (h.locate hr) name

/-! ### The catalog of a mirror -/

theorem list_root (h : Mirrors root place d₀ m d) (hr : EmptyRoot root place d₀) :
    ∃ es, d.list (.ofText root) = .ok es ∧ es.Perm m.entries := by
  obtain ⟨all, ha, hp⟩ := h.entries
  have hres := resolve_eq_ok_iff.mpr ⟨hr.fault, h.locate hr⟩
  exact ⟨_, list_eq_ok_iff.mpr ⟨place, all, hres, ha, rfl⟩, hp⟩

theorem list_database (h : Mirrors root place d₀ m d) (hr : EmptyRoot root place d₀)
    (hw : m.WellFormed) {e : Text × List (Text × Table)} (he : e ∈ m.databases) :
    d.list (Key.path root (.database e.1)) =
      .ok (e.2.map fun x => (Path.fileOf x.1, tableNode x.2)) := by
  have hres := resolve_eq_ok_iff.mpr ⟨(h.fits.databases e he).1, h.locate_database hr e.1⟩
  refine list_eq_ok_iff.mpr ⟨_, _, hres, h.entriesAt_database hw he, (erase_of_not_mem fun hm => ?_).symm⟩
  obtain ⟨y, hy, hye⟩ := List.mem_map.mp hm
  obtain ⟨x, -, rfl⟩ := List.mem_map.mp hy
  exact Path.fileOf_ne_absolute x.1 hye

theorem findDatabase (h : Mirrors root place d₀ m d) (hr : EmptyRoot root place d₀)
    (hw : m.WellFormed) (l : Listing) (name : Text) :
    d.findDatabase l.order (.ofText root) name =
      (named name m.databases).map fun e => ⟨e.1, Key.path root (.database e.1)⟩ := by
  obtain ⟨es, hes, hp⟩ := h.list_root hr
  unfold Disk.findDatabase
  rw [hes]
  dsimp only
  rw [find?_eq_named hw.databases (g := fun e => (e.1, databaseNode e.2)), Option.map_map]
  · rfl
  · intro x hx hd
    rcases mem_entries (hp.subset ((l.perm es).subset hx)) with ⟨-, rfl⟩ | ⟨e, he, rfl⟩
    · cases hd
    · exact ⟨e, he, hd, rfl⟩
  · intro e he hs
    refine ⟨(l.perm es).symm.subset (hp.symm.subset ?_), hs⟩
    exact List.mem_append_right _ (List.mem_map.mpr ⟨e, he, rfl⟩)

theorem isTable_iff {dir : Path} {name : Text} {x : Text × Table} (hx : x.1 ≠ [])
    (hf : (dir.child (Path.fileOf x.1)).fault? = none) :
    Disk.isTable dir name (Path.fileOf x.1, tableNode x.2) = sameName x.1 name := by
  unfold tableNode Disk.isTable
  dsimp only
  rw [hf, Path.extension?_fileOf hx, Path.stem_fileOf hx]
  simp [sameName_refl]

theorem findTable (h : Mirrors root place d₀ m d) (hr : EmptyRoot root place d₀)
    (hw : m.WellFormed) {e : Text × List (Text × Table)} (he : e ∈ m.databases) (l : Listing)
    (name : Text) :
    d.findTable l.order (Key.path root (.database e.1)) name =
      .ok ((named name e.2).map fun x => ⟨x.1, Key.path root (.table e.1 x.1)⟩) := by
  have htest {x : Text × Table} (hx : x ∈ e.2) :
      Disk.isTable (Key.path root (.database e.1)) name (Path.fileOf x.1, tableNode x.2) =
        sameName x.1 name :=
    isTable_iff (isName_table hw he hx).1 (h.fits.tables e he x hx).1
  unfold Disk.findTable
  rw [h.list_database hr hw he]
  dsimp only
  rw [find?_eq_named (hw.tables e he) (g := fun x => (Path.fileOf x.1, tableNode x.2)),
    Option.map_map]
  · congr 1
    refine Option.map_congr fun x hx => ?_
    have hxn := (isName_table hw he (of_named_eq_some hx).1).1
    rw [Function.comp_apply, Path.stem_fileOf hxn]
    rfl
  · intro y hy ht
    obtain ⟨x, hx, rfl⟩ := List.mem_map.mp ((l.perm _).subset hy)
    rw [htest hx] at ht
    exact ⟨x, hx, ht, rfl⟩
  · intro x hx hs
    rw [htest hx]
    exact ⟨(l.perm _).symm.subset (List.mem_map.mpr ⟨x, hx, rfl⟩), hs⟩

/-- The file of a table holds its text. -/
theorem find_table (h : Mirrors root place d₀ m d) (hw : m.WellFormed)
    {e : Text × List (Text × Table)} (he : e ∈ m.databases) {x : Text × Table} (hx : x ∈ e.2) :
    d.find (place ++ [e.1] ++ [Path.fileOf x.1]) = .ok (tableNode x.2) := by
  have hnodup : ((e.2.map fun y => (Path.fileOf y.1, tableNode y.2)).map Prod.fst).Nodup := by
    rw [List.map_map]
    have hf : (Prod.fst ∘ fun y : Text × Table => (Path.fileOf y.1, tableNode y.2)) =
        Path.fileOf ∘ Prod.fst := rfl
    rw [hf, ← List.map_map]
    exact List.Pairwise.map _ (fun _ _ hab hf => hab (Path.fileOf_inj hf)) (hw.tables e he).nodup
  have hl := lookup_of_mem hnodup (List.mem_map.mpr ⟨x, hx, rfl⟩)
  have hs := (h.fits.tables e he x hx).2
  rw [find_child (h.entriesAt_database hw he), if_neg (by omega), hl]

theorem readTable (h : Mirrors root place d₀ m d) (hr : EmptyRoot root place d₀)
    (hw : m.WellFormed) {e : Text × List (Text × Table)} (he : e ∈ m.databases)
    {x : Text × Table} (hx : x ∈ e.2) : d.readTable (Key.path root (.table e.1 x.1)) = .ok x.2 := by
  have hres : d.resolve (Key.path root (.table e.1 x.1)) =
      .ok (place ++ [e.1] ++ [Path.fileOf x.1]) :=
    resolve_child (h.locate_database hr e.1) (h.fits.tables e he x hx).1
  unfold Disk.readTable
  rw [readText_of_find hres (h.find_table hw he hx)]
  dsimp only
  rw [Table.decode_encode (hw.contents e he x hx)]

/-- The registry holds the counters, once its path is in order. -/
theorem readRegistry_of_fault (h : Mirrors root place d₀ m d) (hr : EmptyRoot root place d₀)
    (hw : m.WellFormed) (hf : ((Path.ofText root).child registryName).fault? = none) :
    d.readRegistry (.ofText root) = .ok m.counters := by
  obtain ⟨all, ha, hp⟩ := h.entries
  have hres : d.resolve (Disk.registryPath (.ofText root)) = .ok (place ++ [registryName]) :=
    resolve_child (h.locate hr) hf
  have hfind := find_child ha registryName
  rw [if_neg (by decide), lookup hw hp (by decide), lookup_entries_registry hw] at hfind
  unfold Disk.readRegistry
  by_cases hc : m.counters = []
  · rw [if_pos hc] at hfind
    rw [readText_of_find_error hres hfind, hc]
  · rw [if_neg hc] at hfind
    rw [readText_of_find hres hfind]
    dsimp only
    rw [Registry.decode_encode hw.counters]

/-- If the registry can be read, it holds the counters. -/
theorem readRegistry_eq (h : Mirrors root place d₀ m d) (hr : EmptyRoot root place d₀)
    (hw : m.WellFormed) {r : Registry} (hread : d.readRegistry (.ofText root) = .ok r) :
    r = m.counters := by
  cases hf : ((Path.ofText root).child registryName).fault? with
  | none =>
      rw [h.readRegistry_of_fault hr hw hf, Except.ok.injEq] at hread
      exact hread.symm
  | some cause =>
      have hc : m.counters = [] := by
        refine Classical.byContradiction fun hne => ?_
        rw [h.fits.counters hne] at hf
        cases hf
      have hread' : d.readText (Disk.registryPath (.ofText root)) = .error cause := by
        unfold readText Node.read findPath resolve
        rw [Disk.registryPath, hf]
        rfl
      unfold Disk.readRegistry at hread
      rw [hread'] at hread
      rw [hc]
      cases cause <;> cases hread
      rfl

/-- **The catalog of a mirror answers as that of the memory**, in whichever orders directories are
listed. -/
theorem simulates (h : Mirrors root place d₀ m d) (hr : EmptyRoot root place d₀)
    (hw : m.WellFormed) (listings : Nat → Listing) :
    (d.catalog (fun n => (listings n).order) (.ofText root)).Simulates
      (m.catalogWith (d.readRegistry (.ofText root))) (Key.path root) where
  database? name := by
    refine (h.findDatabase hr hw (listings 0) name).trans ?_
    change _ = Option.map _ (Option.map _ _)
    rw [Option.map_map]
    rfl
  table? hd n name := by
    obtain ⟨e, he, -, rfl⟩ := database_of_catalog hd
    refine (h.findTable hr hw he (listings (n + 1)) name).trans ?_
    change _ = Except.ok (Option.map _ (Option.map _ (named name (m.tables e.1))))
    rw [Option.map_map, tables_of_mem hw he]
    rfl
  vacant hd _ hn := by
    obtain ⟨e, he, -, rfl⟩ := database_of_catalog hd
    exact Path.ofTable_of_isName _ hn
  load hd hf := by
    obtain ⟨e, he, -, rfl⟩ := database_of_catalog hd
    obtain ⟨x, hx, -, rfl, hl⟩ := table_of_catalog hw he hf
    rw [hl]
    exact h.readTable hr hw he hx
  counters := rfl

end Mirrors

end Memory

end FlatDb
