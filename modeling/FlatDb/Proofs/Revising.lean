import FlatDb.Proofs.Ids
import FlatDb.Proofs.Insertion
import FlatDb.Proofs.Views

/-! # Putting a new version of a table in place

`ALTER`, `UPDATE` and `DELETE` open a table, compute a new version of it or none, and put the version in
the place of the file.

* `Engine.run_of_openTable`: such a command is opening, computing and putting in place, and nothing else.
* `Disk.IsFile.storeTable_cases`: where a file is, either no table can be stored or any can.  In the
  second case the table is read back, and **a table that is stored later might as well have been stored
  at once**, which is what repeated revisions come down to.
* `Disk.Mirrored` are the disks that runs from an empty root reach.  On them a table is found again after
  it was revised, in whichever orders directories are listed (`Mirrored.storeTable_cases`), and its file
  holds the table as it is written (`Mirrored.file_of_openTable`). -/

namespace FlatDb

open Text Node

/-! ### Opening a table -/

section opening
variable {κ ι : Type} {catalog : Catalog κ} {other : Catalog ι} {selected : Option Text} {name : Text}

/-- The table of a name in the selected database, with what it holds. -/
def Catalog.openTable (catalog : Catalog κ) (selected : Option Text) (name : Text) :
    Except Error (Stored κ × Table) := do
  let database ← catalog.selected selected
  catalog.loadTable 0 database name

theorem Catalog.openTable_eq_ok_iff {stored : Stored κ} {t : Table} :
    catalog.openTable selected name = .ok (stored, t) ↔
      ∃ chosen database, selected = some chosen ∧ catalog.database? chosen = some database ∧
        catalog.table? 0 database.key name = .ok (some stored) ∧ catalog.load stored.key = .ok t := by
  unfold openTable
  rw [bind_eq_ok_iff]
  constructor
  · rintro ⟨database, hd, hl⟩
    obtain ⟨chosen, hs, hd⟩ := selected_eq_ok_iff.mp hd
    exact ⟨chosen, database, hs, hd, loadTable_eq_ok_iff.mp hl⟩
  · rintro ⟨chosen, database, hs, hd, hl⟩
    exact ⟨database, selected_eq_ok_iff.mpr ⟨chosen, hs, hd⟩, loadTable_eq_ok_iff.mpr hl⟩

/-- A catalog opens what the one that it simulates opens. -/
theorem Catalog.Simulates.openTable {f : ι → κ} (h : catalog.Simulates other f)
    (selected : Option Text) (name : Text) :
    catalog.openTable selected name =
      (other.openTable selected name).map fun x => (x.1.map f, x.2) := by
  unfold Catalog.openTable
  rw [h.selected]
  refine bind_map_congr fun database hd => ?_
  obtain ⟨chosen, -, hd⟩ := Catalog.selected_eq_ok_iff.mp hd
  exact h.loadTable hd 0 name

/-- A revision is planned by opening the table first. -/
theorem Command.planRevision_eq (session : Session) (f : Table → Except Error (Option Table)) :
    planRevision catalog session name f =
      catalog.openTable session.database name >>= fun x => (f x.2).map (Plan.revise session x.1.key) := by
  unfold planRevision Catalog.openTable
  cases catalog.selected session.database with
  | error why => rfl
  | ok database =>
      change (catalog.loadTable 0 database name >>= _) = (catalog.loadTable 0 database name >>= _)
      refine bind_congr fun x => ?_
      obtain ⟨stored, t⟩ := x
      dsimp only
      cases f t <;> rfl

end opening

/-! ### Commands that revise a table -/

/-- The table that a command revises, and the new version of it. -/
def Command.revision? : Command → Option (Text × (Table → Except Error (Option Table)))
  | alter name alteration column => some (name, fun t => (t.alter alteration column).map some)
  | update name assignments filter => some (name, fun t => t.update assignments filter)
  | delete name filter => some (name, fun t => t.delete filter)
  | _ => none

theorem Command.revises_of_revision {c : Command} {name : Text} {f : Table → Except Error (Option Table)}
    (hc : c.revision? = some (name, f)) {t t' : Table} (h : f t = .ok (some t')) :
    c.Revises name t t' := by
  cases c with
  | alter table alteration column =>
      cases hc
      obtain ⟨_, ha, hs⟩ := map_eq_ok_iff.mp h
      cases hs
      exact .alter ha
  | update table assignments filter =>
      cases hc
      exact .update h
  | delete table filter =>
      cases hc
      exact .delete h
  | _ => cases hc

theorem Command.plan_of_revision {κ : Type} (catalog : Catalog κ) (session : Session) {c : Command}
    {name : Text} {f : Table → Except Error (Option Table)} (hc : c.revision? = some (name, f)) :
    c.plan catalog session = planRevision catalog session name f := by
  cases c <;> cases hc <;> rfl

/-- The outcome of putting a new version of a table in the place of a file, if there is one. -/
def Disk.revise (d : Disk) (session : Session) (p : Path) : Except Error (Option Table) → Outcome
  | .error why => ⟨.error why, session, d⟩
  | .ok none => ⟨.ok none, session, d⟩
  | .ok (some t) =>
    match d.storeTable p t with
    | (.ok (), d) => ⟨.ok none, session, d⟩
    | (.error what, d) => ⟨.error (.storage what), session, d⟩

section revise
variable {d d' : Disk} {session : Session} {p : Path} {t : Table}

theorem Disk.revise_of_ok (h : d.storeTable p t = (.ok (), d')) :
    d.revise session p (.ok (some t)) = ⟨.ok none, session, d'⟩ := by
  dsimp only [revise]
  rw [h]

theorem Disk.revise_of_error {what : StorageError} (h : d.storeTable p t = (.error what, d')) :
    d.revise session p (.ok (some t)) = ⟨.error (.storage what), session, d'⟩ := by
  dsimp only [revise]
  rw [h]

theorem Disk.session_revise (revised : Except Error (Option Table)) :
    (d.revise session p revised).session = session := by
  unfold revise
  split
  · rfl
  · rfl
  · split <;> rfl

end revise

namespace Engine

variable {e : Engine} {session : Session} {d : Disk} {name : Text}

/-- The engine that lists directories in these orders. -/
def below (root : Text) (listings : Nat → Listing) : Engine := ⟨.ofText root, fun n => (listings n).order⟩

/-- The table that a session means by a name, with what it holds. -/
def openTable (e : Engine) (session : Session) (d : Disk) (name : Text) :
    Except Error (Stored Path × Table) :=
  (d.catalog e.order e.root).openTable session.database name

section revision
variable {c : Command} {f : Table → Except Error (Option Table)} (hc : c.revision? = some (name, f))
include hc

theorem run_of_openTable_error {why : Error} (ho : e.openTable session d name = .error why) :
    e.run session d c = ⟨.error why, session, d⟩ := by
  have hplan : c.plan (d.catalog e.order e.root) session = .error why := by
    rw [Command.plan_of_revision _ _ hc, Command.planRevision_eq]
    change e.openTable session d name >>= _ = _
    rw [ho]
    rfl
  unfold run
  rw [hplan]

/-- **A command that revises a table** opens it, computes the new version and puts it in place. -/
theorem run_of_openTable {stored : Stored Path} {t : Table}
    (ho : e.openTable session d name = .ok (stored, t)) :
    e.run session d c = d.revise session stored.key (f t) := by
  have hplan : c.plan (d.catalog e.order e.root) session =
      (f t).map (Plan.revise session stored.key) := by
    rw [Command.plan_of_revision _ _ hc, Command.planRevision_eq]
    change e.openTable session d name >>= _ = _
    rw [ho]
    rfl
  unfold run
  rw [hplan]
  rcases f t with why | _ | t'
  · rfl
  · rfl
  · change e.perform session d (.change session [.storeTable stored.key t']) = _
    unfold perform Plan.change Disk.revise
    dsimp only
    rw [Change.makeAll, Change.make]
    rcases d.storeTable stored.key t' with ⟨_ | _, d'⟩ <;> rfl

theorem session_run_of_revision (e : Engine) (session : Session) (d : Disk) :
    (e.run session d c).session = session := by
  cases ho : e.openTable session d name with
  | error why => rw [run_of_openTable_error hc ho]
  | ok x =>
      rw [run_of_openTable hc ho]
      exact Disk.session_revise _

end revision

/-- What is opened is read from the file. -/
theorem readTable_of_openTable {stored : Stored Path} {t : Table}
    (h : e.openTable session d name = .ok (stored, t)) : d.readTable stored.key = .ok t := by
  obtain ⟨-, -, -, -, -, hload⟩ := Catalog.openTable_eq_ok_iff.mp h
  exact hload

end Engine

/-- A call runs the command that its text spells. -/
theorem Call.runText_of_parse {call : Call} {c : Command} (hp : Command.parse call.input = .ok c)
    (root : Text) (session : Session) (d : Disk) :
    (call.engine root).runText session d call.input =
      (Engine.below root call.listings).run session d c := by
  unfold Engine.runText
  rw [hp]
  rfl

/-! ### Room for a file -/

namespace Disk

/-- A path that leads to a file in a directory. -/
inductive IsFile (d : Disk) : Path → Prop where
  | child {dir : Path} {entry : Text} {below : Place} {entries : List (Text × Node)}
      {bytes : ByteArray} (hl : d.locate dir = .ok below) (he : d.entriesAt below = .ok entries)
      (hf : (dir.child entry).fault? = none) (hb : entries.lookup entry = some (.file bytes)) :
      IsFile d (dir.child entry)

variable {d : Disk} {p : Path}

/-- A table that was opened is a file. -/
theorem isFile_of_openTable {e : Engine} {session : Session} {name : Text} {stored : Stored Path}
    {t : Table} (h : e.openTable session d name = .ok (stored, t)) : d.IsFile stored.key := by
  obtain ⟨chosen, database, -, -, hf, hload⟩ := Catalog.openTable_eq_ok_iff.mp h
  obtain ⟨below, entries, hl, he⟩ := locate_of_findTable hf
  obtain ⟨entry, hkey⟩ := key_of_findTable hf
  obtain ⟨file, bytes, hr, hfind⟩ := find_of_readTable hload
  obtain ⟨hfault, hlocate⟩ := resolve_eq_ok_iff.mp hr
  rw [hkey] at hfault hlocate ⊢
  rw [locate_child hl, Except.ok.injEq] at hlocate
  subst hlocate
  refine .child hl he hfault (?_ : entries.lookup entry = some (.file bytes))
  rw [find_child he] at hfind
  split at hfind
  · cases hfind
  · split at hfind
    · cases hfind
    · next node hn =>
        cases hfind
        exact hn

/-- **Storing tables where a file is.**  Either there is no room beside the file, and no table can be
stored; or every table can be stored and is read back, and another one that is stored after it is stored
as if it were the first. -/
theorem IsFile.storeTable_cases (h : d.IsFile p) :
    (∀ t, ∃ e, d.storeTable p t = (.error e, d)) ∨
      ∀ t, ∃ d', d.storeTable p t = (.ok (), d') ∧
        (∀ t', Table.decode t.encode = .ok t' → d'.readTable p = .ok t') ∧
        ∀ t', d'.storeTable p t' = d.storeTable p t' := by
  obtain ⟨hl, he, hf, hb⟩ := h
  next dir entry below entries bytes =>
  have hd : ∀ es, entries.lookup entry ≠ some (.directory es) := by simp [hb]
  rcases replace_cases hl he hd hf with ⟨-, hfull⟩ | ⟨-, hs, hroom⟩
  · refine .inl fun t => ?_
    obtain ⟨cause, hr⟩ := hfull t.encode.toBytes
    unfold storeTable
    rw [hr]
    exact ⟨_, rfl⟩
  · refine .inr fun t => ?_
    obtain ⟨hr, hagain⟩ := hroom t.encode.toBytes
    refine ⟨_, by rw [storeTable, hr], fun t' hdecode => ?_, fun t' => ?_⟩
    · unfold readTable
      rw [readText_put_file hl he hd hf hs]
      dsimp only
      rw [hdecode]
    · unfold storeTable
      rw [hagain]

/-- Where one table could be stored, each can, also after the first one. -/
theorem IsFile.storeTable_again (h : d.IsFile p) {t : Table} {d' : Disk}
    (hs : d.storeTable p t = (.ok (), d')) (t' : Table) :
    ∃ d'', d.storeTable p t' = (.ok (), d'') ∧ d'.storeTable p t' = (.ok (), d'') := by
  rcases h.storeTable_cases with hfull | hroom
  · obtain ⟨why, he⟩ := hfull t
    cases hs.symm.trans he
  · obtain ⟨d₁, hs₁, -, hagain⟩ := hroom t
    cases hs.symm.trans hs₁
    obtain ⟨d₂, hs₂, -⟩ := hroom t'
    exact ⟨d₂, hs₂, (hagain t').trans hs₂⟩

end Disk

/-! ### Memory -/

namespace Memory

open Entries

variable {m : Memory} {selected : Option Text} {name : Text} {stored : Stored Key} {t : Table}

/-- What is opened in memory is a table of a database. -/
theorem openTable_eq_ok_iff (hw : m.WellFormed) :
    m.catalog.openTable selected name = .ok (stored, t) ↔
      ∃ chosen, selected = some chosen ∧ ∃ e ∈ m.databases, sameName e.1 chosen = true ∧
        ∃ x ∈ e.2, sameName x.1 name = true ∧ stored = ⟨x.1, .table e.1 x.1⟩ ∧ x.2 = t := by
  have hcatalog : m.catalog = m.catalogWith (.ok m.counters) := rfl
  rw [hcatalog, Catalog.openTable_eq_ok_iff]
  constructor
  · rintro ⟨chosen, database, hs, hd, hf, hl⟩
    obtain ⟨e, he, hse, rfl⟩ := database_of_catalog hd
    obtain ⟨x, hx, hsx, rfl, hload⟩ := table_of_catalog hw he hf
    exact ⟨chosen, hs, e, he, hse, x, hx, hsx, rfl, Except.ok.inj (hload.symm.trans hl)⟩
  · rintro ⟨chosen, hs, e, he, hse, x, hx, hsx, rfl, rfl⟩
    have htables := tables_of_mem hw he
    refine ⟨chosen, ⟨e.1, .database e.1⟩, hs, ?_, ?_, ?_⟩
    · change (named chosen m.databases).map _ = _
      rw [named_of_mem hw.databases he hse]
      rfl
    · change Except.ok ((named name (m.tables e.1)).map _) = _
      rw [htables, named_of_mem (hw.tables e he) hx hsx]
      rfl
    · refine load_of_lookup ?_
      rw [htables, lookup_of_mem (hw.tables e he).nodup hx]

/-- A table that was put in the place of another one is opened in its stead. -/
theorem openTable_make (hw : m.WellFormed)
    (h : m.catalog.openTable selected name = .ok (stored, t)) {t' : Table} (ht : t'.WellFormed) :
    (m.make (.storeTable stored.key t')).WellFormed ∧
      (m.make (.storeTable stored.key t')).catalog.openTable selected name = .ok (stored, t') := by
  obtain ⟨chosen, hs, e, he, hse, x, hx, hsx, rfl, rfl⟩ := (openTable_eq_ok_iff hw).mp h
  have hw' := hw.make (sound_storeTable hw he hx ht)
  refine ⟨hw', (openTable_eq_ok_iff hw').mpr ⟨chosen, hs, (e.1, Entries.set x.1 t' e.2), ?_, hse,
    (x.1, t'), ?_, hsx, rfl, rfl⟩⟩
  · rw [make, tables_of_mem hw he]
    exact mem_of_lookup (by rw [setTables, lookup_set, if_pos rfl])
  · exact mem_of_lookup (by rw [lookup_set, if_pos rfl])

end Memory

/-! ### Disks that runs reach -/

section mirrors
variable {root : Text} {place : Place} {d₀ d : Disk} {m : Memory}

/-- A mirror opens what the memory opens, whichever way directories are listed. -/
theorem Memory.Mirrors.openTable_eq (h : m.Mirrors root place d₀ d) (hr : EmptyRoot root place d₀)
    (hw : m.WellFormed) (listings : Nat → Listing) (session : Session) (name : Text) :
    (Engine.below root listings).openTable session d name =
      (m.catalog.openTable session.database name).map fun x => (x.1.map (Key.path root), x.2) :=
  (h.simulates hr hw listings).openTable session.database name

/-- What a mirror opens is a table of a database in memory, and is opened there. -/
theorem Memory.Mirrors.exists_of_openTable (h : m.Mirrors root place d₀ d) (hr : EmptyRoot root place d₀)
    (hw : m.WellFormed) {listings : Nat → Listing} {session : Session} {name : Text}
    {stored : Stored Path} {t : Table}
    (ho : (Engine.below root listings).openTable session d name = .ok (stored, t)) :
    ∃ e ∈ m.databases, ∃ x ∈ e.2, stored = ⟨x.1, Key.path root (.table e.1 x.1)⟩ ∧ t = x.2 ∧
      m.catalog.openTable session.database name = .ok (⟨x.1, .table e.1 x.1⟩, x.2) := by
  rw [h.openTable_eq hr hw] at ho
  obtain ⟨⟨found, t₀⟩, hm, hx⟩ := map_eq_ok_iff.mp ho
  obtain ⟨-, -, e, he, -, x, hx', -, rfl, rfl⟩ := (Memory.openTable_eq_ok_iff hw).mp hm
  cases hx
  exact ⟨e, he, x, hx', rfl, rfl, hm⟩

/-- A disk that mirrors a well-formed memory below a root. -/
def Disk.Mirrored (root : Text) (d : Disk) : Prop :=
  ∃ place d₀ m, EmptyRoot root place d₀ ∧ m.WellFormed ∧ Memory.Mirrors root place d₀ m d

namespace Disk.Mirrored

/-- Runs from an empty root reach mirrors only. -/
theorem after (h : d.list (.ofText root) = .ok []) (events : List Event) :
    Mirrored root ((World.start d).after root events).store := by
  obtain ⟨place, hr⟩ := emptyRoot_of_list h
  obtain ⟨m, hw, hm⟩ := mirrors_after hr (w := World.start d) (Memory.mirrors_empty hr)
    Memory.wellFormed_empty events
  exact ⟨place, d, m, hr, hw, hm⟩

variable {listings : Nat → Listing} {session : Session} {name : Text} {stored : Stored Path}
  {t : Table}

/-- It makes no difference to what is opened how directories are listed. -/
theorem openTable_eq (h : d.Mirrored root) (listings listings' : Nat → Listing) (session : Session)
    (name : Text) :
    (Engine.below root listings).openTable session d name =
      (Engine.below root listings').openTable session d name := by
  obtain ⟨place, d₀, m, hr, hw, hm⟩ := h
  rw [hm.openTable_eq hr hw, hm.openTable_eq hr hw]

/-- A table is opened under every capitalization of its name. -/
theorem openTable_of_sameName (h : d.Mirrored root)
    (ho : (Engine.below root listings).openTable session d name = .ok (stored, t))
    {name' : Text} (hn : sameName name name' = true) :
    (Engine.below root listings).openTable session d name' = .ok (stored, t) := by
  obtain ⟨place, d₀, m, hr, hw, hm⟩ := h
  rw [hm.openTable_eq hr hw] at ho ⊢
  obtain ⟨⟨found, t₀⟩, hopen, hx⟩ := map_eq_ok_iff.mp ho
  obtain ⟨chosen, hs, e, he, hse, x, hx', hsx, rfl, rfl⟩ := (Memory.openTable_eq_ok_iff hw).mp hopen
  rw [(Memory.openTable_eq_ok_iff hw).mpr
    ⟨chosen, hs, e, he, hse, x, hx', sameName_trans hsx hn, rfl, rfl⟩]
  exact congrArg Except.ok hx

/-- Nor does it make a difference to a command that revises a table. -/
theorem run_eq (h : d.Mirrored root) (listings listings' : Nat → Listing) (session : Session)
    {c : Command} {f : Table → Except Error (Option Table)} (hc : c.revision? = some (name, f)) :
    (Engine.below root listings).run session d c = (Engine.below root listings').run session d c := by
  have hopen := h.openTable_eq listings listings' session name
  cases ho : (Engine.below root listings').openTable session d name with
  | error why =>
      rw [Engine.run_of_openTable_error hc ho, Engine.run_of_openTable_error hc (hopen.trans ho)]
  | ok x => rw [Engine.run_of_openTable hc ho, Engine.run_of_openTable hc (hopen.trans ho)]

theorem wellFormed (h : d.Mirrored root)
    (ho : (Engine.below root listings).openTable session d name = .ok (stored, t)) :
    t.WellFormed := by
  obtain ⟨place, d₀, m, hr, hw, hm⟩ := h
  obtain ⟨e, he, x, hx, -, rfl, -⟩ := hm.exists_of_openTable hr hw ho
  exact hw.contents e he x hx

/-- The file of a table that is opened holds the table, as it is written. -/
theorem file_of_openTable (h : d.Mirrored root)
    (ho : (Engine.below root listings).openTable session d name = .ok (stored, t)) :
    ∃ dir below entries entry, d.locate dir = .ok below ∧ d.entriesAt below = .ok entries ∧
      stored.key = dir.child entry ∧ (dir.child entry).fault? = none ∧ entry.size ≤ maxNameSize ∧
      entries.lookup entry = some (.file t.encode.toBytes) := by
  obtain ⟨place, d₀, m, hr, hw, hm⟩ := h
  obtain ⟨e, he, x, hx, rfl, rfl, -⟩ := hm.exists_of_openTable hr hw ho
  obtain ⟨hf, hs⟩ := hm.fits.tables e he x hx
  refine ⟨_, _, _, _, hm.locate_database hr e.1, hm.entriesAt_database hw he, rfl, hf, hs, ?_⟩
  have hfind := hm.find_table hw he hx
  rw [find_child (hm.entriesAt_database hw he), if_neg (by omega)] at hfind
  split at hfind
  · cases hfind
  · next node hn =>
      cases hfind
      exact hn

/-- The file of a table that is opened, at the place to which its path leads. -/
theorem look_of_openTable (h : d.Mirrored root)
    (ho : (Engine.below root listings).openTable session d name = .ok (stored, t)) {place : Place}
    (hr : d.resolve stored.key = .ok place) : d.look place = some (some t.encode.toBytes) := by
  obtain ⟨dir, below, entries, entry, hl, he, hkey, hf, hs, hb⟩ := h.file_of_openTable ho
  rw [hkey, resolve_child hl hf, Except.ok.injEq] at hr
  subst hr
  have hfind : d.find (below ++ [entry]) = .ok (.file t.encode.toBytes) := by
    rw [find_child he, if_neg (by omega), hb]
  rw [look, hfind]

/-- To store a table that is there already makes no difference. -/
theorem storeTable_self (h : d.Mirrored root)
    (ho : (Engine.below root listings).openTable session d name = .ok (stored, t))
    {d' : Disk} (hs : d.storeTable stored.key t = (.ok (), d')) : d' = d := by
  obtain ⟨dir, below, entries, entry, hl, he, hkey, hf, -, hb⟩ := h.file_of_openTable ho
  rw [hkey] at hs
  rcases storeTable_child_eq hl he hf (by simp [hb]) t with ⟨-, why, hfull⟩ | ⟨-, -, hput⟩
  · cases hs.symm.trans hfull
  · cases hs.symm.trans hput
    exact alter_of_eq he (Entries.set_self hb)

/-- A mirror after a table was revised is one too, and the new version is opened. -/
theorem of_storeTable (h : d.Mirrored root)
    (ho : (Engine.below root listings).openTable session d name = .ok (stored, t)) {t' : Table}
    (ht : t'.WellFormed) {d' : Disk} (hs : d.storeTable stored.key t' = (.ok (), d')) :
    d'.Mirrored root ∧ ∀ listings',
      (Engine.below root listings').openTable session d' name = .ok (stored, t') := by
  obtain ⟨place, d₀, m, hr, hw, hm⟩ := h
  obtain ⟨e, he, x, hx, rfl, -, hopen⟩ := hm.exists_of_openTable hr hw ho
  obtain ⟨hw', ho'⟩ := Memory.openTable_make hw hopen ht
  rcases hm.make_storeTable hr hw he x.1 t' with ⟨why, hmake⟩ | ⟨d'', hmake, hm'⟩
  · cases hs.symm.trans hmake
  · cases hs.symm.trans hmake
    refine ⟨⟨place, d₀, _, hr, hw', hm'⟩, fun listings' => ?_⟩
    rw [hm'.openTable_eq hr hw', ho']
    rfl

/-- **Revising a table of a mirror**: either no version can be stored, or each can; then it is opened
under the same name, and a version after it is stored as if it were the first. -/
theorem storeTable_cases (h : d.Mirrored root)
    (ho : (Engine.below root listings).openTable session d name = .ok (stored, t)) :
    (∀ t', ∃ e, d.storeTable stored.key t' = (.error e, d)) ∨
      ∀ t', t'.WellFormed → ∃ d', d.storeTable stored.key t' = (.ok (), d') ∧ d'.Mirrored root ∧
        (∀ listings', (Engine.below root listings').openTable session d' name = .ok (stored, t')) ∧
        ∀ t'', d'.storeTable stored.key t'' = d.storeTable stored.key t'' := by
  refine (isFile_of_openTable ho).storeTable_cases.imp_right fun hroom t' ht => ?_
  obtain ⟨d', hs, -, hagain⟩ := hroom t'
  obtain ⟨hm', ho'⟩ := h.of_storeTable ho ht hs
  exact ⟨d', hs, hm', ho', hagain⟩

/-- After a revision that succeeds the new version is opened, or the old one if there is none. -/
theorem openTable_revise (h : d.Mirrored root)
    (ho : (Engine.below root listings).openTable session d name = .ok (stored, t))
    {revised : Option Table} (ht : ∀ t', revised = some t' → t'.WellFormed) {result : Option ResultSet}
    (hok : (d.revise session stored.key (.ok revised)).result = .ok result)
    (listings' : Nat → Listing) :
    (Engine.below root listings').openTable session (d.revise session stored.key (.ok revised)).disk
      name = .ok (stored, revised.getD t) := by
  cases revised with
  | none => exact (h.openTable_eq listings' listings session name).trans ho
  | some t' =>
      rcases hs : d.storeTable stored.key t' with ⟨what | _, d'⟩
      · rw [revise_of_error hs] at hok
        cases hok
      · rw [revise_of_ok hs]
        exact (h.of_storeTable ho (ht t' rfl) hs).2 listings'

end Disk.Mirrored

/-- Runs in which no counter reaches the largest id reach mirrors with ids in order. -/
theorem exists_ordered_after (h : d.list (.ofText root) = .ok []) {events : List Event}
    (hu : (World.start d).Unexhausted root events) :
    ∃ place m, EmptyRoot root place d ∧ m.WellFormed ∧ m.Ordered ∧
      Memory.Mirrors root place d m ((World.start d).after root events).store := by
  obtain ⟨place, hr⟩ := emptyRoot_of_list h
  obtain ⟨-, -, m, hw, hordered, hm⟩ := ordered_after hr (w := World.start d)
    (Memory.mirrors_empty hr) Memory.wellFormed_empty Memory.ordered_empty hu
  exact ⟨place, m, hr, hw, hordered, hm⟩

/-- **Ids are not used twice** in a table of a disk that a run reaches. -/
theorem nodup_ids_after (h : d.list (.ofText root) = .ok []) {events : List Event}
    (hu : (World.start d).Unexhausted root events) {listings : Nat → Listing} {session : Session}
    {name : Text} {stored : Stored Path} {t : Table}
    (ho : (Engine.below root listings).openTable session ((World.start d).after root events).store name =
      .ok (stored, t)) : (t.rows.map Row.id).Nodup := by
  obtain ⟨place, m, hr, hw, hordered, hm⟩ := exists_ordered_after h hu
  obtain ⟨e, he, x, hx, -, rfl, -⟩ := hm.exists_of_openTable hr hw ho
  exact (hordered e he x hx).1.imp Nat.ne_of_lt

end mirrors

end FlatDb
