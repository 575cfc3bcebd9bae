import FlatDb.Proofs.Reachable

/-! # The order of directory listings

A database or a table is looked up in a listing of a directory, and the first entry that fits is the
one that is found.  Listings come in any order, and in another one at each lookup.

* `Disk.Unambiguous`: no two directories below the root have the same name up to case, and no two
  table files of one of them have.
* On such a disk **a lookup finds the same in all orders** (`Unambiguous.simulates`), so a call has
  the same reply whichever way directories are listed (`Unambiguous.onDisk_eq`).
* Runs that begin with an empty root reach no other disks.  `history_eq_of_requests`: **nothing in a
  run tells how directories were listed**. -/

namespace FlatDb

open Text Node

/-! ### Names that are apart -/

/-- No two of these names are the same up to case. -/
def Text.Apart (names : List Text) : Prop := names.Pairwise fun a b => sameName a b = false

theorem Text.Apart.perm {names names' : List Text} (h : Apart names) (hp : names'.Perm names) :
    Apart names' :=
  (hp.pairwise_iff fun hs => by rwa [sameName_comm]).mpr h

/-- A search has the same result in all orders, if at most one entry passes the test. -/
theorem find?_eq_of_perm {α : Type} {p : α → Bool} {l l' : List α} (hp : l.Perm l')
    (hu : (l'.filter p).length ≤ 1) : l.find? p = l'.find? p := by
  have hf : (l.filter p).Perm (l'.filter p) := hp.filter p
  rw [← List.head?_filter, ← List.head?_filter]
  cases hl : l'.filter p with
  | nil =>
      rw [hl] at hf
      rw [hf.eq_nil]
  | cons a more =>
      have hmore : more = [] := by
        rw [hl, List.length_cons] at hu
        exact List.eq_nil_of_length_eq_zero (by omega)
      rw [hl, hmore] at hf
      rw [hf.eq_singleton, hmore]

/-- If the names of some entries are apart, at most one of the entries has a given name. -/
theorem length_filter_le_one {α : Type} {p q : α → Bool} {name : α → Text} {wanted : Text}
    {entries : List α} (h : Apart ((entries.filter q).map name))
    (hp : ∀ e, p e = true → q e = true ∧ sameName (name e) wanted = true) :
    (entries.filter p).length ≤ 1 := by
  have hpq : (entries.filter q).filter p = entries.filter p := by
    rw [List.filter_filter]
    refine List.filter_congr fun e _ => ?_
    cases he : p e with
    | false => rfl
    | true => simp [(hp e he).1]
  have hapart : (entries.filter p).Pairwise fun a b => sameName (name a) (name b) = false := by
    rw [← hpq]
    exact (List.pairwise_map.mp h).filter p
  cases hl : entries.filter p with
  | nil => exact Nat.zero_le 1
  | cons a more =>
      cases more with
      | nil => exact Nat.le_refl 1
      | cons b more =>
          have ha : a ∈ entries.filter p := hl ▸ List.mem_cons_self
          have hb : b ∈ entries.filter p := hl ▸ List.mem_cons_of_mem a List.mem_cons_self
          rw [hl] at hapart
          have hne := (List.pairwise_cons.mp hapart).1 b List.mem_cons_self
          have hsame := sameName_trans (hp a (List.mem_filter.mp ha).2).2
            (sameName_comm _ _ ▸ (hp b (List.mem_filter.mp hb).2).2)
          rw [hsame] at hne
          cases hne

/-! ### Disks without ambiguity -/

/-- An entry is a directory. -/
def Node.isFolder : Node → Bool
  | .directory _ => true
  | .file _ => false

namespace Disk

/-- An entry that can be a table: a file with the extension `tab` in any case. -/
def isTabFile (e : Text × Node) : Bool :=
  !e.2.isFolder && (Path.extension? e.1).any fun x => sameName x Path.tableExtension

/-- No two directories of the root, and no two table files of one of them, have the same name up to
case. -/
structure Unambiguous (d : Disk) (root : Path) : Prop where
  databases : ∀ {entries : List (Text × Node)}, d.list root = .ok entries →
    Apart ((entries.filter (·.2.isFolder)).map Prod.fst)
  tables : ∀ {entries : List (Text × Node)}, d.list root = .ok entries →
    ∀ {name : Text} {below : List (Text × Node)}, (name, .directory below) ∈ entries →
      Apart ((below.filter isTabFile).map fun e => Path.stem e.1)

theorem isFolder_of_isDatabase {name : Text} {e : Text × Node} (h : isDatabase name e = true) :
    e.2.isFolder = true ∧ sameName e.1 name = true := by
  obtain ⟨entry, _ | _⟩ := e
  · cases h
  · exact ⟨rfl, h⟩

theorem isTabFile_of_isTable {dir : Path} {name : Text} {e : Text × Node}
    (h : isTable dir name e = true) :
    isTabFile e = true ∧ sameName (Path.stem e.1) name = true := by
  obtain ⟨entry, _ | _⟩ := e
  · simp only [isTable, Bool.and_eq_true] at h
    obtain ⟨⟨-, hx⟩, hs⟩ := h
    refine ⟨?_, hs⟩
    cases hext : Path.extension? entry with
    | none =>
        rw [hext] at hx
        cases hx
    | some extension =>
        rw [hext] at hx
        simpa [isTabFile, isFolder, hext] using hx
  · cases h

/-- What is listed for a child of a root stands there as a directory. -/
theorem exists_below_of_list_child {d : Disk} {root : Path} {name : Text}
    {entries files : List (Text × Node)} (h : d.list root = .ok entries) (hn : name ≠ absolute)
    (hf : d.list (root.child name) = .ok files) :
    ∃ below, (name, .directory below) ∈ entries ∧ files = Entries.erase absolute below := by
  obtain ⟨place, all, hr, ha, rfl⟩ := list_eq_ok_iff.mp h
  obtain ⟨place', below, hr', hb, rfl⟩ := list_eq_ok_iff.mp hf
  have hplace : place' = place ++ [name] := by
    have hl := locate_child (resolve_eq_ok_iff.mp hr).2 name
    rw [(resolve_eq_ok_iff.mp hr').2] at hl
    exact Except.ok.inj hl
  subst hplace
  have hm := Entries.mem_of_lookup ((entriesAt_child_iff ha).mp hb).2
  exact ⟨below, List.mem_filter.mpr ⟨hm, by simpa using hn⟩, rfl⟩

/-- A database that is found is a directory of the root, under its name. -/
theorem exists_of_findDatabase {d : Disk} {l : Listing} {root : Path} {name : Text}
    {stored : Stored Path} (h : d.findDatabase l.order root name = some stored) :
    ∃ entries below, d.list root = .ok entries ∧ (stored.name, .directory below) ∈ entries ∧
      sameName stored.name name = true ∧ stored.key = root.child stored.name := by
  unfold findDatabase at h
  split at h
  · cases h
  · next entries hl =>
      obtain ⟨⟨entry, node⟩, hfind, rfl⟩ := Option.map_eq_some_iff.mp h
      have hmem := (l.perm entries).subset (List.mem_of_find?_eq_some hfind)
      have htest := List.find?_some hfind
      cases node with
      | file bytes => cases htest
      | directory below => exact ⟨entries, below, hl, hmem, htest, rfl⟩

namespace Unambiguous

variable {d : Disk} {root : Path} (h : d.Unambiguous root)
include h

theorem findDatabase_eq (l l' : Listing) (name : Text) :
    d.findDatabase l.order root name = d.findDatabase l'.order root name := by
  unfold findDatabase
  cases hl : d.list root with
  | error cause => rfl
  | ok entries =>
      have hu := length_filter_le_one (h.databases hl) fun e (he : isDatabase name e = true) =>
        isFolder_of_isDatabase he
      dsimp only
      rw [find?_eq_of_perm (l.perm entries) hu, find?_eq_of_perm (l'.perm entries) hu]

theorem findTable_eq (l l' : Listing) {entries : List (Text × Node)} {entry : Text}
    {node : Node} (hl : d.list root = .ok entries) (he : (entry, node) ∈ entries) (name : Text) :
    d.findTable l.order (root.child entry) name = d.findTable l'.order (root.child entry) name := by
  have hne : entry ≠ absolute := by
    obtain ⟨place, all, -, -, rfl⟩ := list_eq_ok_iff.mp hl
    simpa using (List.mem_filter.mp he).2
  unfold findTable
  cases hf : d.list (root.child entry) with
  | error cause => rfl
  | ok files =>
      obtain ⟨below, hb, rfl⟩ := exists_below_of_list_child hl hne hf
      have hapart : Apart (((Entries.erase absolute below).filter isTabFile).map
          fun e => Path.stem e.1) :=
        (h.tables hl hb).sublist (((Entries.erase_sublist absolute below).filter _).map _)
      have hu := length_filter_le_one hapart fun e (he : isTable (root.child entry) name e = true) =>
        isTabFile_of_isTable he
      dsimp only
      rw [find?_eq_of_perm (l.perm _) hu, find?_eq_of_perm (l'.perm _) hu]

/-- **Lookups find the same**, whichever way directories are listed. -/
theorem simulates (listings listings' : Nat → Listing) :
    (d.catalog (fun n => (listings n).order) root).Simulates
      (d.catalog (fun n => (listings' n).order) root) id where
  database? name := by
    change d.findDatabase _ root name = (d.findDatabase _ root name).map id
    rw [h.findDatabase_eq (listings 0) (listings' 0), Option.map_id, id]
  table? hd n name := by
    obtain ⟨entries, below, hl, hmem, -, hkey⟩ := exists_of_findDatabase (l := listings' 0) hd
    change d.findTable _ _ name = (d.findTable _ _ name).map (Option.map id)
    rw [id, hkey, h.findTable_eq (listings (n + 1)) (listings' (n + 1)) hl hmem]
    cases d.findTable (listings' (n + 1)).order _ name with
    | error e => rfl
    | ok found => rw [Except.map, Option.map_id, id]
  vacant _ _ _ := rfl
  load _ _ := rfl
  counters := rfl

end Unambiguous

end Disk

/-! ### Calls -/

theorem Plan.map_id {κ : Type} (p : Plan κ) : p.map id = p := by
  have hid : (Change.map id : Change κ → Change κ) = id := by
    funext change
    cases change <;> rfl
  rw [Plan.map, hid, List.map_id]

/-- Who calls and with what, without the listings of directories. -/
def Call.request (c : Call) : Nat × Text := (c.client, c.input)

/-- Engines with one root that plan a command alike carry it out alike. -/
theorem Engine.run_congr (e e' : Engine) (hroot : e.root = e'.root) {session : Session} {d : Disk}
    {c : Command}
    (hplan : c.plan (d.catalog e.order e.root) session = c.plan (d.catalog e'.order e'.root) session) :
    e.run session d c = e'.run session d c := by
  unfold run perform
  rw [hplan, hroot]

/-- A command that fails leaves its session as it was. -/
theorem Engine.session_of_error {e : Engine} {session : Session} {d : Disk} {c : Command}
    {why : Error} (h : (e.run session d c).result = .error why) :
    (e.run session d c).session = session := by
  unfold run perform at h ⊢
  split
  · next p hp =>
      rw [hp] at h
      dsimp only at h ⊢
      split
      · next hmade =>
          rw [hmade] at h
          cases h
      · rfl
  · rfl

/-- **A call has the same reply**, whichever way directories are listed. -/
theorem Disk.Unambiguous.onDisk_eq {d : Disk} {root : Text} (h : d.Unambiguous (.ofText root))
    {c c' : Call} (hc : c.input = c'.input) (session : Session) :
    c.onDisk root session d = c'.onDisk root session d := by
  have hplan {command : Command} (hp : Command.parse c.input = .ok command) :
      command.plan (d.catalog (c.engine root).order (.ofText root)) session =
        command.plan (d.catalog (c'.engine root).order (.ofText root)) session := by
    have hmap := Command.plan_map (h.simulates c.listings c'.listings) session
      (Command.proper_of_parse hp)
    refine hmap.trans ?_
    change Except.map (Plan.map id) (command.plan (d.catalog (c'.engine root).order _) session) = _
    cases command.plan (d.catalog (c'.engine root).order (.ofText root)) session with
    | error why => rfl
    | ok p => exact congrArg Except.ok p.map_id
  have hrun : (c.engine root).runText session d c.input =
      (c'.engine root).runText session d c.input := by
    unfold Engine.runText
    cases hp : Command.parse c.input with
    | error why => rfl
    | ok command => exact Engine.run_congr (c.engine root) (c'.engine root) rfl (hplan hp)
  unfold Call.onDisk
  rw [hrun, hc]

/-! ### Runs -/

namespace World

variable {σ : Type}

/-- The replies to calls: each with the response, the session and what is stored after it. -/
def history (answer : Call → Session → σ → Reply σ) : World σ → List Call → List (Reply σ)
  | _, [] => []
  | w, c :: more =>
    let r := answer c (w.sessions c.client) w.store
    r :: history answer (w.receive c.client r) more

end World

section runs
variable {root : Text} {place : Place} {d₀ d : Disk} {m : Memory}

theorem entries_isFolder (m : Memory) :
    (m.entries.filter (·.2.isFolder)).map Prod.fst = m.databases.map Prod.fst := by
  have hreg : (Memory.registryEntries m.counters).filter (·.2.isFolder) = [] := by
    refine List.filter_eq_nil_iff.mpr fun e he => ?_
    rw [(Memory.mem_registryEntries he).2]
    exact Bool.false_ne_true
  have hall : ((m.databases.map fun e => (e.1, Memory.databaseNode e.2)).filter (·.2.isFolder)) =
      m.databases.map fun e => (e.1, Memory.databaseNode e.2) := by
    refine List.filter_eq_self.mpr fun e he => ?_
    obtain ⟨x, -, rfl⟩ := List.mem_map.mp he
    rfl
  rw [Memory.entries, List.filter_append, hreg, hall, List.nil_append, List.map_map]
  rfl

theorem apart_of_databaseNode (hw : m.WellFormed) {e : Text × List (Text × Table)}
    (he : e ∈ m.databases) {below : List (Text × Node)}
    (hb : Memory.databaseNode e.2 = .directory below) :
    Apart ((below.filter Disk.isTabFile).map fun x => Path.stem x.1) := by
  cases hb
  have hstems : (e.2.map fun x => (Path.fileOf x.1, Memory.tableNode x.2)).map
      (fun x => Path.stem x.1) = e.2.map Prod.fst := by
    rw [List.map_map]
    exact List.map_congr_left fun x hx => Path.stem_fileOf (Memory.isName_table hw he hx).1
  have hsub := (List.filter_sublist (p := Disk.isTabFile)
    (l := e.2.map fun x => (Path.fileOf x.1, Memory.tableNode x.2))).map fun x => Path.stem x.1
  rw [hstems] at hsub
  exact (hw.tables e he).2.sublist hsub

/-- A disk that mirrors a well-formed memory is unambiguous. -/
theorem Memory.Mirrors.unambiguous (h : m.Mirrors root place d₀ d) (hr : EmptyRoot root place d₀)
    (hw : m.WellFormed) : d.Unambiguous (.ofText root) := by
  obtain ⟨es, hes, hp⟩ := h.list_root hr
  constructor
  · intro entries hl
    rw [hes] at hl
    cases hl
    refine Text.Apart.perm ?_ ((hp.filter _).map _)
    rw [entries_isFolder]
    exact hw.databases.2
  · intro entries hl name below hm
    rw [hes] at hl
    cases hl
    rcases Memory.mem_entries (hp.subset hm) with ⟨-, he⟩ | ⟨x, hx, he⟩
    · cases he
    · exact apart_of_databaseNode hw hx (congrArg Prod.snd he).symm

/-- On a disk that mirrors a memory, and so on all that follow, listings are not seen. -/
theorem history_eq_of_mirrors (hr : EmptyRoot root place d₀) {w : World Disk}
    (h : m.Mirrors root place d₀ w.store) (hw : m.WellFormed) {calls calls' : List Call}
    (hc : calls.map Call.request = calls'.map Call.request) :
    w.history (Call.onDisk root) calls = w.history (Call.onDisk root) calls' := by
  induction calls generalizing w m calls' with
  | nil =>
      rw [List.map_nil, eq_comm, List.map_eq_nil_iff] at hc
      rw [hc]
  | cons c more ih =>
      obtain ⟨c', more', rfl, hcc, hmore⟩ := List.map_eq_cons_iff.mp hc.symm
      obtain ⟨hclient, hinput⟩ := Prod.mk.inj hcc
      have hreply := (h.unambiguous hr hw).onDisk_eq hinput (w.sessions c.client)
      obtain ⟨m', hw', h'⟩ := mirrors_after hr h hw [.call c]
      have hafter : w.after root [.call c] =
          w.receive c.client (c.onDisk root (w.sessions c.client) w.store) := rfl
      rw [hafter] at h'
      rw [World.history, World.history]
      rw [hclient, hreply, ih h' hw' hmore.symm]

/-- **The order of directory listings does not matter.**  In every state that a run from an empty root
reaches, no two databases and no two table files of one database have the same name up to case; and
two runs in which the same clients call with the same texts give the same responses, the same sessions
and the same disks throughout, in whichever orders each of them lists directories. -/
theorem history_eq_of_requests (h : d.list (.ofText root) = .ok []) :
    (∀ events, ∃ entries,
      ((World.start d).after root events).store.list (.ofText root) = .ok entries ∧
        ((World.start d).after root events).store.Unambiguous (.ofText root)) ∧
    ∀ calls calls' : List Call, calls.map Call.request = calls'.map Call.request →
      (World.start d).history (Call.onDisk root) calls =
        (World.start d).history (Call.onDisk root) calls' := by
  obtain ⟨place, hr⟩ := emptyRoot_of_list h
  have hstart : Memory.empty.Mirrors root place d (World.start d).store := Memory.mirrors_empty hr
  refine ⟨fun events => ?_, fun calls calls' hc => ?_⟩
  · obtain ⟨m, hw, hm⟩ := mirrors_after hr hstart Memory.wellFormed_empty events
    obtain ⟨entries, hl, -⟩ := hm.list_root hr
    exact ⟨entries, hl, hm.unambiguous hr hw⟩
  · exact history_eq_of_mirrors hr hstart Memory.wellFormed_empty hc

end runs

/-- The order in which the entries are kept, backwards. -/
def Listing.backwards : Listing := ⟨List.reverse, List.reverse_perm⟩

/-- Calls of two clients that look up databases and tables among several. -/
def lookups : List Call :=
  [.of 0 "CREATE DATABASE Shop;", .of 1 "CREATE DATABASE Store;", .of 0 "USE shop;", .of 1 "USE SHOP;",
    .of 0 "CREATE TABLE t (a);", .of 1 "CREATE TABLE u (a);", .of 0 "CREATE TABLE T (b);",
    .of 1 "INSERT INTO U VALUES('x');", .of 0 "JOIN t AND u ON a AND a;"]

theorem history_eq_lookups :
    (∃ entries, ((World.start exampleDisk).after "data".toList exampleRun).store.list
        (.ofText "data".toList) = .ok entries ∧
      ((World.start exampleDisk).after "data".toList exampleRun).store.Unambiguous
        (.ofText "data".toList)) ∧
    (World.start exampleDisk).history (Call.onDisk "data".toList) lookups =
      (World.start exampleDisk).history (Call.onDisk "data".toList)
        (lookups.map fun c => { c with listings := fun _ => .backwards }) := by
  have hempty : exampleDisk.list (.ofText "data".toList) = .ok [] := rfl
  obtain ⟨hstates, hruns⟩ := history_eq_of_requests hempty
  exact ⟨hstates exampleRun, hruns lookups _ rfl⟩

end FlatDb
