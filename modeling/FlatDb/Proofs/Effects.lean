import FlatDb.Proofs.Insertion
import FlatDb.Proofs.Lawful
import FlatDb.Run

/-! # What commands touch

A command touches what it names and nothing else, whatever stands below the root, whichever database
is selected and however directories are listed.

* `Session.TableFile` says which file a table's name stands for: it lies in a directory of the root
  with the name of the selected database, its stem is the name of the table and its extension is
  `tab`, all three up to case.
* `Command.Effect` lists all that a command can do to a disk, each case with a frame: **which places
  look different afterwards** (`Node.AgreeBut`).
* `Command.effect_of_planned`: the planned changes have one of these effects, also when one of them
  fails; no temporary file is left.
* `effect_onDisk`: **so has every call**, and nothing is touched outside of the root. -/

namespace FlatDb

open Text Node

/-! ### Effects -/

/-- Two disks look the same at all places but some. -/
def Node.AgreeBut (changed : Place → Prop) (d d' : Disk) : Prop :=
  ∀ q, ¬ changed q → d'.look q = d.look q

/-- There is a file at a place. -/
def Node.HasFile (d : Disk) (place : Place) : Prop := ∃ bytes, d.look place = some (some bytes)

/-- The place of a file that stands for a table's name in a session: in a directory of the root that
has the name of the selected database. -/
inductive Session.TableFile (session : Session) (root : Place) (d : Disk) (name : Text) : Place → Prop where
  | intro {selected database entry extension : Text} (hselected : session.database = some selected)
      (hdatabase : sameName database selected = true)
      (hdirectory : d.look (root ++ [database]) = some none)
      (hstem : sameName (Path.stem entry) name = true)
      (hextension : Path.extension? entry = some extension)
      (htab : sameName extension Path.tableExtension = true) :
      TableFile session root d name (root ++ [database] ++ [entry])

namespace Command

/-- The table that a command replaces by another version. -/
def revised? : Command → Option Text
  | alter name _ _ | update name _ _ | delete name _ => some name
  | _ => none

/-- All that a command can do to a disk. -/
inductive Effect (root : Place) (session : Session) (d d' : Disk) : Command → Prop where
  | nothing (c : Command) (h : d' = d) : Effect root session d d' c
  | createDatabase {name : Text} (hbefore : d.look (root ++ [name]) = none)
      (hafter : d'.entriesAt (root ++ [name]) = .ok [])
      (hframe : AgreeBut (· = root ++ [name]) d d') :
      Effect root session d d' (.createDatabase name)
  | dropDatabase {name entry : Text} (hn : sameName entry name = true)
      (hbefore : d.look (root ++ [entry]) = some none)
      (hafter : ∀ q, root ++ [entry] <+: q → d'.look q = none)
      (hframe : AgreeBut (root ++ [entry] <+: ·) d d') :
      Effect root session d d' (.dropDatabase name)
  | createTable {name : Text} {columns : List Text} {file : Place}
      (hfile : session.TableFile root d name file) (hbefore : d.look file = none)
      (hafter : d'.HasFile file) (hframe : AgreeBut (· = file) d d') :
      Effect root session d d' (.createTable name columns)
  | dropTable {name : Text} {file : Place} (hfile : session.TableFile root d name file)
      (hbefore : d.HasFile file) (hafter : d'.look file = none) (hframe : AgreeBut (· = file) d d') :
      Effect root session d d' (.dropTable name)
  | revise {c : Command} {name : Text} {file : Place} (hc : c.revised? = some name)
      (hfile : session.TableFile root d name file) (hbefore : d.HasFile file)
      (hafter : d'.HasFile file) (hframe : AgreeBut (· = file) d d') : Effect root session d d' c
  | insert {name : Text} {values : List Literal} {file : Place}
      (hfile : session.TableFile root d name file) (hbefore : d.HasFile file)
      (hafter : d'.HasFile file) (hregistry : d.look (root ++ [registryName]) ≠ some none)
      (hregistry' : d'.HasFile (root ++ [registryName]))
      (hframe : AgreeBut (fun q => q = file ∨ q = root ++ [registryName]) d d') :
      Effect root session d d' (.insert name values)

/-- Whatever a command does, it does strictly below the root. -/
theorem Effect.look_outside {root : Place} {session : Session} {d d' : Disk} {c : Command}
    (h : c.Effect root session d d') {q : Place} (hq : ∀ name more, q ≠ root ++ name :: more) :
    d'.look q = d.look q := by
  cases h with
  | nothing _ h => rw [h]
  | @createDatabase name _ _ hframe => exact hframe q (hq name [])
  | @dropDatabase _ entry _ _ _ hframe =>
      refine hframe q ?_
      rintro ⟨more, rfl⟩
      exact hq entry more (List.append_assoc root [entry] more)
  | createTable hfile _ _ hframe =>
      obtain @⟨_, database, entry⟩ := hfile
      exact hframe q fun h => hq database [entry] (by rw [h, List.append_assoc]; rfl)
  | dropTable hfile _ _ hframe =>
      obtain @⟨_, database, entry⟩ := hfile
      exact hframe q fun h => hq database [entry] (by rw [h, List.append_assoc]; rfl)
  | revise _ hfile _ _ hframe =>
      obtain @⟨_, database, entry⟩ := hfile
      exact hframe q fun h => hq database [entry] (by rw [h, List.append_assoc]; rfl)
  | insert hfile _ _ _ _ hframe =>
      obtain @⟨_, database, entry⟩ := hfile
      refine hframe q fun h => ?_
      rcases h with h | h
      · exact hq database [entry] (by rw [h, List.append_assoc]; rfl)
      · exact hq registryName [] h

end Command

/-! ### What lookups find -/

section lookups
variable {root : Text} {place : Place} {entries : List (Text × Node)} {d : Disk}

theorem Disk.isTable_file_iff {dir : Path} {name entry : Text} {bytes : ByteArray} :
    isTable dir name (entry, .file bytes) = true ↔
      (dir.child entry).fault? = none ∧
        (∃ extension, Path.extension? entry = some extension ∧
          sameName extension Path.tableExtension = true) ∧
        sameName (Path.stem entry) name = true := by
  cases hx : Path.extension? entry <;> simp [isTable, hx, and_assoc]

/-- A database that is found is a directory of the root. -/
theorem lookup_of_findDatabase (hd : d.Lawful) (hr : d.resolve (.ofText root) = .ok place)
    (he : d.entriesAt place = .ok entries) {l : Listing} {name : Text} {stored : Stored Path}
    (h : d.findDatabase l.order (.ofText root) name = some stored) :
    stored.key = (Path.ofText root).child stored.name ∧ sameName stored.name name = true ∧
      ∃ below, entries.lookup stored.name = some (.directory below) := by
  have hlist : d.list (.ofText root) = .ok (Entries.erase absolute entries) :=
    list_eq_ok_iff.mpr ⟨place, entries, hr, he, rfl⟩
  unfold Disk.findDatabase at h
  rw [hlist] at h
  obtain ⟨⟨entry, node⟩, hfind, rfl⟩ := Option.map_eq_some_iff.mp h
  have hmem := Entries.mem_of_mem_erase ((l.perm _).subset (List.mem_of_find?_eq_some hfind))
  have hname := List.find?_some hfind
  cases node with
  | file bytes => cases hname
  | directory below => exact ⟨rfl, hname, below, Entries.lookup_of_mem (hd place entries he) hmem⟩

/-- A table that is found is a file of the directory that was searched. -/
theorem lookup_of_findTable (hd : d.Lawful) {dir : Path} {here : Place}
    (hl : d.locate dir = .ok here) (he : d.entriesAt here = .ok entries) {l : Listing} {name : Text}
    {stored : Stored Path} (h : d.findTable l.order dir name = .ok (some stored)) :
    ∃ entry bytes, stored = ⟨Path.stem entry, dir.child entry⟩ ∧
      Disk.isTable dir name (entry, .file bytes) = true ∧
      entries.lookup entry = some (.file bytes) := by
  unfold Disk.findTable at h
  split at h
  · cases h
  · next es hlist =>
      obtain ⟨place', all, hr', ha, rfl⟩ := list_eq_ok_iff.mp hlist
      rw [(resolve_eq_ok_iff.mp hr').2, Except.ok.injEq] at hl
      subst hl
      rw [he, Except.ok.injEq] at ha
      subst ha
      rw [Except.ok.injEq] at h
      obtain ⟨⟨entry, node⟩, hfind, rfl⟩ := Option.map_eq_some_iff.mp h
      have hmem := Entries.mem_of_mem_erase ((l.perm _).subset (List.mem_of_find?_eq_some hfind))
      have htest := List.find?_some hfind
      cases node with
      | directory below => cases htest
      | file bytes =>
          exact ⟨entry, bytes, rfl, htest, Entries.lookup_of_mem (hd place' entries he) hmem⟩

/-- If no table is found, no file of the directory passes for the table. -/
theorem not_isTable_of_findTable {dir : Path} {here : Place} (hl : d.locate dir = .ok here)
    (he : d.entriesAt here = .ok entries) {l : Listing} {name : Text}
    (h : d.findTable l.order dir name = .ok none) {entry : Text} {node : Node}
    (hne : entry ≠ absolute) (hlookup : entries.lookup entry = some node) :
    Disk.isTable dir name (entry, node) = false := by
  unfold Disk.findTable at h
  split at h
  · cases h
  · next es hlist =>
      obtain ⟨place', all, hr', ha, rfl⟩ := list_eq_ok_iff.mp hlist
      rw [(resolve_eq_ok_iff.mp hr').2, Except.ok.injEq] at hl
      subst hl
      rw [he, Except.ok.injEq] at ha
      subst ha
      rw [Except.ok.injEq, Option.map_eq_none_iff] at h
      have hmem : (entry, node) ∈ Entries.erase absolute entries :=
        List.mem_filter.mpr ⟨Entries.mem_of_lookup hlookup, by simpa using hne⟩
      have := List.find?_eq_none.mp h _ ((l.perm _).symm.subset hmem)
      simpa using this

end lookups

/-! ### Planned changes -/

section planned
variable {root : Text} {place : Place} {entries : List (Text × Node)} {d : Disk}
  {listings : Nat → Listing} {session : Session}

theorem Change.makeAll_singleton (root : Path) (d : Disk) (change : Change Path) :
    makeAll root d [change] = change.make root d := by
  rw [makeAll]
  split <;> simp_all [makeAll]

theorem effect_createDatabase (hr : d.resolve (.ofText root) = .ok place)
    (he : d.entriesAt place = .ok entries) {name : Text} (hn : IsName name) :
    (Command.createDatabase name).Effect place session d
      (Change.make (.ofText root) d (.createDatabase name)).2 := by
  have hl := (resolve_eq_ok_iff.mp hr).2
  rw [Change.make, StorageError.snd_ofDisk, makeDirectories_child hl he hn]
  split
  · exact .nothing _ rfl
  · split
    · exact .nothing _ rfl
    · next hs =>
        have hs := Nat.le_of_not_lt hs
        split
        · exact .nothing _ rfl
        · exact .nothing _ rfl
        · next hlookup =>
            exact .createDatabase (look_of_lookup_none he hlookup List.prefix_rfl)
              (entriesAt_put_directory he hs) fun q hq => look_put_directory_of_ne he hs hlookup hq

/-- Removing an entry of a directory fails or takes the entry away. -/
theorem discard_child {p : Path} {here : Place} (hl : d.locate p = .ok here) (name : Text) :
    (d.discard (p.child name)).2 = d ∨
      (d.discard (p.child name)).2 = d.erase here name ∧
        ∃ node, d.find (here ++ [name]) = .ok node := by
  unfold Disk.discard
  cases hf : (p.child name).fault? with
  | some cause =>
      have hres : d.resolve (p.child name) = .error cause := by
        unfold resolve
        rw [hf]
      have hrem : d.remove (p.child name) = .error cause := by
        unfold remove
        rw [hres]
        rfl
      rw [hrem]
      exact .inl rfl
  | none =>
      rw [remove_of_resolve (resolve_child hl hf)]
      cases hfind : d.find (here ++ [name]) with
      | error cause => exact .inl rfl
      | ok node => exact .inr ⟨rfl, node, rfl⟩

theorem effect_dropDatabase (hd : d.Lawful) (hr : d.resolve (.ofText root) = .ok place)
    (he : d.entriesAt place = .ok entries) {l : Listing} {name : Text} {database : Stored Path}
    (h : d.findDatabase l.order (.ofText root) name = some database) :
    (Command.dropDatabase name).Effect place session d (d.discard database.key).2 := by
  obtain ⟨hkey, hname, below, hlookup⟩ := lookup_of_findDatabase hd hr he h
  rw [hkey]
  rcases discard_child (resolve_eq_ok_iff.mp hr).2 database.name with hsame | ⟨herase, node, hfind⟩
  · exact .nothing _ hsame
  · rw [herase]
    have hnode : node = .directory below := by
      rw [find_child he, hlookup] at hfind
      split at hfind
      · cases hfind
      · exact (Except.ok.inj hfind).symm
    have hdir : d.look (place ++ [database.name]) = some none := by
      unfold look
      rw [hfind, hnode]
    exact .dropDatabase hname hdir (fun q hq => look_erase_self he hq)
      fun q hq => look_alter (changesOnly_erase _) hq d

/-- The directory of a database in which tables were searched. -/
theorem directory_of_lookups (hd : d.Lawful) (hr : d.resolve (.ofText root) = .ok place)
    (he : d.entriesAt place = .ok entries) {l l' : Listing} {selected name : Text}
    {database : Stored Path} {found : Option (Stored Path)}
    (h : d.findDatabase l.order (.ofText root) selected = some database)
    (hf : d.findTable l'.order database.key name = .ok found) :
    sameName database.name selected = true ∧
      d.locate database.key = .ok (place ++ [database.name]) ∧
      ∃ es, d.entriesAt (place ++ [database.name]) = .ok es := by
  obtain ⟨hkey, hname, -⟩ := lookup_of_findDatabase hd hr he h
  have hlocate : d.locate database.key = .ok (place ++ [database.name]) := by
    rw [hkey]
    exact locate_child (resolve_eq_ok_iff.mp hr).2 _
  obtain ⟨here, es, hl, hes⟩ := locate_of_findTable hf
  rw [hlocate, Except.ok.injEq] at hl
  exact ⟨hname, hlocate, es, hl ▸ hes⟩

/-- What is found as a table is the file of the table's name. -/
theorem tableFile_of_isTable {selected name entry : Text} {database : Stored Path}
    {es : List (Text × Node)} {bytes : ByteArray} (hs : session.database = some selected)
    (hname : sameName database.name selected = true)
    (hes : d.entriesAt (place ++ [database.name]) = .ok es)
    (htable : Disk.isTable database.key name (entry, .file bytes) = true) :
    session.TableFile place d name (place ++ [database.name] ++ [entry]) := by
  obtain ⟨-, ⟨extension, hx, htab⟩, hstem⟩ := Disk.isTable_file_iff.mp htable
  exact .intro hs hname (look_eq_directory_iff.mpr ⟨es, hes⟩) hstem hx htab

theorem hasFile_put {dir : Place} {es : List (Text × Node)} (hes : d.entriesAt dir = .ok es)
    {entry : Text} (hsize : entry.size ≤ maxNameSize) (bytes : ByteArray) :
    (d.put dir entry (.file bytes)).HasFile (dir ++ [entry]) := ⟨bytes, look_put_self hes hsize bytes⟩

theorem hasFile_of_lookup {dir : Place} {es : List (Text × Node)} (hes : d.entriesAt dir = .ok es)
    {entry : Text} (hsize : entry.size ≤ maxNameSize) {bytes : ByteArray}
    (h : es.lookup entry = some (.file bytes)) : d.HasFile (dir ++ [entry]) := by
  refine ⟨bytes, ?_⟩
  unfold look
  rw [find_child hes, if_neg (Nat.not_lt.mpr hsize), h]

theorem effect_createTable (hd : d.Lawful) (hr : d.resolve (.ofText root) = .ok place)
    (he : d.entriesAt place = .ok entries) {l l' : Listing} {selected name : Text}
    {columns : List Text} {database : Stored Path} (hn : IsName name)
    (hs : session.database = some selected)
    (hdatabase : d.findDatabase l.order (.ofText root) selected = some database)
    (hf : d.findTable l'.order database.key name = .ok none) (t : Table) :
    (Command.createTable name columns).Effect place session d
      (d.storeTable (Path.ofTable database.key name) t).2 := by
  obtain ⟨hname, hlocate, es, hes⟩ := directory_of_lookups hd hr he hdatabase hf
  rw [Path.ofTable_of_isName _ hn]
  rcases Disk.storeTable_child hlocate hes (Path.fileOf name) t with ⟨why, hstore⟩ |
    ⟨hstore, hfault, hsize, hnodir⟩
  · rw [hstore]
    exact .nothing _ rfl
  · rw [hstore]
    have htable (bytes : ByteArray) :
        Disk.isTable database.key name (Path.fileOf name, .file bytes) = true :=
      Disk.isTable_file_iff.mpr ⟨hfault, ⟨_, Path.extension?_fileOf hn.1, sameName_refl _⟩, by
        rw [Path.stem_fileOf hn.1]
        exact sameName_refl name⟩
    have hnew : es.lookup (Path.fileOf name) = none := by
      cases hlookup : es.lookup (Path.fileOf name) with
      | none => rfl
      | some node =>
          have hnot := not_isTable_of_findTable hlocate hes hf (Path.fileOf_ne_absolute name) hlookup
          cases node with
          | directory below => exact absurd hlookup (hnodir below)
          | file bytes =>
              rw [htable bytes] at hnot
              cases hnot
    exact .createTable (tableFile_of_isTable hs hname hes (htable .empty))
      (look_of_lookup_none hes hnew List.prefix_rfl) (hasFile_put hes hsize _)
      fun q hq => look_put_of_ne hes hnodir _ hq

theorem effect_dropTable (hd : d.Lawful) (hr : d.resolve (.ofText root) = .ok place)
    (he : d.entriesAt place = .ok entries) {l l' : Listing} {selected name : Text}
    {database stored : Stored Path} (hs : session.database = some selected)
    (hdatabase : d.findDatabase l.order (.ofText root) selected = some database)
    (hf : d.findTable l'.order database.key name = .ok (some stored)) :
    (Command.dropTable name).Effect place session d (d.discard stored.key).2 := by
  obtain ⟨hname, hlocate, es, hes⟩ := directory_of_lookups hd hr he hdatabase hf
  obtain ⟨entry, bytes, rfl, htable, hlookup⟩ := lookup_of_findTable hd hlocate hes hf
  rcases discard_child hlocate entry with hsame | ⟨herase, node, hfind⟩
  · exact .nothing _ hsame
  · change Command.Effect _ _ _ (d.discard (database.key.child entry)).2 _
    rw [herase]
    have hsize : entry.size ≤ maxNameSize := by
      rw [find_child hes] at hfind
      split at hfind
      · cases hfind
      · omega
    have hnodir : ∀ below, es.lookup entry ≠ some (.directory below) := by simp [hlookup]
    refine .dropTable (tableFile_of_isTable hs hname hes htable) (hasFile_of_lookup hes hsize hlookup)
      (look_erase_self hes List.prefix_rfl) fun q hq => look_erase_of_ne hes hnodir hq

theorem effect_revise (hd : d.Lawful) (hr : d.resolve (.ofText root) = .ok place)
    (he : d.entriesAt place = .ok entries) {l l' : Listing} {c : Command} {selected name : Text}
    {database stored : Stored Path} (hc : c.revised? = some name)
    (hs : session.database = some selected)
    (hdatabase : d.findDatabase l.order (.ofText root) selected = some database)
    (hf : d.findTable l'.order database.key name = .ok (some stored)) (t : Table) :
    c.Effect place session d (d.storeTable stored.key t).2 := by
  obtain ⟨hname, hlocate, es, hes⟩ := directory_of_lookups hd hr he hdatabase hf
  obtain ⟨entry, bytes, rfl, htable, hlookup⟩ := lookup_of_findTable hd hlocate hes hf
  change Command.Effect _ _ _ (d.storeTable (database.key.child entry) t).2 _
  rcases Disk.storeTable_child hlocate hes entry t with ⟨why, hstore⟩ | ⟨hstore, -, hsize, hnodir⟩
  · rw [hstore]
    exact .nothing _ rfl
  · rw [hstore]
    exact .revise hc (tableFile_of_isTable hs hname hes htable) (hasFile_of_lookup hes hsize hlookup)
      (hasFile_put hes hsize _) fun q hq => look_put_of_ne hes hnodir _ hq

/-- A registry that can be read is no directory. -/
theorem look_ne_directory_of_readRegistry {r : Registry} {q : Place}
    (h : d.readRegistry (.ofText root) = .ok r)
    (hq : d.resolve (Disk.registryPath (.ofText root)) = .ok q) : d.look q ≠ some none := by
  intro hlook
  obtain ⟨below, hb⟩ := look_eq_directory_iff.mp hlook
  have hread : d.readText (Disk.registryPath (.ofText root)) = .error .isDirectory := by
    unfold readText Node.read
    rw [findPath_of_resolve hq, entriesAt_eq_ok_iff.mp hb]
  unfold Disk.readRegistry at h
  rw [hread] at h
  cases h

theorem effect_insert (hd : d.Lawful) (hr : d.resolve (.ofText root) = .ok place)
    (he : d.entriesAt place = .ok entries) {selected name : Text} {values : List Literal}
    {database stored : Stored Path} {t : Table} {counters : Registry}
    (hi : Command.Insertion (d.catalog (fun n => (listings n).order) (.ofText root)) session selected
      name values database stored t counters) :
    (Command.insert name values).Effect place session d
      (Change.makeAll (.ofText root) d (Command.insertion database stored t counters values)).2 := by
  have hf : d.findTable (listings 1).order database.key name = .ok (some stored) := hi.table_eq
  obtain ⟨hname, hlocate, es, hes⟩ := directory_of_lookups hd hr he hi.database_eq hf
  obtain ⟨entry, bytes, hstored, htable, hlookup⟩ := lookup_of_findTable hd hlocate hes hf
  rcases makeAll_insertion hi rfl with ⟨-, hsame⟩ | ⟨registry, file, hregistry, hfile, hlook, hcases⟩
  · exact .nothing _ hsame
  · -- both places, spelled out
    have hregistry' : registry = place ++ [registryName] := by
      have hl := locate_child (resolve_eq_ok_iff.mp hr).2 registryName
      exact Except.ok.inj ((resolve_eq_ok_iff.mp hregistry).2.symm.trans hl)
    have hfile' : file = place ++ [database.name] ++ [entry] := by
      have hl := locate_child hlocate entry
      rw [hstored] at hfile
      exact Except.ok.inj ((resolve_eq_ok_iff.mp hfile).2.symm.trans hl)
    have hne : file ≠ registry := by
      rw [hfile', hregistry']
      simp
    have hbefore : d.HasFile file := by
      obtain ⟨file', bytes', hres, hfind⟩ := find_of_readTable hi.load_eq
      rw [hfile, Except.ok.injEq] at hres
      refine ⟨bytes', ?_⟩
      unfold look
      rw [hres, hfind]
    have hnodir := look_ne_directory_of_readRegistry hi.counters_eq hregistry
    subst hregistry' hfile'
    have hnames := tableFile_of_isTable hi.session_eq hname hes htable
    rcases hcases with ⟨-, -, hafter, hframe⟩ | ⟨-, -, hframe⟩
    · refine .insert hnames hbefore ⟨_, hafter⟩ hnodir ⟨_, hlook⟩ fun q hq => ?_
      rw [not_or] at hq
      exact hframe q hq.2 hq.1
    · refine .insert hnames hbefore ?_ hnodir ⟨_, hlook⟩ fun q hq => ?_
      · obtain ⟨old, hold⟩ := hbefore
        exact ⟨old, (hframe _ hne).trans hold⟩
      · rw [not_or] at hq
        exact hframe q hq.2

/-- **The changes that a command plans** have one of its effects, whether or not they succeed. -/
theorem Command.effect_of_planned (listings : Nat → Listing) (hd : d.Lawful) (hr : d.resolve (.ofText root) = .ok place)
    (he : d.entriesAt place = .ok entries) {c : Command} (hc : c.Proper)
    {changes : List (Change Path)}
    (hp : c.Planned (d.catalog (fun n => (listings n).order) (.ofText root)) session changes) :
    c.Effect place session d (Change.makeAll (.ofText root) d changes).2 := by
  cases hp with
  | nothing => exact .nothing _ rfl
  | @createDatabase name hnew =>
      rw [Change.makeAll_singleton]
      exact effect_createDatabase hr he (hc.targets name (by simp [Command.targets]))
  | dropDatabase hfound =>
      rw [Change.makeAll_singleton, Change.make, StorageError.snd_ofDisk]
      exact effect_dropDatabase hd hr he hfound
  | @createTable selected name columns database t hs hdatabase hf ht =>
      rw [Change.makeAll_singleton]
      exact effect_createTable hd hr he (hc.targets name (by simp [Command.targets])) hs hdatabase hf t
  | dropTable hs hdatabase hf =>
      rw [Change.makeAll_singleton, Change.make, StorageError.snd_ofDisk]
      exact effect_dropTable hd hr he hs hdatabase hf
  | @revise _ selected name database stored t t' hs hdatabase hf hload hrevises =>
      have hrevised : c.revised? = some name := by
        cases hrevises <;> rfl
      rw [Change.makeAll_singleton]
      exact effect_revise hd hr he hrevised hs hdatabase hf t'
  | insert hi => exact effect_insert hd hr he hi

end planned

/-! ### Calls -/

/-- **Every command touches only what it names.**  Below a root that is there, whatever else there is
on the disk, whoever calls and however directories are listed: a text that is no command changes
nothing; a command has one of its effects; no place changes but those strictly below the root; and the
disk stays lawful. -/
theorem effect_onDisk {root : Text} {place : Place} {entries : List (Text × Node)} {d : Disk}
    (hd : d.Lawful) (hr : d.resolve (.ofText root) = .ok place) (he : d.entriesAt place = .ok entries)
    (call : Call) (session : Session) :
    (∀ why, Command.parse call.input = .error why → (call.onDisk root session d).store = d) ∧
      (∀ c, Command.parse call.input = .ok c →
        c.Effect place session d (call.onDisk root session d).store) ∧
      (∀ q, (∀ name more, q ≠ place ++ name :: more) →
        (call.onDisk root session d).store.look q = d.look q) ∧
      (call.onDisk root session d).store.Lawful := by
  have herror {why : Error} (hp : Command.parse call.input = .error why) :
      (call.onDisk root session d).store = d := by
    unfold Call.onDisk Engine.runText
    rw [hp]
  have hok {c : Command} (hp : Command.parse call.input = .ok c) :
      c.Effect place session d (call.onDisk root session d).store := by
    unfold Call.onDisk Engine.runText
    rw [hp]
    dsimp only
    unfold Engine.run
    cases hplan : c.plan (d.catalog (call.engine root).order (call.engine root).root) session with
    | error why => exact .nothing _ rfl
    | ok p =>
        have heffect := Command.effect_of_planned call.listings hd hr he
          (Command.proper_of_parse hp) (Command.planned_of_plan hplan)
        dsimp only
        rw [Engine.disk_perform]
        exact heffect
  refine ⟨fun why hp => herror hp, fun c hp => hok hp, fun q hq => ?_,
    Engine.lawful_runText hd _ session call.input⟩
  cases hp : Command.parse call.input with
  | error why => rw [herror hp]
  | ok c => exact (hok hp).look_outside hq

/-- A disk on which the root holds what no command has put there: a directory in the way of a table, a
table in capital letters, a directory that begins with a dot. -/
def oddDisk : Disk :=
  .directory [("data".toList, .directory
    [("Shop".toList, .directory [("T.TAB".toList, .file (toBytes "id\tx\n7\ta\n".toList)),
      ("u.tab".toList, .directory []), ("notes.txt".toList, .file .empty)]),
      (".git".toList, .directory [("config".toList, .file .empty)])])]

theorem lawful_oddDisk : oddDisk.Lawful := by
  have hshop : Lawful (.directory [("T.TAB".toList, .file (toBytes "id\tx\n7\ta\n".toList)),
      ("u.tab".toList, .directory []), ("notes.txt".toList, .file .empty)]) := by
    refine lawful_directory (by decide) ?_
    simp [lawful_file, lawful_empty]
  have hgit : Lawful (.directory [("config".toList, .file .empty)]) := by
    refine lawful_directory (by decide) ?_
    simp [lawful_file]
  have hdata := @lawful_directory [("Shop".toList, _), (".git".toList, _)] (by decide)
    (List.forall_mem_cons.mpr ⟨hshop, List.forall_mem_singleton.mpr hgit⟩)
  exact lawful_directory (by decide) (List.forall_mem_singleton.mpr hdata)

theorem effect_onDisk_oddDisk :
    (Command.delete "t".toList (.compare "id".toList .equal (.number "7".toList))).Effect ["data".toList]
      ⟨some "shop".toList⟩ oddDisk
      ((Call.mk 0 "DELETE FROM t WHERE id == 7;".toList fun _ => .kept).onDisk "data".toList
        ⟨some "shop".toList⟩ oddDisk).store := by
  have hroot : oddDisk.resolve (.ofText "data".toList) = .ok ["data".toList] := rfl
  have hparse : Command.parse "DELETE FROM t WHERE id == 7;".toList =
      .ok (.delete "t".toList (.compare "id".toList .equal (.number "7".toList))) := by
    decide +kernel
  exact (effect_onDisk lawful_oddDisk hroot rfl _ _).2.1 _ hparse

end FlatDb
