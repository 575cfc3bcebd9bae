import FlatDb.Proofs.Reachable

/-! # Files cannot be told from memory

Clients of databases on a disk get the same responses as clients of databases in memory, as long as
nothing is too long for the disk: the names of databases and tables (`Command.Short`) and the path
of the root (`Roomy`).

* `Path.HasRoom` follows how much longer a path may get, down to the temporary file beside the file
  of a table.
* `Mirrors.make_of_room`: **a sound change succeeds** when names are short and there is room.
* `Mirrors.call_eq`: a call has the same response and session on a mirror as in memory, and the disk
  mirrors the memory afterwards.
* `replies_eq`: **so have all calls of a run** that begins with an empty root.
* `replies_ne_of_longRoot`: a root that is only just short enough by itself is not enough. -/

namespace FlatDb

open Text Node

/-! ### Room below a path -/

/-- A path that leads somewhere on a disk and may get longer by so many bytes. -/
structure Path.HasRoom (p : Path) (n : Nat) : Prop where
  ne_nil : p.text ≠ []
  nul : '\x00' ∉ p.text
  size : p.text.size + n ≤ Path.maxTextSize

namespace Path.HasRoom

variable {p : Path} {n : Nat} {name : Text}

theorem fault (h : p.HasRoom n) : p.fault? = none := by
  have hs := h.size
  exact textFault?_eq_none_iff.mpr ⟨h.nul, by omega⟩

theorem joinText_ne_nil {dir : Text} (h : dir ≠ []) (name : Text) : joinText dir name ≠ [] := by
  unfold joinText
  split
  · next hh =>
      rintro rfl
      cases hh
  · split <;> simp [h]

theorem child (h : p.HasRoom n) (hn : '\x00' ∉ name) {k : Nat} (hs : k + 1 + name.size ≤ n) :
    (p.child name).HasRoom k := by
  have hsize := h.size
  have hjoin := size_joinText_le p.text name
  refine ⟨?_, ?_, ?_⟩ <;> rw [text_child]
  · exact joinText_ne_nil h.ne_nil name
  · intro hm
    rcases mem_joinText hm with hm | hm | hm
    · exact h.nul hm
    · cases hm
    · exact hn hm
  · omega

theorem not_mem_temporaryName (hn : '\x00' ∉ name) : '\x00' ∉ temporaryName name 0 := by
  have hrest : '\x00' ∉ '.' :: List.replicate (36 - (ofNat 0).length) '0' ++ ofNat 0 ++
      ".tmp".toList := by decide
  simp only [temporaryName, List.mem_append, List.mem_cons, not_or] at hrest ⊢
  exact ⟨⟨⟨⟨by decide, hn⟩, hrest.1.1⟩, hrest.1.2⟩, hrest.2⟩

/-- A temporary file is 43 bytes further away than its target. -/
theorem temporary (h : p.HasRoom n) (hn : '\x00' ∉ name) (hs : name.size + 43 ≤ n) :
    textFault? (joinText (trimEnd p.text) (temporaryName name 0)) = none := by
  have hsize := h.size
  have htrim := size_trimEnd_le h.ne_nil
  have hjoin := size_joinText_le (trimEnd p.text) (temporaryName name 0)
  rw [size_temporaryName_zero] at hjoin
  refine textFault?_eq_none_iff.mpr ⟨fun hm => ?_, by omega⟩
  rcases mem_joinText hm with hm | hm | hm
  · exact not_mem_trimEnd h.nul (by decide) (by decide) hm
  · cases hm
  · exact not_mem_temporaryName hn hm

end Path.HasRoom

/-- The most bytes of a name whose table file can be replaced: the temporary name of the file has 46
bytes more. -/
def maxTableName : Nat := 209

/-- There is room below a root for the temporary file beside a table file, when the names of the
database and the table have at most `maxTableName` bytes. -/
def Roomy (root : Text) : Prop := root.size + 466 ≤ Path.maxTextSize

theorem EmptyRoot.hasRoom {root : Text} {place : Place} {d : Disk} (h : EmptyRoot root place d)
    (hroom : Roomy root) : (Path.ofText root).HasRoom 466 :=
  ⟨text_ne_nil_of_locate h.locate, (Path.textFault?_eq_none_iff.mp h.fault).1, hroom⟩

/-! ### Short names -/

/-- The databases and tables that a command names have short names. -/
def Command.Short (c : Command) : Prop := ∀ n ∈ c.targets, n.size ≤ maxTableName

instance (c : Command) : Decidable c.Short := inferInstanceAs (Decidable (∀ n ∈ c.targets, _))

namespace Memory

open Entries

variable {m : Memory}

/-- Databases and tables have short names. -/
def Short (m : Memory) : Prop :=
  ∀ e ∈ m.databases, e.1.size ≤ maxTableName ∧ ∀ x ∈ e.2, x.1.size ≤ maxTableName

/-- A change that gives no long name to anything. -/
def ShortChange : Change Key → Prop
  | .createDatabase name | .storeTable (.table _ name) _ => name.size ≤ maxTableName
  | _ => True

theorem short_empty : empty.Short := fun _ h => nomatch h

theorem Short.setTables (h : m.Short) {name : Text} {ts : List (Text × Table)}
    (hn : name.size ≤ maxTableName) (hts : ∀ x ∈ ts, x.1.size ≤ maxTableName) :
    (m.setTables name ts).Short := by
  intro e he
  rcases mem_set he with rfl | he
  · exact ⟨hn, hts⟩
  · exact h e he

/-- Names stay short. -/
theorem Short.make (h : m.Short) (hw : m.WellFormed) {change : Change Key} (hs : m.Sound change)
    (hc : ShortChange change) : (m.make change).Short := by
  cases hs with
  | createDatabase hn hnew => exact h.setTables hc fun _ hx => nomatch hx
  | dropDatabase he => exact fun e' he' => h e' (mem_of_mem_erase he')
  | storeTable he hn hnew ht =>
      rw [Memory.make, tables_of_mem hw he]
      refine h.setTables (h _ he).1 fun y hy => ?_
      rcases mem_set hy with rfl | hy
      · exact hc
      · exact (h _ he).2 y hy
  | dropTable he hx =>
      rw [Memory.make, tables_of_mem hw he]
      exact h.setTables (h _ he).1 fun y hy => (h _ he).2 y (mem_of_mem_erase hy)
  | storeCounters hr hne => exact h

/-- A command with short names plans changes that give short names. -/
theorem short_of_planned (h : m.Short) (hw : m.WellFormed) {counters : Except StorageError Registry}
    {session : Session} {c : Command} {changes : List (Change Key)} (hc : c.Short)
    (hp : c.Planned (m.catalogWith counters) session changes) :
    ∀ change ∈ changes, ShortChange change := by
  have hstored {e : Text × List (Text × Table)} (he : e ∈ m.databases) {lookup : Nat} {name : Text}
      {stored : Stored Key}
      (hf : (m.catalogWith counters).table? lookup (.database e.1) name = .ok (some stored))
      (t : Table) : ShortChange (.storeTable stored.key t) := by
    obtain ⟨x, hx, -, rfl, -⟩ := table_of_catalog hw he hf
    exact (h e he).2 x hx
  cases hp with
  | nothing => exact fun _ hch => nomatch hch
  | createDatabase hd => simpa [ShortChange] using hc _ (by simp [Command.targets])
  | dropDatabase hd => simp [ShortChange]
  | createTable hs hd hn ht =>
      obtain ⟨e, he, -, rfl⟩ := database_of_catalog hd
      intro change hch
      rw [List.mem_singleton.mp hch]
      exact hc _ (by simp [Command.targets])
  | dropTable hs hd hf => simp [ShortChange]
  | revise hs hd hf hl hr =>
      obtain ⟨e, he, -, rfl⟩ := database_of_catalog hd
      simpa using hstored he hf _
  | insert hi =>
      obtain ⟨e, he, -, rfl⟩ := database_of_catalog hi.database_eq
      simpa [Command.insertion, ShortChange] using hstored he hi.table_eq _

namespace Mirrors

variable {root : Text} {place : Place} {d₀ d : Disk}

/-! ### Changes that succeed -/

theorem not_mem_fileOf {name : Text} (h : IsName name) : '\x00' ∉ Path.fileOf name := by
  have hext : '\x00' ∉ '.' :: Path.tableExtension := by decide
  rw [Path.fileOf, List.mem_append, not_or]
  exact ⟨h.not_mem (by decide), hext⟩

theorem head_ne_dot {name : Text} (h : IsName name) : name.head? ≠ some '.' := by
  intro hh
  exact h.not_mem (c := '.') (by decide) (List.mem_of_head? hh)

theorem head_fileOf_ne_dot {name : Text} (h : IsName name) : (Path.fileOf name).head? ≠ some '.' := by
  have hne := h.1
  have := head_ne_dot h
  cases name with
  | nil => exact absurd rfl hne
  | cons c name => exact this

/-- Nothing right below the root begins with a dot. -/
theorem head_root (hw : m.WellFormed) {all : List (Text × Node)}
    (hp : (Entries.erase absolute all).Perm m.entries) {n : Text} (hn : n ∈ all.map Prod.fst) :
    n.head? ≠ some '.' := by
  by_cases ha : n = absolute
  · rw [ha]
    decide
  · have hm : n ∈ m.entries.map Prod.fst := by
      refine Decidable.of_not_not fun hnot => ?_
      rw [← lookup_eq_none_iff, ← lookup hw hp ha, lookup_eq_none_iff] at hnot
      exact hnot hn
    obtain ⟨x, hx, rfl⟩ := List.mem_map.mp hm
    rcases mem_entries hx with ⟨-, rfl⟩ | ⟨e, he, rfl⟩
    · exact (by decide : registryName.head? ≠ some '.')
    · exact head_ne_dot (isName_database hw he)

variable (h : Mirrors root place d₀ m d) (hr : EmptyRoot root place d₀) (hw : m.WellFormed)
include h hr hw

theorem storeTable_of_room (hroom : Roomy root) (hm : m.Short) {e : Text × List (Text × Table)}
    (he : e ∈ m.databases) {name : Text} (hn : IsName name) (hs : name.size ≤ maxTableName)
    (t : Table) :
    ∃ d', Change.make (.ofText root) d (.storeTable (Key.path root (.table e.1 name)) t) =
      (.ok (), d') := by
  have hmax : maxTableName = 209 := rfl
  have hname := (hm e he).1
  have hdir : (Key.path root (.database e.1)).HasRoom 256 :=
    (hr.hasRoom hroom).child ((isName_database hw he).not_mem (by decide)) (by omega)
  have hfile := not_mem_fileOf hn
  have hsize := Path.size_fileOf name
  have hreplace := replace_child_of_room (h.locate_database hr e.1) (h.entriesAt_database hw he)
    t.encode.toBytes (hdir.temporary hfile (by omega)) (hdir.child hfile (k := 0) (by omega)).fault
    (by unfold maxNameSize; omega) ?_ ?_
  · change ∃ d', Disk.storeTable d ((Key.path root (.database e.1)).child (Path.fileOf name)) t = _
    unfold Disk.storeTable
    rw [hreplace]
    exact ⟨_, rfl⟩
  · intro n hmem
    obtain ⟨y, hy, rfl⟩ := List.mem_map.mp hmem
    obtain ⟨x, hx, rfl⟩ := List.mem_map.mp hy
    exact head_fileOf_ne_dot (isName_table hw he hx)
  · intro below hlook
    obtain ⟨x, -, hx⟩ := List.mem_map.mp (mem_of_lookup hlook)
    cases congrArg Prod.snd hx

theorem storeCounters_of_room (hroom : Roomy root) (r : Registry) :
    ∃ d', Change.make (.ofText root) d (.storeCounters r) = (.ok (), d') := by
  have hdir := hr.hasRoom hroom
  have hsize : registryName.size = 13 := by decide
  have hnul : '\x00' ∉ registryName := by decide
  obtain ⟨all, ha, hp⟩ := h.entries
  have hreplace := replace_child_of_room (h.locate hr) ha r.encode.toBytes
    (hdir.temporary hnul (by omega)) (hdir.child hnul (k := 0) (by omega)).fault
    (by unfold maxNameSize; omega) (fun n hn => head_root hw hp hn) ?_
  · change ∃ d', Disk.storeRegistry d (.ofText root) r = _
    unfold Disk.storeRegistry Disk.registryPath
    rw [hreplace]
    exact ⟨_, rfl⟩
  · intro below hlook
    rw [lookup hw hp (by decide), lookup_entries_registry hw] at hlook
    split at hlook <;> cases hlook

theorem createDatabase_of_room (hroom : Roomy root) {name : Text} (hn : IsName name)
    (hs : name.size ≤ maxTableName) (hnew : ∀ e ∈ m.databases, sameName e.1 name = false) :
    ∃ d', Change.make (.ofText root) d (.createDatabase name) = (.ok (), d') := by
  have hmax : maxTableName = 209 := rfl
  have hfault : ((Path.ofText root).child name).fault? = none :=
    ((hr.hasRoom hroom).child (hn.not_mem (by decide)) (k := 0) (by omega)).fault
  have hlong : ¬ maxNameSize < name.size := by
    unfold maxNameSize
    omega
  obtain ⟨all, ha, hp⟩ := h.entries
  have hl : all.lookup name = none := by
    rw [lookup hw hp hn.ne_absolute, lookup_entries_of_new hn hnew]
  change ∃ d', StorageError.ofDisk _ = _
  rw [makeDirectories_child (h.locate hr) ha hn, hfault, hl]
  dsimp only
  rw [if_neg hlong]
  exact ⟨_, rfl⟩

/-- **A sound change succeeds** when there is room, and the disk mirrors the changed memory. -/
theorem make_of_room (hroom : Roomy root) (hm : m.Short) {change : Change Key} (hs : m.Sound change)
    (hc : ShortChange change) :
    ∃ d', (change.map (Key.path root)).make (.ofText root) d = (.ok (), d') ∧
      Mirrors root place d₀ (m.make change) d' := by
  have hok : ∃ d', (change.map (Key.path root)).make (.ofText root) d = (.ok (), d') := by
    cases hs with
    | createDatabase hn hnew => exact h.createDatabase_of_room hr hw hroom hn hc hnew
    | dropDatabase he =>
        obtain ⟨d', hd, -⟩ := h.make_dropDatabase hr hw he
        exact ⟨d', hd⟩
    | storeTable he hn hnew ht => exact h.storeTable_of_room hr hw hroom hm he hn hc _
    | dropTable he hx =>
        obtain ⟨d', hd, -⟩ := h.make_dropTable hr hw he hx
        exact ⟨d', hd⟩
    | storeCounters hr' hne => exact h.storeCounters_of_room hr hw hroom _
  obtain ⟨d', hd⟩ := hok
  rcases h.make hr hw hs with ⟨why, he⟩ | ⟨d'', hd', h'⟩
  · rw [hd] at he
    cases he
  · exact ⟨d'', hd', h'⟩

omit h hw in
/-- Sound changes one after the other. -/
theorem makeAll_of_room (hroom : Roomy root) {changes : List (Change Key)}
    (hs : Each Sound m changes) (hc : ∀ change ∈ changes, ShortChange change)
    (h : Mirrors root place d₀ m d) (hw : m.WellFormed) (hm : m.Short) :
    ∃ d', Change.makeAll (.ofText root) d (changes.map (Change.map (Key.path root))) = (.ok (), d') ∧
      Mirrors root place d₀ (m.makeAll changes) d' ∧ (m.makeAll changes).WellFormed ∧
      (m.makeAll changes).Short := by
  induction changes generalizing m d with
  | nil => exact ⟨d, rfl, h, hw, hm⟩
  | cons change more ih =>
      have hchange := hc change List.mem_cons_self
      obtain ⟨d', hd, h'⟩ := h.make_of_room hr hw hroom hm hs.1 hchange
      rw [List.map_cons, Change.makeAll, hd]
      exact ih hs.2 (fun c hmem => hc c (List.mem_cons_of_mem _ hmem)) h' (hw.make hs.1)
        (hm.make hw hs.1 hchange)

end Mirrors

end Memory

/-! ### Calls -/

/-- A call with a command whose names are short, or with a text that is no command. -/
def Call.Short (call : Call) : Prop := ∀ c, Command.parse call.input = .ok c → c.Short

instance (call : Call) : Decidable call.Short :=
  match h : Command.parse call.input with
  | .ok c => decidable_of_iff c.Short (by simp [Call.Short, h])
  | .error _ => .isTrue (by simp [Call.Short, h])

section calls
variable {m : Memory} {root : Text} {place : Place} {d₀ d : Disk}

/-- With room for the registry a mirror answers exactly as the memory. -/
theorem Memory.Mirrors.simulates_of_room (h : m.Mirrors root place d₀ d)
    (hr : EmptyRoot root place d₀) (hw : m.WellFormed) (hroom : Roomy root)
    (listings : Nat → Listing) :
    (d.catalog (fun n => (listings n).order) (.ofText root)).Simulates m.catalog
      (Memory.Key.path root) := by
  have hsize : registryName.size = 13 := by decide
  have hfault : ((Path.ofText root).child registryName).fault? = none :=
    ((hr.hasRoom hroom).child (k := 0) (by decide) (by omega)).fault
  have hs := h.simulates hr hw listings
  rw [h.readRegistry_of_fault hr hw hfault] at hs
  exact hs

/-- **One call** has the same response and the same session on a mirror as in memory, and the disk
mirrors the memory afterwards. -/
theorem Memory.Mirrors.call_eq (h : m.Mirrors root place d₀ d) (hr : EmptyRoot root place d₀)
    (hw : m.WellFormed) (hroom : Roomy root) (hm : m.Short) {call : Call} (hc : call.Short)
    (session : Session) :
    (call.onDisk root session d).response = (call.inMemory session m).response ∧
      (call.onDisk root session d).session = (call.inMemory session m).session ∧
      (call.inMemory session m).store.Mirrors root place d₀ (call.onDisk root session d).store ∧
      (call.inMemory session m).store.WellFormed ∧ (call.inMemory session m).store.Short := by
  unfold Call.onDisk Call.inMemory Engine.runText Memory.runText
  cases hp : Command.parse call.input with
  | error e => exact ⟨rfl, rfl, h, hw, hm⟩
  | ok c =>
      have hproper := Command.proper_of_parse hp
      have hplan := Command.plan_map (h.simulates_of_room hr hw hroom call.listings) session hproper
      unfold Engine.run Memory.run
      dsimp only
      change (c.plan (d.catalog (call.engine root).order (call.engine root).root) session) = _ at hplan
      rw [hplan]
      cases hpl : c.plan m.catalog session with
      | error e => exact ⟨rfl, rfl, h, hw, hm⟩
      | ok p =>
          have hplanned : c.Planned (m.catalogWith (.ok m.counters)) session p.changes :=
            Command.planned_of_plan hpl
          have hsound := Memory.sound_of_planned hw hproper hplanned fun r hread =>
            (Except.ok.inj hread).symm
          have hshort := Memory.short_of_planned hm hw (hc c hp) hplanned
          obtain ⟨d', hd, h', hw', hm'⟩ := Memory.Mirrors.makeAll_of_room hr hroom hsound hshort h hw hm
          change Change.makeAll (call.engine root).root d (p.map (Memory.Key.path root)).changes = _ at hd
          dsimp only [Except.map]
          unfold Engine.perform
          rw [hd]
          exact ⟨rfl, rfl, h', hw', hm'⟩

theorem replies_eq_of_mirrors (hr : EmptyRoot root place d₀) (hroom : Roomy root)
    (sessions : Nat → Session) (h : m.Mirrors root place d₀ d) (hw : m.WellFormed) (hm : m.Short)
    {calls : List Call} (hc : ∀ c ∈ calls, c.Short) :
    (World.mk sessions d).replies (Call.onDisk root) calls =
      (World.mk sessions m).replies Call.inMemory calls := by
  induction calls generalizing sessions m d with
  | nil => rfl
  | cons call more ih =>
      obtain ⟨hresponse, hsession, h', hw', hm'⟩ :=
        h.call_eq hr hw hroom hm (hc call List.mem_cons_self) (sessions call.client)
      have hmore := fun sessions' => ih sessions' h' hw' hm' fun c hmem =>
        hc c (List.mem_cons_of_mem _ hmem)
      unfold World.replies World.receive
      dsimp only
      rw [hresponse, hsession, hmore]

end calls

/-- **Files cannot be told from memory.**  In every run that begins with an empty root, with room
below it and short names, each call has the same response and leaves its client the same session as
in memory. -/
theorem replies_eq {root : Text} {d : Disk} (h : d.list (.ofText root) = .ok []) (hroom : Roomy root)
    {calls : List Call} (hc : ∀ c ∈ calls, c.Short) :
    (World.start d).replies (Call.onDisk root) calls =
      (World.start Memory.empty).replies Call.inMemory calls := by
  obtain ⟨place, hr⟩ := emptyRoot_of_list h
  exact replies_eq_of_mirrors hr hroom (fun _ => .new) (Memory.mirrors_empty hr)
    Memory.wellFormed_empty Memory.short_empty hc

/-- Calls of two clients, one of which drops the table that the other one reads. -/
def exampleCalls : List Call :=
  [.of 0 "CREATE DATABASE shop;",
    .of 0 "USE shop;",
    .of 1 "USE Shop;",
    .of 0 "CREATE TABLE t (a, b);",
    .of 1 "INSERT INTO T VALUES('', ' x ');",
    .of 0 "SELECT * FROM t;",
    .of 1 "DROP TABLE t;",
    .of 0 "SELECT * FROM t;"]

theorem replies_eq_example :
    (World.start exampleDisk).replies (Call.onDisk "data".toList) exampleCalls =
      (World.start Memory.empty).replies Call.inMemory exampleCalls :=
  replies_eq rfl (by unfold Roomy; decide) (by decide +kernel)

/-! ### A root that is too long -/

theorem cut_replicate (sep : Char) (n : Nat) :
    cut sep (List.replicate n sep) = ([], List.replicate n []) := by
  induction n with
  | zero => rfl
  | succ n ih =>
      rw [List.replicate_succ, cut, ih]
      exact if_pos rfl

theorem cut_append_replicate (sep : Char) (t : Text) (n : Nat) :
    cut sep (t ++ List.replicate n sep) = ((cut sep t).1, (cut sep t).2 ++ List.replicate n []) := by
  induction t with
  | nil => exact cut_replicate sep n
  | cons c t ih =>
      rw [List.cons_append, cut, cut, ih]
      dsimp only
      split <;> rfl

/-- Slashes at the end of a path text add nothing to its parts. -/
theorem parts_append_slashes (t : Text) (n : Nat) : parts (t ++ List.replicate n '/') = parts t := by
  unfold parts splitOn
  rw [cut_append_replicate, ← List.cons_append, List.filter_append]
  simp

/-- A database whose path leads nowhere is not created. -/
theorem onDisk_of_fault {root : Text} {d : Disk} {entries : List (Text × Node)} {call : Call}
    {name : Text} {cause : Cause} (hp : Command.parse call.input = .ok (.createDatabase name))
    (hl : d.list (.ofText root) = .ok entries)
    (hnew : ∀ e ∈ entries, Disk.isDatabase name e = false)
    (hf : ((Path.ofText root).child name).fault? = some cause) (session : Session) :
    call.onDisk root session d =
      ⟨response (.error (.storage (.io cause))), session, d⟩ := by
  have hnone : (d.catalog (call.engine root).order (call.engine root).root).database? name = none := by
    change d.findDatabase (call.listings 0).order (.ofText root) name = none
    rw [Disk.findDatabase, hl]
    refine Option.map_eq_none_iff.mpr (List.find?_eq_none.mpr fun e he => ?_)
    simp [hnew e (((call.listings 0).perm entries).subset he)]
  have hmake : Change.makeAll (call.engine root).root d [.createDatabase name] =
      (.error (.io cause), d) := by
    change Change.makeAll (.ofText root) d _ = _
    rw [Change.makeAll, Change.make, makeDirectories, hf]
    rfl
  unfold Call.onDisk Engine.runText
  rw [hp]
  dsimp only [Engine.run, Command.plan, Command.planCreateDatabase]
  rw [hnone]
  dsimp only [Engine.perform, Plan.change]
  rw [hmake]
  rfl

/-- A root with the longest path text that leads anywhere. -/
def longRoot : Text := "data".toList ++ List.replicate 4091 '/'

/-- A call that creates a database. -/
def createX : Call := .of 0 "CREATE DATABASE x;"

theorem size_replicate_slash (n : Nat) : size (List.replicate n '/') = n := by
  induction n with
  | zero => rfl
  | succ n ih =>
      rw [List.replicate_succ, size, ih, Nat.add_comm]
      rfl

theorem size_longRoot : longRoot.size = Path.maxTextSize := by
  rw [longRoot, size_append, size_replicate_slash]
  rfl

theorem nul_not_mem_longRoot : '\x00' ∉ longRoot := by
  rw [longRoot, List.mem_append, not_or, List.mem_replicate]
  exact ⟨by decide, fun h => absurd h.2 (by decide)⟩

theorem getLast?_longRoot : longRoot.getLast? = some '/' := by
  rw [longRoot, List.getLast?_append, List.getLast?_replicate]
  rfl

theorem list_longRoot : exampleDisk.list (.ofText longRoot) = .ok [] := by
  have hlocate : exampleDisk.locate (.ofText longRoot) = .ok ["data".toList] := by
    unfold locate Path.ofText start steps
    dsimp only
    rw [if_pos getLast?_longRoot, longRoot, parts_append_slashes]
    rfl
  have hfault : (Path.ofText longRoot).fault? = none :=
    Path.textFault?_eq_none_iff.mpr ⟨nul_not_mem_longRoot, Nat.le_of_eq size_longRoot⟩
  unfold list
  rw [resolve_eq_ok_iff.mpr ⟨hfault, hlocate⟩]
  rfl

theorem fault_longRoot_x :
    ((Path.ofText longRoot).child "x".toList).fault? = some .nameTooLong := by
  have htext : ((Path.ofText longRoot).child "x".toList).text = longRoot ++ "x".toList := by
    rw [Path.text_child]
    change Path.joinText longRoot "x".toList = _
    rw [Path.joinText, if_neg (by decide), if_pos (Or.inr getLast?_longRoot)]
  have hnul : '\x00' ∉ longRoot ++ "x".toList := by
    rw [List.mem_append, not_or]
    exact ⟨nul_not_mem_longRoot, by decide⟩
  have hsize : Path.maxTextSize < (longRoot ++ "x".toList).size := by
    rw [size_append, size_longRoot]
    decide
  rw [Path.fault?, htext, Path.textFault?, if_neg (by simpa using hnul), if_pos hsize]

/-- Below a root of which only the path itself is short enough no database can be created. -/
theorem replies_ne_of_longRoot :
    exampleDisk.list (.ofText longRoot) = .ok [] ∧ createX.Short ∧
      (World.start exampleDisk).replies (Call.onDisk longRoot) [createX] =
        [("[ERROR] StorageIOError: File name too long (os error 36)".toList, .new)] ∧
      (World.start Memory.empty).replies Call.inMemory [createX] = [("[OK]".toList, .new)] := by
  refine ⟨list_longRoot, by decide +kernel, ?_, by decide +kernel⟩
  have hparse : Command.parse createX.input = .ok (.createDatabase "x".toList) := by
    rfl
  have hreply := onDisk_of_fault hparse list_longRoot (fun e he => nomatch he) fault_longRoot_x .new
  change [((createX.onDisk longRoot .new exampleDisk).response,
    (createX.onDisk longRoot .new exampleDisk).session)] = _
  rw [hreply]
  decide +kernel

end FlatDb
