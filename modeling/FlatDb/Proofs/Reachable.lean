import FlatDb.Proofs.Steps

/-! # What a run leaves below the root

Runs begin with an empty root.  Any clients call in any order; commands succeed or fail; calls may
be cut off between two changes.

* `Mirrors.stages`: after any number of stages of one call the disk mirrors the memory after some of
  the changes of a planned command.
* `mirrors_after`: **after every run the disk mirrors some well-formed memory**.
* `allowed_after`: what this says about the files: **below the root there are only databases, with
  nothing but files of well-formed tables in them, and a well-formed registry**. -/

namespace FlatDb

open Text Node

/-! ### One event -/

namespace Memory

variable {m : Memory} {root : Text} {place : Place} {d₀ d : Disk}

/-- A memory after some of the changes that a command of a session plans, if there is a plan. -/
def Leads (m : Memory) (counters : Except StorageError Registry) (session : Session)
    (input : Text) (m' : Memory) : Prop :=
  m' = m ∨ ∃ (c : Command) (changes : List (Change Key)) (n : Nat),
    Command.parse input = .ok c ∧ c.Planned (m.catalogWith counters) session changes ∧
      m' = m.makeAll (changes.take n)

theorem Leads.wellFormed {counters : Except StorageError Registry} {session : Session} {input : Text}
    {m' : Memory} (h : m.Leads counters session input m') (hw : m.WellFormed)
    (hr : ∀ r, counters = .ok r → r = m.counters) : m'.WellFormed := by
  rcases h with rfl | ⟨c, changes, n, hp, hc, rfl⟩
  · exact hw
  · exact hw.makeAll_take (sound_of_planned hw (Command.proper_of_parse hp) hc hr) n

/-- The stages of a call are those of changes that are planned for the memory as well. -/
theorem Mirrors.stages_eq (h : Mirrors root place d₀ m d) (hr : EmptyRoot root place d₀)
    (hw : m.WellFormed) (call : Call) (session : Session) :
    (call.engine root).stages session d call.input = [] ∨
      ∃ (c : Command) (changes : List (Change Key)),
        Command.parse call.input = .ok c ∧
        c.Planned (m.catalogWith (d.readRegistry (.ofText root))) session changes ∧
        (call.engine root).stages session d call.input =
          Change.stages (.ofText root) d (changes.map (Change.map (Key.path root))) := by
  cases hp : Command.parse call.input with
  | error why => exact .inl (by simp only [Engine.stages, hp])
  | ok c =>
      have hplan := Command.plan_map (h.simulates hr hw call.listings) session
        (Command.proper_of_parse hp)
      cases hmemory : c.plan (m.catalogWith (d.readRegistry (.ofText root))) session with
      | error why =>
          rw [hmemory] at hplan
          exact .inl (Engine.stages_of_plan_error (e := call.engine root) hp hplan).1
      | ok p =>
          rw [hmemory] at hplan
          exact .inr ⟨c, p.changes, rfl, Command.planned_of_plan hmemory,
            (Engine.stages_of_plan (e := call.engine root) hp hplan).1⟩

/-- After any number of stages of the planned changes the disk mirrors a memory they lead to. -/
theorem Mirrors.leads_take (h : Mirrors root place d₀ m d) (hr : EmptyRoot root place d₀)
    (hw : m.WellFormed) {input : Text} {session : Session} {c : Command}
    {changes : List (Change Key)} (hp : Command.parse input = .ok c)
    (hc : c.Planned (m.catalogWith (d.readRegistry (.ofText root))) session changes) (n : Nat) :
    ∃ j, m.Leads (d.readRegistry (.ofText root)) session input (m.makeAll (changes.take j)) ∧
      Mirrors root place d₀ (m.makeAll (changes.take j))
        (((Change.stages (.ofText root) d (changes.map (Change.map (Key.path root)))).take n).getLastD
          d) ∧
      (0 < n → ∀ change more d', changes = change :: more →
        (change.map (Key.path root)).make (.ofText root) d = (.ok (), d') → 0 < j) := by
  have hsound := sound_of_planned hw (Command.proper_of_parse hp) hc
    fun r hread => h.readRegistry_eq hr hw hread
  obtain ⟨j, hj, hpos⟩ := h.stages_take hr hw hsound n
  exact ⟨j, Or.inr ⟨c, changes, j, hp, hc, rfl⟩, hj, hpos⟩

/-- After any number of stages of a call the disk mirrors what the call leads to in memory. -/
theorem Mirrors.stages (h : Mirrors root place d₀ m d) (hr : EmptyRoot root place d₀)
    (hw : m.WellFormed) (call : Call) (session : Session) (n : Nat) :
    ∃ m', m.Leads (d.readRegistry (.ofText root)) session call.input m' ∧
      Mirrors root place d₀ m' (call.cutOff root session d n) := by
  unfold Call.cutOff
  rcases h.stages_eq hr hw call session with hs | ⟨c, changes, hp, hc, hs⟩
  · rw [hs, List.take_nil]
    exact ⟨m, Or.inl rfl, h⟩
  · rw [hs]
    obtain ⟨j, hlead, hj, -⟩ := h.leads_take hr hw hp hc n
    exact ⟨_, hlead, hj⟩

end Memory

/-- Who calls and with what, in an event. -/
def Event.source : Event → Call
  | .call c => c
  | .cut c _ => c

/-- After an event the disk is that of the call, cut off after some changes; if it is answered, after all of
them, and no command makes more than two.  An id is given only if the first change is reached. -/
theorem World.step_store (root : Text) (w : World Disk) (event : Event) :
    ∃ n, (w.step root event).store =
        event.source.cutOff root (w.sessions event.source.client) w.store n ∧
      w.grant? root event = (if n = 0 then none
        else event.source.grant? root (w.sessions event.source.client) w.store) ∧
      ∀ c, event = .call c → 2 ≤ n := by
  cases event with
  | cut c made =>
      refine ⟨made, rfl, ?_, nofun⟩
      cases made <;> rfl
  | call c =>
      let stages := (c.engine root).stages (w.sessions c.client) w.store c.input
      refine ⟨stages.length + 2, ?_, rfl, fun _ _ => Nat.le_add_left ..⟩
      unfold Event.source Call.cutOff
      rw [List.take_of_length_le (Nat.le_add_right ..), Engine.getLastD_stages]
      rfl

/-! ### Runs -/

section runs
variable {root : Text} {place : Place} {d₀ : Disk}

/-- **After every run the disk mirrors some well-formed memory.** -/
theorem mirrors_after (hr : EmptyRoot root place d₀) {w : World Disk} {m : Memory}
    (h : m.Mirrors root place d₀ w.store) (hw : m.WellFormed) (events : List Event) :
    ∃ m' : Memory, m'.WellFormed ∧ m'.Mirrors root place d₀ (w.after root events).store := by
  induction events generalizing w m with
  | nil => exact ⟨m, hw, h⟩
  | cons event more ih =>
      obtain ⟨n, hn, -⟩ := World.step_store root w event
      obtain ⟨m', hlead, h'⟩ := h.stages hr hw event.source (w.sessions event.source.client) n
      rw [← hn] at h'
      exact ih h' (hlead.wellFormed hw fun r hread => h.readRegistry_eq hr hw hread)

/-! ### The files -/

/-- Bytes of a file with this name that are a well-formed table: they are read as the table, and
writing the table gives them back. -/
def IsTableFile (file : Text) (bytes : ByteArray) : Prop :=
  ∃ name contents t, IsName name ∧ file = name ++ ".tab".toList ∧ ofBytes? bytes = some contents ∧
    Table.decode contents = .ok t ∧ t.WellFormed ∧ toBytes t.encode = bytes

/-- Bytes that are well-formed counters. -/
def IsRegistryFile (bytes : ByteArray) : Prop :=
  ∃ contents r, ofBytes? bytes = some contents ∧ Registry.decode contents = .ok r ∧ r.WellFormed

/-- What may stand below a root. -/
inductive Allowed : Text × Node → Prop where
  | registry {bytes : ByteArray} (h : IsRegistryFile bytes) : Allowed (registryName, .file bytes)
  | database {name : Text} {tables : List (Text × Node)} (hn : IsName name)
      (hu : (tables.map Prod.fst).Nodup)
      (ht : ∀ x ∈ tables, ∃ file bytes, x = (file, .file bytes) ∧ IsTableFile file bytes) :
      Allowed (name, .directory tables)

theorem isTableFile_of_wellFormed {name : Text} (hn : IsName name) {t : Table} (h : t.WellFormed) :
    IsTableFile (Path.fileOf name) (toBytes t.encode) :=
  ⟨name, t.encode, t, hn, rfl, ofBytes?_toBytes _, Table.decode_encode h, h, rfl⟩

theorem isRegistryFile_of_wellFormed {r : Registry} (h : r.WellFormed) :
    IsRegistryFile (toBytes r.encode) :=
  ⟨r.encode, r, ofBytes?_toBytes _, Registry.decode_encode h, h⟩

theorem nodup_files {names : List Text} (h : names.Nodup) : (names.map Path.fileOf).Nodup :=
  List.Pairwise.map _ (fun _ _ hab hf => hab (Path.fileOf_inj hf)) h

theorem allowed_of_mem {m : Memory} (hw : m.WellFormed) {e : Text × Node} (he : e ∈ m.entries) :
    Allowed e := by
  rcases Memory.mem_entries he with ⟨-, rfl⟩ | ⟨x, hx, rfl⟩
  · exact .registry (isRegistryFile_of_wellFormed hw.counters)
  · refine .database (Memory.isName_database hw hx) ?_ fun y hy => ?_
    · have := nodup_files (hw.tables x hx).nodup
      rw [List.map_map] at this ⊢
      exact this
    · obtain ⟨t, ht, rfl⟩ := List.mem_map.mp hy
      exact ⟨_, _, rfl, isTableFile_of_wellFormed (Memory.isName_table hw hx ht)
        (hw.contents x hx t ht)⟩

/-- **After every run** that begins with an empty root, each entry below the root is the registry,
which is well-formed, or a database, and in a database there are only files of well-formed
tables. -/
theorem allowed_after {d : Disk} (h : d.list (.ofText root) = .ok []) (events : List Event) :
    ∃ entries, ((World.start d).after root events).store.list (.ofText root) = .ok entries ∧
      (entries.map Prod.fst).Nodup ∧ ∀ e ∈ entries, Allowed e := by
  obtain ⟨place, hr⟩ := emptyRoot_of_list h
  obtain ⟨m, hw, hm⟩ := mirrors_after hr (w := World.start d) (Memory.mirrors_empty hr)
    Memory.wellFormed_empty events
  obtain ⟨es, hes, hp⟩ := hm.list_root hr
  exact ⟨es, hes, (hp.map Prod.fst).nodup_iff.mpr (Memory.nodup_entries hw),
    fun e he => allowed_of_mem hw (hp.subset he)⟩

end runs

/-- A call while directories are listed as they are kept. -/
def Call.of (client : Nat) (input : String) : Call := ⟨client, input.toList, fun _ => .kept⟩

/-- A disk with an empty directory `data`. -/
def exampleDisk : Disk := .directory [("data".toList, .directory [])]

/-- A run of two clients, in which an insertion is cut off before its row is stored and a table is
created a second time. -/
def exampleRun : List Event :=
  [.call (.of 0 "CREATE DATABASE shop;"),
    .call (.of 0 "USE shop;"),
    .call (.of 1 "USE SHOP;"),
    .call (.of 0 "CREATE TABLE t (a);"),
    .cut (.of 1 "INSERT INTO t VALUES('x');") 1,
    .call (.of 0 "INSERT INTO t VALUES('y');"),
    .call (.of 1 "DROP TABLE t;"),
    .call (.of 1 "CREATE TABLE T (b);"),
    .call (.of 0 "INSERT INTO T VALUES('z');")]

theorem allowed_after_example :
    ∃ entries, ((World.start exampleDisk).after "data".toList exampleRun).store.list
        (.ofText "data".toList) = .ok entries ∧
      (entries.map Prod.fst).Nodup ∧ ∀ e ∈ entries, Allowed e :=
  allowed_after rfl exampleRun

end FlatDb
