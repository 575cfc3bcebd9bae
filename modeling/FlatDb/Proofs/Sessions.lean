import FlatDb.Proofs.Limits
import FlatDb.Proofs.Listings

/-! # What sessions select

A session remembers the name of a database.  The database may be dropped meanwhile, in any spelling, and
created again in another one; commands may fail when their changes are made.

* `Session.Becomes` lists **all that a command can make of a session**: `USE` selects the database it
  found, under its stored name; `DROP DATABASE` leaves the database that is selected; nothing else
  touches a session (`Call.becomes`).
* `Session.Among`: the selected database, if there is one, is among some names.
  `Memory.among_runWithin`: a command keeps the selected database among the databases in memory.
* `Command.findsDatabase_plan`: a table command whose database is found does not complain about a
  missing database.
* `selected_after`: **in every run of a single client the session points at a database that is there**,
  and no table command of such a run is answered that a database is missing. -/

namespace FlatDb

open Text Node

/-! ### Errors about databases -/

/-- A computation does not end with the error that a database is missing. -/
def FindsDatabase {α : Type} (x : Except Error α) : Prop := ∀ name, x ≠ .error (.databaseNotFound name)

section errors
variable {α β : Type} {x : Except Error α}

theorem findsDatabase_ok (a : α) : FindsDatabase (.ok a) := fun _ h => nomatch h

theorem FindsDatabase.bind {f : α → Except Error β} (h : FindsDatabase x)
    (hf : ∀ a, FindsDatabase (f a)) : FindsDatabase (x >>= f) := by
  cases x with
  | error why =>
      intro name hname
      exact h name (congrArg Except.error (Except.error.inj hname))
  | ok a => exact hf a

theorem FindsDatabase.map (h : FindsDatabase x) (f : α → β) : FindsDatabase (x.map f) := by
  cases x with
  | error why =>
      intro name hname
      exact h name (congrArg Except.error (Except.error.inj hname))
  | ok a => exact findsDatabase_ok (f a)

theorem findsDatabase_ofStorage (x : Except StorageError α) : FindsDatabase (Error.ofStorage x) := by
  cases x <;> exact fun _ h => nomatch h

end errors

theorem findsDatabase_requireColumn (columns : List Text) (name : Text) :
    FindsDatabase (requireColumn columns name) := by
  unfold requireColumn
  split <;> exact fun _ h => nomatch h

theorem findsDatabase_requireColumns (columns names : List Text) :
    FindsDatabase (requireColumns columns names) := by
  induction names with
  | nil => exact findsDatabase_ok []
  | cons name more ih =>
      exact (findsDatabase_requireColumn columns name).bind fun i => ih.bind fun _ => findsDatabase_ok _

theorem findsDatabase_refuseId (column : Text) : FindsDatabase (refuseId column) := by
  unfold refuseId
  split <;> exact fun _ h => nomatch h

namespace Condition

theorem findsDatabase_holds (header cells : List Text) (c : Condition) :
    FindsDatabase (c.holds header cells) := by
  induction c with
  | compare column op value =>
      exact (findsDatabase_requireColumn header column).bind fun i => findsDatabase_ok _
  | both left right ihl ihr =>
      refine ihl.bind fun keep => ?_
      cases keep with
      | true => exact ihr
      | false => exact findsDatabase_ok false
  | either left right ihl ihr =>
      refine ihl.bind fun keep => ?_
      cases keep with
      | true => exact findsDatabase_ok true
      | false => exact ihr

theorem findsDatabase_check (header : List Text) (c : Condition) : FindsDatabase (c.check header) :=
  (findsDatabase_requireColumns header c.columns).map _

theorem findsDatabase_matching (header : List Text) (c : Condition) (rows : List Row) :
    FindsDatabase (c.matching header rows) := by
  induction rows with
  | nil => exact findsDatabase_ok []
  | cons r rows ih =>
      exact (findsDatabase_holds header r.cells c).bind fun keep => ih.bind fun _ => findsDatabase_ok _

end Condition

namespace Table

variable (t : Table)

theorem findsDatabase_checkColumns (seen columns : List Text) :
    FindsDatabase (checkColumns seen columns) := by
  induction columns generalizing seen with
  | nil => exact findsDatabase_ok ()
  | cons column more ih =>
      refine (findsDatabase_refuseId column).bind fun _ => ?_
      split
      · exact fun _ h => nomatch h
      · exact ih _

theorem findsDatabase_create (columns : List Text) : FindsDatabase (create columns) :=
  (findsDatabase_checkColumns [] columns).bind fun _ => findsDatabase_ok _

theorem findsDatabase_alter (alteration : Alteration) (column : Text) :
    FindsDatabase (t.alter alteration column) := by
  refine (findsDatabase_refuseId column).bind fun _ => ?_
  cases alteration with
  | add =>
      dsimp only
      split <;> exact fun _ h => nomatch h
  | drop => exact (findsDatabase_requireColumn t.columns column).bind fun i => findsDatabase_ok _

theorem findsDatabase_checkValues (values : List Literal) : FindsDatabase (t.checkValues values) := by
  unfold checkValues
  dsimp only
  split <;> exact fun _ h => nomatch h

theorem findsDatabase_assigned (columns : List Text) (assignments : List Assignment) :
    FindsDatabase (assigned columns assignments) := by
  induction assignments with
  | nil => exact findsDatabase_ok []
  | cons a more ih =>
      refine (findsDatabase_refuseId a.column).bind fun _ => ?_
      exact (findsDatabase_requireColumn columns a.column).bind fun i =>
        ih.bind fun _ => findsDatabase_ok _

theorem findsDatabase_matchingIds (filter : Condition) : FindsDatabase (t.matchingIds filter) :=
  (filter.findsDatabase_check t.columns).bind fun _ =>
    (filter.findsDatabase_matching t.columns t.rows).bind fun _ => findsDatabase_ok _

theorem findsDatabase_update (assignments : List Assignment) (filter : Condition) :
    FindsDatabase (t.update assignments filter) := by
  refine (findsDatabase_assigned t.columns assignments).bind fun changes => ?_
  refine (t.findsDatabase_matchingIds filter).bind fun ids => ?_
  split <;> exact findsDatabase_ok _

theorem findsDatabase_delete (filter : Condition) : FindsDatabase (t.delete filter) := by
  refine (t.findsDatabase_matchingIds filter).bind fun ids => ?_
  split <;> exact findsDatabase_ok _

theorem findsDatabase_select (items : Items) (filter : Option Condition) :
    FindsDatabase (t.select items filter) := by
  have hpositions : FindsDatabase (t.positions items) := by
    cases items with
    | all => exact findsDatabase_ok _
    | listed columns => exact findsDatabase_requireColumns t.columns columns
  have hrows : FindsDatabase (t.selectedRows filter) := by
    cases filter with
    | none => exact findsDatabase_ok _
    | some c =>
        exact (c.findsDatabase_check t.columns).bind fun _ => c.findsDatabase_matching t.columns t.rows
  exact hpositions.bind fun _ => hrows.bind fun _ => findsDatabase_ok _

theorem findsDatabase_join (leftName : Text) (left : Table) (rightName : Text) (right : Table)
    (leftColumn rightColumn : Text) :
    FindsDatabase (join leftName left rightName right leftColumn rightColumn) :=
  (findsDatabase_requireColumn left.columns leftColumn).bind fun _ =>
    (findsDatabase_requireColumn right.columns rightColumn).bind fun _ => findsDatabase_ok _

end Table

section plans
variable {κ : Type} {catalog : Catalog κ} {session : Session}

namespace Catalog

theorem findsDatabase_table (lookup : Nat) (database : Stored κ) (name : Text) :
    FindsDatabase (catalog.table lookup database name) := by
  unfold table
  split <;> exact fun _ h => nomatch h

theorem findsDatabase_loadTable (lookup : Nat) (database : Stored κ) (name : Text) :
    FindsDatabase (catalog.loadTable lookup database name) :=
  (findsDatabase_table lookup database name).bind fun stored =>
    (findsDatabase_ofStorage (catalog.load stored.key)).bind fun _ => findsDatabase_ok _

/-- No database is missing when the selected one is found. -/
theorem findsDatabase_selected
    (h : ∀ selected, session.database = some selected → catalog.database? selected ≠ none) :
    FindsDatabase (catalog.selected session.database) := by
  cases hs : session.database with
  | none => exact fun _ h => nomatch h
  | some selected =>
      change FindsDatabase (catalog.database selected)
      unfold Catalog.database
      cases hd : catalog.database? selected with
      | none => exact absurd hd (h selected hs)
      | some stored => exact findsDatabase_ok stored

end Catalog

namespace Command

theorem findsDatabase_parse (t : Text) : FindsDatabase (parse t) := by
  unfold parse
  split
  · exact fun _ h => nomatch h
  · split <;> exact fun _ h => nomatch h

theorem findsDatabase_planRevision (h : FindsDatabase (catalog.selected session.database)) (name : Text)
    {f : Table → Except Error (Option Table)} (hf : ∀ t, FindsDatabase (f t)) :
    FindsDatabase (planRevision catalog session name f) :=
  h.bind fun database => (Catalog.findsDatabase_loadTable 0 database name).bind fun x =>
    (hf x.2).bind fun _ => findsDatabase_ok _

/-- **A table command whose database is found** does not end with a missing database. -/
theorem findsDatabase_plan {c : Command} (hc : c.aboutDatabases = false)
    (h : FindsDatabase (catalog.selected session.database)) :
    FindsDatabase (c.plan catalog session) := by
  cases c with
  | use name => cases hc
  | createDatabase name => cases hc
  | dropDatabase name => cases hc
  | createTable name columns =>
      refine h.bind fun database => ?_
      refine (findsDatabase_ofStorage (catalog.table? 0 database.key name)).bind fun found => ?_
      cases found with
      | some stored => exact fun _ h => nomatch h
      | none => exact (Table.findsDatabase_create columns).bind fun t => findsDatabase_ok _
  | dropTable name =>
      exact h.bind fun database =>
        (Catalog.findsDatabase_table 0 database name).bind fun stored => findsDatabase_ok _
  | alter name alteration column =>
      exact findsDatabase_planRevision h name fun t => (t.findsDatabase_alter alteration column).map some
  | insert name values =>
      refine h.bind fun database => (Catalog.findsDatabase_loadTable 0 database name).bind fun x => ?_
      refine (x.2.findsDatabase_checkValues values).bind fun _ => ?_
      exact (findsDatabase_ofStorage catalog.counters).bind fun counters => findsDatabase_ok _
  | select items name filter =>
      refine h.bind fun database => (Catalog.findsDatabase_loadTable 0 database name).bind fun x => ?_
      exact (x.2.findsDatabase_select items filter).bind fun result => findsDatabase_ok _
  | update name assignments filter =>
      exact findsDatabase_planRevision h name fun t => t.findsDatabase_update assignments filter
  | delete name filter =>
      exact findsDatabase_planRevision h name fun t => t.findsDatabase_delete filter
  | join left right leftKey rightKey =>
      refine h.bind fun database => (Catalog.findsDatabase_loadTable 0 database left).bind fun x => ?_
      refine (Catalog.findsDatabase_loadTable 1 database right).bind fun y => ?_
      exact (Table.findsDatabase_join _ _ _ _ leftKey rightKey).bind fun result => findsDatabase_ok _

end Command

end plans

/-! ### What becomes of a session -/

/-- The selected database, if there is one, is among some names. -/
def Session.Among (names : List Text) (session : Session) : Prop :=
  ∀ selected, session.database = some selected → selected ∈ names

/-- All that a command can make of a session, where databases are stored under some names. -/
inductive Session.Becomes (names : List Text) (session : Session) : Command → Session → Prop where
  | entered {name stored : Text} (hm : stored ∈ names) (hs : sameName stored name = true) :
      Becomes names session (.use name) ⟨some stored⟩
  | left {name selected : Text} (hs : session.database = some selected)
      (he : sameName selected name = true) : Becomes names session (.dropDatabase name) .new
  | kept {c : Command} (hu : ∀ name, c ≠ .use name)
      (hd : ∀ name selected, c = .dropDatabase name → session.database = some selected →
        sameName selected name = false) : Becomes names session c session

namespace Command

variable {κ : Type} {catalog : Catalog κ} {session : Session} {p : Plan κ}

theorem session_of_planRevision {name : Text} {f : Table → Except Error (Option Table)}
    (h : planRevision catalog session name f = .ok p) : p.session = session := by
  obtain ⟨database, -, h⟩ := bind_eq_ok_iff.mp h
  obtain ⟨x, -, h⟩ := bind_eq_ok_iff.mp h
  obtain ⟨revised, -, h⟩ := bind_eq_ok_iff.mp h
  cases h
  cases revised <;> rfl

/-- Commands about tables, and those that create databases, leave the session alone. -/
theorem session_of_plan {c : Command} (hu : ∀ name, c ≠ .use name)
    (hd : ∀ name, c ≠ .dropDatabase name) (h : c.plan catalog session = .ok p) :
    p.session = session := by
  cases c with
  | use name => exact absurd rfl (hu name)
  | dropDatabase name => exact absurd rfl (hd name)
  | createDatabase name =>
      rw [plan, planCreateDatabase] at h
      split at h
      · cases h
      · cases h
        rfl
  | createTable name columns =>
      obtain ⟨database, -, h⟩ := bind_eq_ok_iff.mp h
      obtain ⟨found, -, h⟩ := bind_eq_ok_iff.mp h
      cases found with
      | some stored => cases h
      | none =>
          obtain ⟨t, -, h⟩ := bind_eq_ok_iff.mp h
          cases h
          rfl
  | dropTable name =>
      obtain ⟨database, -, h⟩ := bind_eq_ok_iff.mp h
      obtain ⟨stored, -, h⟩ := bind_eq_ok_iff.mp h
      cases h
      rfl
  | alter name alteration column =>
      rw [plan] at h
      exact session_of_planRevision h
  | insert name values =>
      obtain ⟨_, _, _, _, _, -, rfl⟩ := planInsert_eq_ok_iff.mp h
      rfl
  | select items name filter =>
      obtain ⟨database, -, h⟩ := bind_eq_ok_iff.mp h
      obtain ⟨x, -, h⟩ := bind_eq_ok_iff.mp h
      obtain ⟨result, -, h⟩ := bind_eq_ok_iff.mp h
      cases h
      rfl
  | update name assignments filter =>
      rw [plan] at h
      exact session_of_planRevision h
  | delete name filter =>
      rw [plan] at h
      exact session_of_planRevision h
  | join left right leftKey rightKey =>
      obtain ⟨database, -, h⟩ := bind_eq_ok_iff.mp h
      obtain ⟨x, -, h⟩ := bind_eq_ok_iff.mp h
      obtain ⟨y, -, h⟩ := bind_eq_ok_iff.mp h
      obtain ⟨result, -, h⟩ := bind_eq_ok_iff.mp h
      cases h
      rfl

/-- **The session of a plan**, where the catalog finds databases among some names, ignoring case. -/
theorem becomes_of_plan {names : List Text}
    (hfind : ∀ {name : Text} {database : Stored κ}, catalog.database? name = some database →
      database.name ∈ names ∧ sameName database.name name = true)
    {c : Command} (h : c.plan catalog session = .ok p) : session.Becomes names c p.session := by
  by_cases hu : ∃ name, c = .use name
  · obtain ⟨name, rfl⟩ := hu
    obtain ⟨database, hd, h⟩ := bind_eq_ok_iff.mp h
    cases h
    obtain ⟨hm, hs⟩ := hfind (Catalog.database_eq_ok_iff.mp hd)
    exact .entered hm hs
  · by_cases hd : ∃ name, c = .dropDatabase name
    · obtain ⟨name, rfl⟩ := hd
      obtain ⟨database, -, h⟩ := bind_eq_ok_iff.mp h
      cases h
      change session.Becomes names _ (session.leave name)
      cases hs : session.database with
      | none =>
          have hleave : session.leave name = session := by rw [Session.leave, hs]
          rw [hleave]
          exact .kept (fun _ hc => nomatch hc) fun _ _ _ hs' => by rw [hs] at hs'; cases hs'
      | some selected =>
          by_cases he : sameName selected name = true
          · have hleave : session.leave name = .new := by
              rw [Session.leave, hs]
              exact if_pos he
            rw [hleave]
            exact .left hs he
          · have hleave : session.leave name = session := by
              rw [Session.leave, hs]
              exact if_neg he
            rw [hleave]
            refine .kept (fun _ hc => nomatch hc) fun _ _ hc hs' => ?_
            cases hc
            rw [hs, Option.some.injEq] at hs'
            rw [← hs', Bool.eq_false_iff]
            exact he
    · rw [session_of_plan (fun name hc => hu ⟨name, hc⟩) (fun name hc => hd ⟨name, hc⟩) h]
      exact .kept (fun name hc => hu ⟨name, hc⟩) fun name _ hc _ => absurd ⟨name, hc⟩ hd

end Command

/-! ### Any call -/

/-- The databases below a root, under the names they are stored under. -/
def Disk.databases (d : Disk) (root : Path) : List Text :=
  match d.list root with
  | .ok entries => (entries.filter (·.2.isFolder)).map Prod.fst
  | .error _ => []

theorem Disk.mem_databases_iff {d : Disk} {root : Path} {name : Text} :
    name ∈ d.databases root ↔
      ∃ entries below, d.list root = .ok entries ∧ (name, .directory below) ∈ entries := by
  unfold Disk.databases
  cases d.list root with
  | error cause => simp
  | ok entries =>
      simp only [List.mem_map, List.mem_filter, Except.ok.injEq, exists_and_left, exists_eq_left']
      constructor
      · rintro ⟨⟨entry, node⟩, ⟨he, hf⟩, rfl⟩
        cases node with
        | file bytes => cases hf
        | directory below => exact ⟨below, he⟩
      · rintro ⟨below, he⟩
        exact ⟨_, ⟨he, rfl⟩, rfl⟩

theorem Disk.mem_databases_of_findDatabase {d : Disk} {root : Path} {l : Listing} {name : Text}
    {stored : Stored Path} (h : d.findDatabase l.order root name = some stored) :
    stored.name ∈ d.databases root ∧ sameName stored.name name = true := by
  obtain ⟨entries, below, hl, hmem, hname, -⟩ := Disk.exists_of_findDatabase h
  exact ⟨Disk.mem_databases_iff.mpr ⟨entries, below, hl, hmem⟩, hname⟩

/-- A call that fails leaves the session as it was. -/
theorem Call.session_of_error {root : Text} {call : Call} {session : Session} {d : Disk} {why : Error}
    (h : ((call.engine root).runText session d call.input).result = .error why) :
    ((call.engine root).runText session d call.input).session = session := by
  unfold Engine.runText at h ⊢
  split at h
  · exact Engine.session_of_error h
  · rfl

/-- **A call that succeeds** has spelled a command, and the session is what the command makes of it. -/
theorem Call.becomes {root : Text} {call : Call} {session : Session} {d : Disk}
    {result : Option ResultSet}
    (h : ((call.engine root).runText session d call.input).result = .ok result) :
    ∃ c, Command.parse call.input = .ok c ∧ session.Becomes (d.databases (.ofText root)) c
      ((call.engine root).runText session d call.input).session := by
  unfold Engine.runText at h ⊢
  cases hp : Command.parse call.input with
  | error why =>
      rw [hp] at h
      cases h
  | ok c =>
      rw [hp] at h
      refine ⟨c, rfl, ?_⟩
      dsimp only at h ⊢
      unfold Engine.run at h ⊢
      cases hplan : c.plan (d.catalog (call.engine root).order (call.engine root).root) session with
      | error why =>
          rw [hplan] at h
          cases h
      | ok p =>
          rw [hplan] at h
          have hbecomes := Command.becomes_of_plan
            (fun {_ _} hd => Disk.mem_databases_of_findDatabase (l := call.listings 0) hd) hplan
          dsimp only at h ⊢
          unfold Engine.perform at h ⊢
          rcases hmake : Change.makeAll (call.engine root).root d p.changes with ⟨_ | _, d'⟩
          · rw [hmake] at h
            cases h
          · exact hbecomes

/-! ### Commands in memory -/

namespace Memory

open Entries

variable {m : Memory} {root : Text} {place : Place} {d₀ d : Disk} {session : Session}

/-- Only dropping a database takes the name of one away. -/
theorem mem_names_make {change : Change Key} (hd : ∀ key, change ≠ .dropDatabase key) {name : Text}
    (h : name ∈ m.databases.map Prod.fst) : name ∈ (m.make change).databases.map Prod.fst := by
  have hset (n : Text) (ts : List (Text × Table)) :
      name ∈ (m.setTables n ts).databases.map Prod.fst := by
    change name ∈ (Entries.set n ts m.databases).map Prod.fst
    rw [names_set]
    split
    · exact h
    · exact List.mem_append_left _ h
  unfold Memory.make
  split
  · exact hset _ _
  · exact absurd rfl (hd _)
  · exact hset _ _
  · exact hset _ _
  · exact h
  · exact h
  · exact h
  · exact h

theorem mem_names_makeWithin (root : Text) {changes : List (Change Key)}
    (hd : ∀ change ∈ changes, ∀ key, change ≠ .dropDatabase key) {name : Text}
    (h : name ∈ m.databases.map Prod.fst) :
    name ∈ (makeWithin root m changes).2.databases.map Prod.fst := by
  induction changes generalizing m with
  | nil => exact h
  | cons change more ih =>
      rw [makeWithin]
      split
      · exact ih (fun c hc => hd c (List.mem_cons_of_mem _ hc))
          (mem_names_make (hd change List.mem_cons_self) h)
      · exact h

/-- Only `DROP DATABASE` plans to drop a database. -/
theorem not_dropDatabase_of_planned {κ : Type} {catalog : Catalog κ} {c : Command}
    {changes : List (Change κ)} (h : c.Planned catalog session changes)
    (hc : ∀ name, c ≠ .dropDatabase name) : ∀ change ∈ changes, ∀ key, change ≠ .dropDatabase key := by
  cases h with
  | nothing => exact fun _ hm => nomatch hm
  | createDatabase hd => simp
  | dropDatabase hd => exact absurd rfl (hc _)
  | createTable hs hd hn ht => simp
  | dropTable hs hd hf => simp
  | revise hs hd hf hl hr => simp
  | insert hi => simp [Command.insertion]

theorem mem_names_of_catalog {counters : Except StorageError Registry} {name : Text}
    {database : Stored Key} (h : (m.catalogWith counters).database? name = some database) :
    database.name ∈ m.databases.map Prod.fst ∧ sameName database.name name = true := by
  obtain ⟨e, he, hs, rfl⟩ := database_of_catalog h
  exact ⟨List.mem_map_of_mem he, hs⟩

/-- A database that is dropped and left takes no other one with it. -/
theorem Among.dropDatabase (hs : session.Among (m.databases.map Prod.fst))
    {e : Text × List (Text × Table)} {name : Text} (hname : sameName e.1 name = true) :
    (session.leave name).Among ((Entries.erase e.1 m.databases).map Prod.fst) := by
  intro selected hselected
  unfold Session.leave at hselected
  split at hselected
  · next s hdb =>
      split at hselected
      · cases hselected
      · next hne =>
          rw [hdb, Option.some.injEq] at hselected
          subst hselected
          obtain ⟨e', he', hfst⟩ := List.mem_map.mp (hs s hdb)
          refine List.mem_map.mpr ⟨e', List.mem_filter.mpr ⟨he', ?_⟩, hfst⟩
          rw [decide_eq_true_eq, hfst]
          rintro rfl
          exact hne hname
  · next hdb =>
      rw [hdb] at hselected
      cases hselected

/-- **A command keeps the selected database** among the databases in memory. -/
theorem among_runWithin (hs : session.Among (m.databases.map Prod.fst)) (c : Command) :
    (m.runWithin root session c).session.Among
      ((m.runWithin root session c).memory.databases.map Prod.fst) := by
  unfold runWithin
  cases hp : c.plan (m.catalogWith (m.readable root)) session with
  | error why => exact hs
  | ok p =>
      by_cases hdrop : ∃ name, c = .dropDatabase name
      · obtain ⟨name, rfl⟩ := hdrop
        obtain ⟨database, hd, hp⟩ := bind_eq_ok_iff.mp hp
        cases hp
        obtain ⟨e, -, hname, rfl⟩ := database_of_catalog (Catalog.database_eq_ok_iff.mp hd)
        exact Among.dropDatabase hs hname
      · have hchanges := not_dropDatabase_of_planned (Command.planned_of_plan hp)
          fun name hc => hdrop ⟨name, hc⟩
        have hkeep {name : Text} (h : name ∈ m.databases.map Prod.fst) :=
          mem_names_makeWithin root hchanges h
        have hp' : p.session.Among (m.databases.map Prod.fst) := by
          have hbecomes := Command.becomes_of_plan mem_names_of_catalog hp
          generalize p.session = after at hbecomes
          cases hbecomes with
          | entered hm _ => exact fun selected hsel => Option.some.inj hsel ▸ hm
          | left => exact fun _ hsel => nomatch hsel
          | kept _ _ => exact hs
        dsimp only
        rcases hmake : makeWithin root m p.changes with ⟨_ | _, m'⟩ <;> rw [hmake] at hkeep
        · exact fun selected hsel => hkeep (hs selected hsel)
        · exact fun selected hsel => hkeep (hp' selected hsel)

theorem among_runTextWithin (hs : session.Among (m.databases.map Prod.fst)) (input : Text) :
    (m.runTextWithin root session input).session.Among
      ((m.runTextWithin root session input).memory.databases.map Prod.fst) := by
  unfold runTextWithin
  split
  · exact among_runWithin hs _
  · exact hs

/-- A table command of a session whose database is in memory does not miss it. -/
theorem findsDatabase_runTextWithin (root : Text) (hs : session.Among (m.databases.map Prod.fst)) {input : Text}
    (hc : ∀ c, Command.parse input = .ok c → c.aboutDatabases = false) :
    FindsDatabase (m.runTextWithin root session input).result := by
  unfold runTextWithin
  cases hp : Command.parse input with
  | error why =>
      have hparse := Command.findsDatabase_parse input
      rw [hp] at hparse
      exact fun name hname => hparse name (congrArg Except.error (Except.error.inj hname))
  | ok c =>
      have hplan : FindsDatabase (c.plan (m.catalogWith (m.readable root)) session) := by
        refine Command.findsDatabase_plan (hc c hp) (Catalog.findsDatabase_selected ?_)
        intro selected hsel hnone
        obtain ⟨e, he, hfst⟩ := List.mem_map.mp (hs selected hsel)
        have hno := named_eq_none_iff.mp (Option.map_eq_none_iff.mp hnone) e he
        rw [hfst, sameName_refl] at hno
        cases hno
      dsimp only
      unfold runWithin
      cases hpl : c.plan (m.catalogWith (m.readable root)) session with
      | error why =>
          rw [hpl] at hplan
          exact fun name hname => hplan name (congrArg Except.error (Except.error.inj hname))
      | ok p =>
          dsimp only
          split <;> exact fun _ h => nomatch h

/-- The databases on a mirror are those in memory. -/
theorem Mirrors.mem_databases_iff (h : Mirrors root place d₀ m d) (hr : EmptyRoot root place d₀)
    {name : Text} : name ∈ d.databases (.ofText root) ↔ name ∈ m.databases.map Prod.fst := by
  obtain ⟨es, hes, hp⟩ := h.list_root hr
  unfold Disk.databases
  rw [hes, ← entries_isFolder m]
  exact ((hp.filter _).map _).mem_iff

end Memory

/-! ### Runs -/

section runs
variable {root : Text} {place : Place} {d₀ : Disk} {client : Nat}

/-- A run of one client keeps the selected database among those in memory. -/
theorem among_after (hr : EmptyRoot root place d₀) {w : World Disk} {m : Memory}
    (h : m.Mirrors root place d₀ w.store) (hw : m.WellFormed)
    (hs : (w.sessions client).Among (m.databases.map Prod.fst)) {calls : List Call}
    (hc : ∀ c ∈ calls, c.client = client) :
    ∃ m' : Memory, m'.WellFormed ∧ m'.Mirrors root place d₀ (w.after root (calls.map .call)).store ∧
      ((w.after root (calls.map .call)).sessions client).Among (m'.databases.map Prod.fst) := by
  induction calls generalizing w m with
  | nil => exact ⟨m, hw, h, hs⟩
  | cons c more ih =>
      obtain ⟨-, hsession, h', hw'⟩ := h.runText_eq hr hw c (w.sessions c.client)
      refine ih (w := w.step root (.call c)) h' hw' ?_ fun c' hc' => hc c' (List.mem_cons_of_mem _ hc')
      have hclient := hc c List.mem_cons_self
      change (if client = c.client then _ else _ : Session).Among _
      rw [if_pos hclient.symm]
      change ((c.engine root).runText _ _ _).session.Among _
      rw [hsession]
      exact Memory.among_runTextWithin (hclient ▸ hs) c.input

end runs

/-- **A session points at a database that is there.**

In every run of a single client that begins with an empty root, the database that is selected, if there
is one, is stored below the root under exactly the name that is remembered; so no further call with
anything but a command about whole databases is answered that a database is missing.

In every step of any run, of however many clients, a call touches the session of its own client only.
If the call fails, the session stays as it was; if it succeeds, the session becomes what `Session.Becomes`
says: `USE` selects a stored name, `DROP DATABASE` leaves the database that is selected, and nothing
else changes it. -/
theorem selected_after {root : Text} {d : Disk} (h : d.list (.ofText root) = .ok []) :
    (∀ (client : Nat) (calls : List Call), (∀ c ∈ calls, c.client = client) →
      let w := (World.start d).after root (calls.map .call)
      (w.sessions client).Among (w.store.databases (.ofText root)) ∧
        ∀ c : Call, (∀ command, Command.parse c.input = .ok command → command.aboutDatabases = false) →
          ∀ name, ((c.engine root).runText (w.sessions client) w.store c.input).result ≠
            .error (.databaseNotFound name)) ∧
    ∀ (w : World Disk) (c : Call),
      let o := (c.engine root).runText (w.sessions c.client) w.store c.input
      (w.step root (.call c)).sessions c.client = o.session ∧
        (∀ client, client ≠ c.client → (w.step root (.call c)).sessions client = w.sessions client) ∧
        (∀ why, o.result = .error why → o.session = w.sessions c.client) ∧
        ∀ result, o.result = .ok result →
          ∃ command, Command.parse c.input = .ok command ∧
            (w.sessions c.client).Becomes (w.store.databases (.ofText root)) command o.session := by
  constructor
  · intro client calls hcalls
    obtain ⟨place, hr⟩ := emptyRoot_of_list h
    have hnew : ((World.start d).sessions client).Among [] := fun _ hsel => nomatch hsel
    obtain ⟨m, hw, hm, hs⟩ := among_after hr (w := World.start d) (Memory.mirrors_empty hr)
      Memory.wellFormed_empty hnew hcalls
    refine ⟨fun selected hsel => (hm.mem_databases_iff hr).mpr (hs selected hsel), fun c hc => ?_⟩
    have hresult := (hm.runText_eq hr hw c
      (((World.start d).after root (calls.map .call)).sessions client)).1
    have hfinds := Memory.findsDatabase_runTextWithin root hs hc
    rw [← hresult] at hfinds
    exact hfinds
  · intro w c
    refine ⟨if_pos rfl, fun client hne => if_neg hne, ?_, ?_⟩
    · exact fun why hwhy => Call.session_of_error hwhy
    · exact fun result hok => Call.becomes hok

/-- A client drops the database it has selected under another spelling, creates it again and selects it
under a third one. -/
def exampleTurns : List Call :=
  [.of 0 "CREATE DATABASE Shop;", .of 0 "USE SHOP;", .of 0 "DROP DATABASE shop;",
    .of 0 "CREATE DATABASE shOp;", .of 0 "USE Shop;", .of 0 "USE store;"]

theorem selected_after_exampleTurns :
    let w := (World.start exampleDisk).after "data".toList (exampleTurns.map .call)
    (w.sessions 0).Among (w.store.databases (.ofText "data".toList)) ∧
      (w.sessions 0).database = some "shOp".toList ∧
      ∀ name, (((Call.of 0 "SELECT * FROM t;").engine "data".toList).runText (w.sessions 0) w.store
        "SELECT * FROM t;".toList).result ≠ .error (.databaseNotFound name) := by
  have hempty : exampleDisk.list (.ofText "data".toList) = .ok [] := rfl
  have hclient : ∀ c ∈ exampleTurns, c.client = 0 := by decide
  obtain ⟨hvalid, hfinds⟩ := (selected_after hempty).1 0 exampleTurns hclient
  refine ⟨hvalid, by decide +kernel, hfinds (.of 0 "SELECT * FROM t;") ?_⟩
  intro command hp
  have hselect : Command.parse "SELECT * FROM t;".toList = .ok (.select .all "t".toList none) := by rfl
  change Command.parse "SELECT * FROM t;".toList = _ at hp
  rw [hselect] at hp
  cases hp
  rfl

end FlatDb
