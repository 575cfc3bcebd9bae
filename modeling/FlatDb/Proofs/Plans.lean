import FlatDb.Command.Plan
import FlatDb.Proofs.Words

/-! # What a plan can hold

Plans are made from a catalog, whatever it stands for.

* `Command.planned_of_plan` lists **all changes a plan can hold**, each with what the catalog
  answered before.  Facts about what commands change are read off this list, so that no proof looks
  at the planning of single commands again.
* `Command.plan_map`: **catalogs with the same answers give the same plans**, where one refers to
  its keys by those of the other (`Catalog.Simulates`). -/

namespace FlatDb

/-! ### Guards in sequence -/

section guards
variable {ε α β γ δ : Type}

theorem bind_eq_ok_iff {x : Except ε α} {f : α → Except ε β} {b : β} :
    x >>= f = .ok b ↔ ∃ a, x = .ok a ∧ f a = .ok b := by
  cases x with
  | error e => simp [Bind.bind, Except.bind]
  | ok a => simp [Bind.bind, Except.bind]

theorem bind_eq_error_iff {x : Except ε α} {f : α → Except ε β} {why : ε} :
    x >>= f = .error why ↔ x = .error why ∨ ∃ a, x = .ok a ∧ f a = .error why := by
  cases x with
  | error e => simp [Bind.bind, Except.bind]
  | ok a => simp [Bind.bind, Except.bind]

theorem map_eq_ok_iff {x : Except ε α} {f : α → β} {b : β} :
    x.map f = .ok b ↔ ∃ a, x = .ok a ∧ f a = b := by
  cases x with
  | error e => simp [Except.map]
  | ok a => simp [Except.map]

theorem map_eq_error_iff {x : Except ε α} {f : α → β} {why : ε} :
    x.map f = .error why ↔ x = .error why := by
  cases x with
  | error e => simp [Except.map]
  | ok a => simp [Except.map]

/-- Two sequences of guards agree when what follows the first guard does. -/
theorem bind_map_congr {x : Except ε α} {g : α → γ} {k : γ → Except ε δ} {k' : α → Except ε β}
    {h : β → δ} (hk : ∀ a, x = .ok a → k (g a) = (k' a).map h) :
    x.map g >>= k = (x >>= k').map h := by
  cases x with
  | error e => rfl
  | ok a => exact hk a rfl

theorem bind_congr_map {x : Except ε α} {k : α → Except ε δ} {k' : α → Except ε β} {h : β → δ}
    (hk : ∀ a, x = .ok a → k a = (k' a).map h) : x >>= k = (x >>= k').map h := by
  cases x with
  | error e => rfl
  | ok a => exact hk a rfl

end guards

theorem ofStorage_eq_ok_iff {α : Type} {x : Except StorageError α} {a : α} :
    Error.ofStorage x = .ok a ↔ x = .ok a := by
  cases x <;> simp [Error.ofStorage]

theorem ofStorage_map {α β : Type} (f : α → β) (x : Except StorageError α) :
    Error.ofStorage (x.map f) = (Error.ofStorage x).map f := by
  cases x <;> rfl

/-! ### Lookups -/

namespace Catalog

variable {κ : Type} {catalog : Catalog κ} {stored : Stored κ}

theorem database_eq_ok_iff {name : Text} :
    catalog.database name = .ok stored ↔ catalog.database? name = some stored := by
  unfold database
  split <;> simp_all

theorem selected_eq_ok_iff {selected : Option Text} :
    catalog.selected selected = .ok stored ↔
      ∃ name, selected = some name ∧ catalog.database? name = some stored := by
  cases selected with
  | none => simp [Catalog.selected]
  | some name => simp [Catalog.selected, database_eq_ok_iff]

theorem table_eq_ok_iff {lookup : Nat} {database : Stored κ} {name : Text} :
    catalog.table lookup database name = .ok stored ↔
      catalog.table? lookup database.key name = .ok (some stored) := by
  unfold table
  split <;> simp_all

theorem loadTable_eq_ok_iff {lookup : Nat} {database : Stored κ} {name : Text} {t : Table} :
    catalog.loadTable lookup database name = .ok (stored, t) ↔
      catalog.table? lookup database.key name = .ok (some stored) ∧
        catalog.load stored.key = .ok t := by
  unfold loadTable
  rw [bind_eq_ok_iff]
  constructor
  · rintro ⟨a, ha, h⟩
    obtain ⟨b, hb, hab⟩ := bind_eq_ok_iff.mp h
    cases hab
    exact ⟨table_eq_ok_iff.mp ha, ofStorage_eq_ok_iff.mp hb⟩
  · rintro ⟨ha, hb⟩
    refine ⟨stored, table_eq_ok_iff.mpr ha, ?_⟩
    rw [bind_eq_ok_iff]
    exact ⟨t, ofStorage_eq_ok_iff.mpr hb, rfl⟩

end Catalog

/-! ### All changes of a plan -/

namespace Command

variable {κ : Type}

/-- The commands that turn one table into another, with the new table. -/
inductive Revises : Command → Text → Table → Table → Prop where
  | alter {name : Text} {alteration : Alteration} {column : Text} {t t' : Table}
      (h : t.alter alteration column = .ok t') : Revises (.alter name alteration column) name t t'
  | update {name : Text} {assignments : List Assignment} {filter : Condition} {t t' : Table}
      (h : t.update assignments filter = .ok (some t')) :
      Revises (.update name assignments filter) name t t'
  | delete {name : Text} {filter : Condition} {t t' : Table}
      (h : t.delete filter = .ok (some t')) : Revises (.delete name filter) name t t'

/-- What a catalog answers when a row can be put into a table: the selected database and the table
are there, the values fit, and the counters can be read. -/
structure Insertion (catalog : Catalog κ) (session : Session) (selected name : Text)
    (values : List Literal) (database stored : Stored κ) (t : Table) (counters : Registry) :
    Prop where
  session_eq : session.database = some selected
  database_eq : catalog.database? selected = some database
  table_eq : catalog.table? 0 database.key name = .ok (some stored)
  load_eq : catalog.load stored.key = .ok t
  check_eq : t.checkValues values = .ok ()
  counters_eq : catalog.counters = .ok counters

/-- The counters without the next id of a table that was found, then the table with a row of that
id. -/
def insertion (database stored : Stored κ) (t : Table) (counters : Registry)
    (values : List Literal) : List (Change κ) :=
  let (id, counters) := counters.allocate database.name stored.name
  [.storeCounters counters, .storeTable stored.key (t.append id values)]

/-- The changes a command can plan, with the answers of the catalog that lead to them. -/
inductive Planned (catalog : Catalog κ) (session : Session) : Command → List (Change κ) → Prop where
  | nothing (c : Command) : Planned catalog session c []
  | createDatabase {name : Text} (h : catalog.database? name = none) :
      Planned catalog session (.createDatabase name) [.createDatabase name]
  | dropDatabase {name : Text} {database : Stored κ}
      (h : catalog.database? name = some database) :
      Planned catalog session (.dropDatabase name) [.dropDatabase database.key]
  | createTable {selected name : Text} {columns : List Text} {database : Stored κ} {t : Table}
      (hs : session.database = some selected) (hd : catalog.database? selected = some database)
      (hn : catalog.table? 0 database.key name = .ok none) (ht : Table.create columns = .ok t) :
      Planned catalog session (.createTable name columns)
        [.storeTable (catalog.vacant database.key name) t]
  | dropTable {selected name : Text} {database stored : Stored κ}
      (hs : session.database = some selected) (hd : catalog.database? selected = some database)
      (hf : catalog.table? 0 database.key name = .ok (some stored)) :
      Planned catalog session (.dropTable name) [.dropTable stored.key]
  | revise {c : Command} {selected name : Text} {database stored : Stored κ} {t t' : Table}
      (hs : session.database = some selected) (hd : catalog.database? selected = some database)
      (hf : catalog.table? 0 database.key name = .ok (some stored))
      (hl : catalog.load stored.key = .ok t) (hr : c.Revises name t t') :
      Planned catalog session c [.storeTable stored.key t']
  | insert {selected name : Text} {values : List Literal} {database stored : Stored κ} {t : Table}
      {counters : Registry}
      (h : Insertion catalog session selected name values database stored t counters) :
      Planned catalog session (.insert name values) (insertion database stored t counters values)

variable {catalog : Catalog κ} {session : Session}

/-- A row is inserted exactly when the catalog answers so. -/
theorem planInsert_eq_ok_iff {name : Text} {values : List Literal} {p : Plan κ} :
    planInsert catalog session name values = .ok p ↔
      ∃ selected database stored t counters,
        Insertion catalog session selected name values database stored t counters ∧
          p = .change session (insertion database stored t counters values) := by
  unfold planInsert
  constructor
  · intro h
    obtain ⟨database, hd, h⟩ := bind_eq_ok_iff.mp h
    obtain ⟨selected, hs, hd⟩ := Catalog.selected_eq_ok_iff.mp hd
    obtain ⟨⟨stored, t⟩, hl, h⟩ := bind_eq_ok_iff.mp h
    obtain ⟨hf, hl⟩ := Catalog.loadTable_eq_ok_iff.mp hl
    obtain ⟨⟨⟩, hv, h⟩ := bind_eq_ok_iff.mp h
    obtain ⟨counters, hc, h⟩ := bind_eq_ok_iff.mp h
    cases h
    exact ⟨selected, database, stored, t, counters,
      ⟨hs, hd, hf, hl, hv, ofStorage_eq_ok_iff.mp hc⟩, rfl⟩
  · rintro ⟨selected, database, stored, t, counters, h, rfl⟩
    have hd := Catalog.selected_eq_ok_iff.mpr ⟨selected, h.session_eq, h.database_eq⟩
    have hl := Catalog.loadTable_eq_ok_iff.mpr ⟨h.table_eq, h.load_eq⟩
    have hc := ofStorage_eq_ok_iff.mpr h.counters_eq
    refine bind_eq_ok_iff.mpr ⟨database, hd, bind_eq_ok_iff.mpr ⟨(stored, t), hl, ?_⟩⟩
    exact bind_eq_ok_iff.mpr ⟨(), h.check_eq, bind_eq_ok_iff.mpr ⟨counters, hc, rfl⟩⟩

theorem planned_of_planRevision {c : Command} {name : Text}
    {f : Table → Except Error (Option Table)} {p : Plan κ}
    (hr : ∀ t t', f t = .ok (some t') → c.Revises name t t')
    (h : planRevision catalog session name f = .ok p) : Planned catalog session c p.changes := by
  obtain ⟨database, hd, h⟩ := bind_eq_ok_iff.mp h
  obtain ⟨selected, hs, hd⟩ := Catalog.selected_eq_ok_iff.mp hd
  obtain ⟨⟨stored, t⟩, hl, h⟩ := bind_eq_ok_iff.mp h
  obtain ⟨hf, hl⟩ := Catalog.loadTable_eq_ok_iff.mp hl
  obtain ⟨revised, ht, h⟩ := bind_eq_ok_iff.mp h
  cases h
  cases revised with
  | none => exact .nothing c
  | some t' => exact .revise hs hd hf hl (hr t t' ht)

/-- **All changes of a plan** are among those listed. -/
theorem planned_of_plan {c : Command} {p : Plan κ} (h : c.plan catalog session = .ok p) :
    Planned catalog session c p.changes := by
  cases c with
  | use name =>
      obtain ⟨database, -, h⟩ := bind_eq_ok_iff.mp h
      cases h
      exact .nothing _
  | createDatabase name =>
      rw [plan, planCreateDatabase] at h
      split at h
      · cases h
      · next hd =>
          cases h
          exact .createDatabase hd
  | dropDatabase name =>
      obtain ⟨database, hd, h⟩ := bind_eq_ok_iff.mp h
      cases h
      exact .dropDatabase (Catalog.database_eq_ok_iff.mp hd)
  | createTable name columns =>
      obtain ⟨database, hd, h⟩ := bind_eq_ok_iff.mp h
      obtain ⟨selected, hs, hd⟩ := Catalog.selected_eq_ok_iff.mp hd
      obtain ⟨found, hf, h⟩ := bind_eq_ok_iff.mp h
      cases found with
      | some stored => cases h
      | none =>
          obtain ⟨t, ht, h⟩ := bind_eq_ok_iff.mp h
          cases h
          exact .createTable hs hd (ofStorage_eq_ok_iff.mp hf) ht
  | dropTable name =>
      obtain ⟨database, hd, h⟩ := bind_eq_ok_iff.mp h
      obtain ⟨selected, hs, hd⟩ := Catalog.selected_eq_ok_iff.mp hd
      obtain ⟨stored, hf, h⟩ := bind_eq_ok_iff.mp h
      cases h
      exact .dropTable hs hd (Catalog.table_eq_ok_iff.mp hf)
  | alter name alteration column =>
      rw [plan] at h
      refine planned_of_planRevision (fun t t' ht => ?_) h
      obtain ⟨t'', ht, he⟩ := map_eq_ok_iff.mp ht
      cases he
      exact .alter ht
  | insert name values =>
      obtain ⟨selected, database, stored, t, counters, hi, rfl⟩ := planInsert_eq_ok_iff.mp h
      exact .insert hi
  | select items name filter =>
      obtain ⟨database, -, h⟩ := bind_eq_ok_iff.mp h
      obtain ⟨⟨stored, t⟩, -, h⟩ := bind_eq_ok_iff.mp h
      obtain ⟨result, -, h⟩ := bind_eq_ok_iff.mp h
      cases h
      exact .nothing _
  | update name assignments filter =>
      rw [plan] at h
      exact planned_of_planRevision (fun t t' ht => .update ht) h
  | delete name filter =>
      rw [plan] at h
      exact planned_of_planRevision (fun t t' ht => .delete ht) h
  | join left right leftKey rightKey =>
      obtain ⟨database, -, h⟩ := bind_eq_ok_iff.mp h
      obtain ⟨⟨leftStored, leftTable⟩, -, h⟩ := bind_eq_ok_iff.mp h
      obtain ⟨⟨rightStored, rightTable⟩, -, h⟩ := bind_eq_ok_iff.mp h
      obtain ⟨result, -, h⟩ := bind_eq_ok_iff.mp h
      cases h
      exact .nothing _

end Command

/-! ### Catalogs with the same answers -/

section simulation
variable {κ ι : Type}

/-- What was found, under another key. -/
def Stored.map (f : ι → κ) (stored : Stored ι) : Stored κ := ⟨stored.name, f stored.key⟩

/-- A change, under another key. -/
def Change.map (f : ι → κ) : Change ι → Change κ
  | createDatabase name => createDatabase name
  | dropDatabase key => dropDatabase (f key)
  | storeTable key t => storeTable (f key) t
  | dropTable key => dropTable (f key)
  | storeCounters counters => storeCounters counters

/-- A plan, with other keys. -/
def Plan.map (f : ι → κ) (p : Plan ι) : Plan κ := ⟨p.session, p.result, p.changes.map (Change.map f)⟩

/-- A catalog answers as another one does, and refers to what is found by other keys. -/
structure Catalog.Simulates (catalog : Catalog κ) (other : Catalog ι) (f : ι → κ) : Prop where
  database? : ∀ name, catalog.database? name = (other.database? name).map (Stored.map f)
  table? : ∀ {name : Text} {database : Stored ι}, other.database? name = some database →
    ∀ lookup table, catalog.table? lookup (f database.key) table =
      (other.table? lookup database.key table).map (Option.map (Stored.map f))
  vacant : ∀ {name : Text} {database : Stored ι}, other.database? name = some database →
    ∀ {table : Text}, Text.IsName table →
      catalog.vacant (f database.key) table = f (other.vacant database.key table)
  load : ∀ {name : Text} {database stored : Stored ι} {lookup : Nat} {table : Text},
    other.database? name = some database →
      other.table? lookup database.key table = .ok (some stored) →
        catalog.load (f stored.key) = other.load stored.key
  counters : catalog.counters = other.counters

namespace Catalog.Simulates

variable {catalog : Catalog κ} {other : Catalog ι} {f : ι → κ}

theorem database (h : catalog.Simulates other f) (name : Text) :
    catalog.database name = (other.database name).map (Stored.map f) := by
  unfold Catalog.database
  rw [h.database?]
  cases other.database? name <;> rfl

theorem selected (h : catalog.Simulates other f) (selected : Option Text) :
    catalog.selected selected = (other.selected selected).map (Stored.map f) := by
  cases selected with
  | none => rfl
  | some name => exact h.database name

theorem table (h : catalog.Simulates other f) {name : Text} {database : Stored ι}
    (hd : other.database? name = some database) (lookup : Nat) (table : Text) :
    catalog.table lookup (database.map f) table =
      (other.table lookup database table).map (Stored.map f) := by
  unfold Catalog.table
  have ht := h.table? hd lookup table
  dsimp only [Stored.map]
  rw [ht]
  rcases other.table? lookup database.key table with _ | _ | _ <;> rfl

theorem loadTable (h : catalog.Simulates other f) {name : Text} {database : Stored ι}
    (hd : other.database? name = some database) (lookup : Nat) (table : Text) :
    catalog.loadTable lookup (database.map f) table =
      (other.loadTable lookup database table).map fun x => (x.1.map f, x.2) := by
  unfold Catalog.loadTable
  rw [h.table hd]
  refine bind_map_congr fun stored hs => ?_
  have hl := h.load hd (Catalog.table_eq_ok_iff.mp hs)
  change (Error.ofStorage (catalog.load (f stored.key)) >>= fun t => _) = _
  rw [hl]
  exact bind_congr_map fun t _ => rfl

end Catalog.Simulates

namespace Command

variable {catalog : Catalog κ} {other : Catalog ι} {f : ι → κ}

/-- What a catalog answers when a row can be put into a table, the other one answers too. -/
theorem Insertion.of_simulates (hs : catalog.Simulates other f) {session : Session}
    {selected name : Text} {values : List Literal} {database stored : Stored κ} {t : Table}
    {counters : Registry}
    (h : Insertion catalog session selected name values database stored t counters) :
    ∃ database' stored', database = database'.map f ∧ stored = stored'.map f ∧
      Insertion other session selected name values database' stored' t counters := by
  have hd := h.database_eq
  rw [hs.database?] at hd
  obtain ⟨database', hd', rfl⟩ := Option.map_eq_some_iff.mp hd
  have hf := h.table_eq
  change catalog.table? 0 (f database'.key) name = _ at hf
  rw [hs.table? hd'] at hf
  obtain ⟨found, hf', hfound⟩ := map_eq_ok_iff.mp hf
  obtain ⟨stored', rfl, rfl⟩ := Option.map_eq_some_iff.mp hfound
  refine ⟨database', stored', rfl, rfl, h.session_eq, hd', hf', ?_, h.check_eq, ?_⟩
  · rw [← hs.load hd' hf']
    exact h.load_eq
  · rw [← hs.counters]
    exact h.counters_eq

theorem planRevision_map (h : catalog.Simulates other f) (session : Session) (name : Text)
    (g : Table → Except Error (Option Table)) :
    planRevision catalog session name g = (planRevision other session name g).map (Plan.map f) := by
  unfold planRevision
  rw [h.selected]
  refine bind_map_congr fun database hd => ?_
  obtain ⟨selected, -, hd⟩ := Catalog.selected_eq_ok_iff.mp hd
  rw [h.loadTable hd]
  refine bind_map_congr fun x _ => bind_congr_map fun revised _ => ?_
  cases revised <;> rfl

/-- **Catalogs with the same answers give the same plans.** -/
theorem plan_map (h : catalog.Simulates other f) (session : Session) {c : Command} (hc : c.Proper) :
    c.plan catalog session = (c.plan other session).map (Plan.map f) := by
  cases c with
  | use name =>
      rw [plan, plan, h.database]
      exact bind_map_congr fun database _ => rfl
  | createDatabase name =>
      rw [plan, plan, planCreateDatabase, planCreateDatabase, h.database?]
      cases other.database? name <;> rfl
  | dropDatabase name =>
      rw [plan, plan, h.database]
      exact bind_map_congr fun database _ => rfl
  | createTable name columns =>
      rw [plan, plan, planCreateTable, planCreateTable, h.selected]
      refine bind_map_congr fun database hd => ?_
      obtain ⟨selected, -, hd⟩ := Catalog.selected_eq_ok_iff.mp hd
      have hv := h.vacant hd (hc.targets name (by simp [targets]))
      change (Error.ofStorage (catalog.table? 0 (f database.key) name) >>= _) = _
      rw [h.table? hd, ofStorage_map]
      refine bind_map_congr fun found _ => ?_
      cases found with
      | some stored => rfl
      | none =>
          refine bind_congr_map fun t _ => ?_
          change Except.ok (Plan.change session [.storeTable (catalog.vacant (f database.key) name) t])
            = _
          rw [hv]
          rfl
  | dropTable name =>
      rw [plan, plan, h.selected]
      refine bind_map_congr fun database hd => ?_
      obtain ⟨selected, -, hd⟩ := Catalog.selected_eq_ok_iff.mp hd
      rw [h.table hd]
      exact bind_map_congr fun stored _ => rfl
  | alter name alteration column =>
      rw [plan, plan]
      exact planRevision_map h session name _
  | insert name values =>
      rw [plan, plan, planInsert, planInsert, h.selected]
      refine bind_map_congr fun database hd => ?_
      obtain ⟨selected, -, hd⟩ := Catalog.selected_eq_ok_iff.mp hd
      rw [h.loadTable hd, h.counters]
      refine bind_map_congr fun x _ => bind_congr_map fun _ _ => ?_
      exact bind_congr_map fun counters _ => rfl
  | select items name filter =>
      rw [plan, plan, planSelect, planSelect, h.selected]
      refine bind_map_congr fun database hd => ?_
      obtain ⟨selected, -, hd⟩ := Catalog.selected_eq_ok_iff.mp hd
      rw [h.loadTable hd]
      exact bind_map_congr fun x _ => bind_congr_map fun result _ => rfl
  | update name assignments filter =>
      rw [plan, plan]
      exact planRevision_map h session name _
  | delete name filter =>
      rw [plan, plan]
      exact planRevision_map h session name _
  | join left right leftKey rightKey =>
      rw [plan, plan, planJoin, planJoin, h.selected]
      refine bind_map_congr fun database hd => ?_
      obtain ⟨selected, -, hd⟩ := Catalog.selected_eq_ok_iff.mp hd
      rw [h.loadTable hd]
      refine bind_map_congr fun x _ => ?_
      rw [h.loadTable hd]
      exact bind_map_congr fun y _ => bind_congr_map fun result _ => rfl

end Command

end simulation

end FlatDb
