import FlatDb.Memory
import FlatDb.Proofs.Counters
import FlatDb.Proofs.Tables

/-! # What memory holds

Databases in memory stay well-formed under the changes that commands plan.

* `Memory.WellFormed`: databases have names that differ ignoring case, and so have the tables of
  each; tables and counters are well-formed.
* `Memory.Sound` says when a change keeps this (`WellFormed.make`), and `sound_of_planned` that
  **every change a command plans is sound** where it is made.
* `Memory.Ordered`: the ids of a table increase from row to row and have been passed by the table's
  counter.  `Memory.Orderly` and `orderly_of_planned` are to it what soundness is to
  well-formedness. -/

namespace FlatDb

open Text

/-! ### Names that differ ignoring case -/

namespace Entries

variable {α : Type}

/-- Names of which no two are the same up to case. -/
def Distinct (names : List Text) : Prop :=
  (∀ n ∈ names, IsName n) ∧ names.Pairwise fun a b => sameName a b = false

theorem Distinct.nil : Distinct [] := ⟨fun _ h => (nomatch h), List.Pairwise.nil⟩

theorem Distinct.eq_of_sameName {names : List Text} (h : Distinct names) {a b : Text} (ha : a ∈ names)
    (hb : b ∈ names) (hs : sameName a b = true) : a = b := by
  obtain ⟨-, hp⟩ := h
  induction names with
  | nil => cases ha
  | cons n more ih =>
      obtain ⟨hn, hp⟩ := List.pairwise_cons.mp hp
      rcases List.mem_cons.mp ha with ea | ha <;> rcases List.mem_cons.mp hb with eb | hb
      · rw [ea, eb]
      · rw [ea, hn b hb] at hs
        cases hs
      · rw [eb, sameName_comm, hn a ha] at hs
        cases hs
      · exact ih ha hb hp

/-- No other entry has the name of an entry. -/
theorem Distinct.eq_of_mem {entries : List (Text × α)} (h : Distinct (entries.map Prod.fst))
    {x : Text × α} (hx : x ∈ entries) : ∀ y ∈ entries, sameName y.1 x.1 = true → y.1 = x.1 :=
  fun _ hy hs => h.eq_of_sameName (List.mem_map_of_mem hy) (List.mem_map_of_mem hx) hs

theorem Distinct.nodup {names : List Text} (h : Distinct names) : names.Nodup := by
  refine h.2.imp fun hs he => ?_
  rw [he, sameName_refl] at hs
  cases hs

theorem Distinct.sublist {names names' : List Text} (h : Distinct names)
    (hs : names'.Sublist names) : Distinct names' :=
  ⟨fun n hn => h.1 n (hs.subset hn), h.2.sublist hs⟩

theorem Distinct.erase {entries : List (Text × α)} (h : Distinct (entries.map Prod.fst)) (name : Text) :
    Distinct ((erase name entries).map Prod.fst) := h.sublist ((erase_sublist name entries).map _)

/-- Names stay distinct when a name is set that is new, or taken in the same spelling. -/
theorem Distinct.set {entries : List (Text × α)} (h : Distinct (entries.map Prod.fst)) {name : Text}
    (hn : IsName name) (hnew : ∀ e ∈ entries, sameName e.1 name = true → e.1 = name) (a : α) :
    Distinct ((set name a entries).map Prod.fst) := by
  rw [names_set]
  split
  · exact h
  · next hm =>
      refine ⟨fun n hmem => ?_, ?_⟩
      · rcases List.mem_append.mp hmem with hmem | hmem
        · exact h.1 n hmem
        · rw [List.mem_singleton.mp hmem]
          exact hn
      · refine List.pairwise_append.mpr ⟨h.2, List.pairwise_singleton _ _, fun x hx y hy => ?_⟩
        rw [List.mem_singleton.mp hy, Bool.eq_false_iff]
        intro hs
        obtain ⟨e, he, rfl⟩ := List.mem_map.mp hx
        exact hm (hnew e he hs ▸ hx)

/-- Entries are told apart by their names. -/
theorem eq_of_name {entries : List (Text × α)} (hn : (entries.map Prod.fst).Nodup) {e e' : Text × α}
    (he : e ∈ entries) (he' : e' ∈ entries) (h : e.1 = e'.1) : e = e' := by
  have h1 := lookup_of_mem hn he
  have h2 := lookup_of_mem hn he'
  rw [h, h2, Option.some.injEq] at h1
  exact Prod.ext h h1.symm

end Entries

namespace Memory

open Entries

variable {m : Memory}

/-! ### Well-formed memory -/

/-- Names differ ignoring case, and tables and counters are well-formed. -/
structure WellFormed (m : Memory) : Prop where
  databases : Distinct (m.databases.map Prod.fst)
  tables : ∀ e ∈ m.databases, Distinct (e.2.map Prod.fst)
  contents : ∀ e ∈ m.databases, ∀ x ∈ e.2, x.2.WellFormed
  counters : m.counters.WellFormed

theorem wellFormed_empty : empty.WellFormed where
  databases := .nil
  tables _ h := nomatch h
  contents _ h := nomatch h
  counters := ⟨fun _ h => (nomatch h), fun _ h => (nomatch h), .nil, fun _ h => (nomatch h)⟩

theorem tables_of_mem (h : m.WellFormed) {database : Text} {ts : List (Text × Table)}
    (hm : (database, ts) ∈ m.databases) : m.tables database = ts := by
  rw [tables, lookup_of_mem h.databases.nodup hm, Option.getD_some]

/-- A change that keeps memory well-formed. -/
inductive Sound (m : Memory) : Change Key → Prop where
  | createDatabase {name : Text} (hn : IsName name)
      (hnew : ∀ e ∈ m.databases, sameName e.1 name = false) : Sound m (.createDatabase name)
  | dropDatabase {e : Text × List (Text × Table)} (he : e ∈ m.databases) :
      Sound m (.dropDatabase (.database e.1))
  | storeTable {e : Text × List (Text × Table)} {name : Text} {t : Table} (he : e ∈ m.databases)
      (hn : IsName name) (hnew : ∀ x ∈ e.2, sameName x.1 name = true → x.1 = name)
      (ht : t.WellFormed) : Sound m (.storeTable (.table e.1 name) t)
  | dropTable {e : Text × List (Text × Table)} {x : Text × Table} (he : e ∈ m.databases)
      (hx : x ∈ e.2) : Sound m (.dropTable (.table e.1 x.1))
  | storeCounters {r : Registry} (hr : r.WellFormed) (hne : r ≠ []) : Sound m (.storeCounters r)

theorem WellFormed.setTables (h : m.WellFormed) {name : Text} (hn : IsName name)
    (hnew : ∀ e ∈ m.databases, sameName e.1 name = true → e.1 = name) {ts : List (Text × Table)}
    (hd : Distinct (ts.map Prod.fst)) (hc : ∀ x ∈ ts, x.2.WellFormed) :
    (m.setTables name ts).WellFormed where
  databases := h.databases.set hn hnew ts
  tables e he := by
    rcases mem_set he with rfl | he
    · exact hd
    · exact h.tables e he
  contents e he := by
    rcases mem_set he with rfl | he
    · exact hc
    · exact h.contents e he
  counters := h.counters

/-- Other tables for a database that is there. -/
theorem WellFormed.setTables_of_mem (h : m.WellFormed) {e : Text × List (Text × Table)}
    (he : e ∈ m.databases) {ts : List (Text × Table)} (hd : Distinct (ts.map Prod.fst))
    (hc : ∀ x ∈ ts, x.2.WellFormed) : (m.setTables e.1 ts).WellFormed := by
  have hm : e.1 ∈ m.databases.map Prod.fst := List.mem_map_of_mem he
  exact h.setTables (h.databases.1 _ hm) (h.databases.eq_of_mem he) hd hc

/-- A sound change keeps memory well-formed. -/
theorem WellFormed.make (h : m.WellFormed) {change : Change Key} (hs : m.Sound change) :
    (m.make change).WellFormed := by
  cases hs with
  | createDatabase hn hnew =>
      refine h.setTables hn (fun e he hs => ?_) .nil fun _ hx => nomatch hx
      rw [hnew e he] at hs
      cases hs
  | dropDatabase he =>
      exact ⟨h.databases.erase _, fun e' he' => h.tables e' (mem_of_mem_erase he'),
        fun e' he' => h.contents e' (mem_of_mem_erase he'), h.counters⟩
  | @storeTable e name t he hn hnew ht =>
      rw [Memory.make, tables_of_mem h he]
      refine h.setTables_of_mem he ((h.tables e he).set hn hnew t) fun x hx => ?_
      rcases mem_set hx with rfl | hx
      · exact ht
      · exact h.contents e he x hx
  | @dropTable e x he hx =>
      rw [Memory.make, tables_of_mem h he]
      refine h.setTables_of_mem he ((h.tables e he).erase _) fun x hx => ?_
      exact h.contents e he x (mem_of_mem_erase hx)
  | storeCounters hr hne => exact ⟨h.databases, h.tables, h.contents, hr⟩

/-! ### Several changes -/

/-- Changes that each satisfy a condition on the memory in which they are made. -/
def Each (p : Memory → Change Key → Prop) : Memory → List (Change Key) → Prop
  | _, [] => True
  | m, change :: more => p m change ∧ Each p (m.make change) more

/-- What every change keeps is kept by any number of the first changes. -/
theorem Each.take {p : Memory → Change Key → Prop} {inv : Memory → Prop}
    (hp : ∀ m change, inv m → p m change → inv (m.make change)) {changes : List (Change Key)}
    (hc : Each p m changes) (hm : inv m) (n : Nat) : inv (m.makeAll (changes.take n)) := by
  induction changes generalizing m n with
  | nil => simpa [makeAll] using hm
  | cons change more ih =>
      cases n with
      | zero => simpa [makeAll] using hm
      | succ n => exact ih hc.2 (hp m change hm hc.1) n

theorem WellFormed.makeAll_take (h : m.WellFormed) {changes : List (Change Key)}
    (hc : Each Sound m changes) (n : Nat) : (m.makeAll (changes.take n)).WellFormed :=
  Each.take (fun _ _ hm hs => hm.make hs) hc h n

/-! ### What is found -/

section lookups
variable {α : Type} {name : Text} {entries : List (Text × α)} {e : Text × α}

theorem of_named_eq_some (h : named name entries = some e) :
    e ∈ entries ∧ sameName e.1 name = true := by
  have hs := List.find?_some h
  exact ⟨List.mem_of_find?_eq_some h, hs⟩

theorem named_eq_none_iff :
    named name entries = none ↔ ∀ e ∈ entries, sameName e.1 name = false := by
  simp [named]

end lookups

/-- The catalog with other counters, such as counters that cannot be read. -/
def catalogWith (m : Memory) (counters : Except StorageError Registry) : Catalog Key :=
  { m.catalog with counters := counters }

variable {counters : Except StorageError Registry} {name : Text} {database stored : Stored Key}

theorem database_of_catalog (h : (m.catalogWith counters).database? name = some database) :
    ∃ e ∈ m.databases, sameName e.1 name = true ∧ database = ⟨e.1, .database e.1⟩ := by
  obtain ⟨e, he, rfl⟩ := Option.map_eq_some_iff.mp h
  obtain ⟨hm, hs⟩ := of_named_eq_some he
  exact ⟨e, hm, hs, rfl⟩

theorem load_of_lookup {database name : Text} {t : Table}
    (h : (m.tables database).lookup name = some t) :
    (m.catalogWith counters).load (.table database name) = .ok t := by
  simp [catalogWith, catalog, h]

theorem table_of_catalog (h : m.WellFormed) {e : Text × List (Text × Table)} (he : e ∈ m.databases)
    {lookup : Nat}
    (hf : (m.catalogWith counters).table? lookup (.database e.1) name = .ok (some stored)) :
    ∃ x ∈ e.2, sameName x.1 name = true ∧ stored = ⟨x.1, .table e.1 x.1⟩ ∧
      (m.catalogWith counters).load stored.key = .ok x.2 := by
  change Except.ok ((named name (m.tables e.1)).map _) = _ at hf
  rw [tables_of_mem h he, Except.ok.injEq] at hf
  obtain ⟨x, hx, rfl⟩ := Option.map_eq_some_iff.mp hf
  obtain ⟨hm, hs⟩ := of_named_eq_some hx
  have hl := lookup_of_mem (h.tables e he).nodup hm
  rw [← tables_of_mem h he] at hl
  exact ⟨x, hm, hs, rfl, load_of_lookup hl⟩

theorem no_table_of_catalog (h : m.WellFormed) {e : Text × List (Text × Table)}
    (he : e ∈ m.databases) {lookup : Nat}
    (hf : (m.catalogWith counters).table? lookup (.database e.1) name = .ok none) :
    ∀ x ∈ e.2, sameName x.1 name = false := by
  change Except.ok ((named name (m.tables e.1)).map _) = _ at hf
  rw [tables_of_mem h he, Except.ok.injEq, Option.map_eq_none_iff] at hf
  exact named_eq_none_iff.mp hf

/-! ### Planned changes are sound -/

/-- A table in the place of one that is there. -/
theorem sound_storeTable (h : m.WellFormed) {e : Text × List (Text × Table)} (he : e ∈ m.databases)
    {x : Text × Table} (hx : x ∈ e.2) {t : Table} (ht : t.WellFormed) :
    m.Sound (.storeTable (.table e.1 x.1) t) := by
  have hm : x.1 ∈ e.2.map Prod.fst := List.mem_map_of_mem hx
  exact .storeTable he ((h.tables e he).1 _ hm) ((h.tables e he).eq_of_mem hx) ht

variable {session : Session} {c : Command} {changes : List (Change Key)}

/-- **Every change a command plans is sound** where it is made. -/
theorem sound_of_planned (h : m.WellFormed) (hc : c.Proper)
    (hp : c.Planned (m.catalogWith counters) session changes)
    (hr : ∀ r, counters = .ok r → r = m.counters) : Each Sound m changes := by
  cases hp with
  | nothing => trivial
  | @createDatabase name hd =>
      refine ⟨.createDatabase (hc.targets name (by simp [Command.targets])) ?_, trivial⟩
      exact named_eq_none_iff.mp (Option.map_eq_none_iff.mp hd)
  | dropDatabase hd =>
      obtain ⟨e, he, -, rfl⟩ := database_of_catalog hd
      exact ⟨.dropDatabase he, trivial⟩
  | @createTable selected name columns database t hs hd hn ht =>
      obtain ⟨e, he, -, rfl⟩ := database_of_catalog hd
      have hno := no_table_of_catalog h he hn
      refine ⟨.storeTable he (hc.targets name (by simp [Command.targets])) (fun x hx hs => ?_)
        (Table.wellFormed_of_create hc.declared ht).1, trivial⟩
      rw [hno x hx] at hs
      cases hs
  | dropTable hs hd hf =>
      obtain ⟨e, he, -, rfl⟩ := database_of_catalog hd
      obtain ⟨x, hx, -, rfl, -⟩ := table_of_catalog h he hf
      exact ⟨.dropTable he hx, trivial⟩
  | revise hs hd hf hl hrev =>
      obtain ⟨e, he, -, rfl⟩ := database_of_catalog hd
      obtain ⟨x, hx, -, rfl, hload⟩ := table_of_catalog h he hf
      rw [hload, Except.ok.injEq] at hl
      subst hl
      have ht := Table.wellFormed_of_revises (h.contents e he x hx) hc hrev
      exact ⟨sound_storeTable h he hx ht.1, trivial⟩
  | @insert selected name values database stored t r hi =>
      obtain ⟨e, he, -, rfl⟩ := database_of_catalog hi.database_eq
      obtain ⟨x, hx, -, rfl, hload⟩ := table_of_catalog h he hi.table_eq
      obtain rfl : x.2 = t := Except.ok.inj (hload.symm.trans hi.load_eq)
      obtain rfl := hr r hi.counters_eq
      have hen : IsName e.1 := h.databases.1 _ (List.mem_map_of_mem he)
      have hxn : IsName x.1 := (h.tables e he).1 _ (List.mem_map_of_mem hx)
      have hcw := h.counters.allocate hen hxn
      have hid := Registry.allocate_lt (by decide) h.counters.small e.1 x.1
      have hcells : ∀ v ∈ values, IsCell v.cell :=
        fun v hv => hc.cells _ (List.mem_map.mpr ⟨v, hv, rfl⟩)
      have hs := Sound.storeCounters (m := m) hcw (Registry.allocate_ne_nil _ _ _)
      refine ⟨hs, ?_, trivial⟩
      -- storing the counters leaves the databases as they are
      exact sound_storeTable (h.make hs) he hx
        (Table.wellFormed_append (h.contents e he x hx) hi.check_eq hcells hid)

/-! ### Ids in order -/

/-- Ids increase from row to row, and the counter of the table has passed them. -/
def OrderedIn (counters : Registry) (database table : Text) (t : Table) : Prop :=
  (t.rows.map Row.id).Pairwise (· < ·) ∧
    ∀ id ∈ t.rows.map Row.id, counters.Covers database.lowercase table.lowercase id

/-- The ids of all tables are in order. -/
def Ordered (m : Memory) : Prop :=
  ∀ e ∈ m.databases, ∀ x ∈ e.2, OrderedIn m.counters e.1 x.1 x.2

/-- A change that keeps ids in order. -/
def Orderly (m : Memory) : Change Key → Prop
  | .storeTable (.table database name) t => OrderedIn m.counters database name t
  | .storeCounters r => m.counters.Within r
  | _ => True

theorem Ordered.setTables (h : m.Ordered) {name : Text} {ts : List (Text × Table)}
    (hts : ∀ x ∈ ts, OrderedIn m.counters name x.1 x.2) : (m.setTables name ts).Ordered := by
  intro e he
  rcases mem_set he with rfl | he
  · exact hts
  · exact h e he

theorem mem_tables {x : Text × Table} (hx : x ∈ m.tables name) :
    ∃ e ∈ m.databases, e.1 = name ∧ x ∈ e.2 := by
  unfold tables at hx
  cases hl : m.databases.lookup name with
  | none =>
      rw [hl] at hx
      cases hx
  | some ts =>
      rw [hl] at hx
      exact ⟨(name, ts), mem_of_lookup hl, rfl, hx⟩

/-- An orderly change keeps ids in order. -/
theorem Ordered.make (h : m.Ordered) {change : Change Key} (ho : m.Orderly change) :
    (m.make change).Ordered := by
  have hold : ∀ name, ∀ x ∈ m.tables name, OrderedIn m.counters name x.1 x.2 := by
    intro name x hx
    obtain ⟨e, he, rfl, hxe⟩ := mem_tables hx
    exact h e he x hxe
  unfold Memory.make
  split
  · exact h.setTables fun _ hx => nomatch hx
  · exact fun e he => h e (mem_of_mem_erase he)
  · refine h.setTables fun x hx => ?_
    rcases mem_set hx with rfl | hx
    · exact ho
    · exact hold _ x hx
  · exact h.setTables fun x hx => hold _ x (mem_of_mem_erase hx)
  · intro e he x hx
    obtain ⟨hp, hcov⟩ := h e he x hx
    exact ⟨hp, fun id hid => ho _ _ _ (hcov id hid)⟩
  · exact h
  · exact h
  · exact h

/-- An orderly change keeps what the counters have passed. -/
theorem Orderly.within {change : Change Key} (ho : m.Orderly change) :
    m.counters.Within (m.make change).counters := by
  unfold Memory.make
  split <;> first | exact ho | exact .refl _

theorem ordered_empty : empty.Ordered := fun _ h => nomatch h

theorem OrderedIn.sublist {r : Registry} {database table : Text} {t t' : Table}
    (h : OrderedIn r database table t)
    (hs : (t'.rows.map Row.id).Sublist (t.rows.map Row.id)) : OrderedIn r database table t' :=
  ⟨h.1.sublist hs, fun id hid => h.2 id (hs.subset hid)⟩

/-- A row with a new id goes behind all others. -/
theorem OrderedIn.append {r : Registry} {database table : Text} {t : Table} (hr : r.WellFormed)
    (hu : r.Unexhausted) (h : OrderedIn r database table t) (values : List Literal) :
    OrderedIn (r.allocate database table).2 database table
      (t.append (r.allocate database table).1 values) := by
  have hids : (t.append (r.allocate database table).1 values).rows.map Row.id =
      t.rows.map Row.id ++ [(r.allocate database table).1] := by
    simp [Table.append, Table.pushRow, Row.new]
  unfold OrderedIn
  rw [hids]
  constructor
  · refine List.pairwise_append.mpr ⟨h.1, List.pairwise_singleton _ _, fun a ha b hb => ?_⟩
    rw [List.mem_singleton.mp hb]
    exact (h.2 a ha).lt_allocate hr
  · intro id hid
    rcases List.mem_append.mp hid with hid | hid
    · exact Registry.within_allocate hu database table _ _ _ (h.2 id hid)
    · rw [List.mem_singleton.mp hid]
      exact Registry.covers_allocate hu database table

/-- **Every change a command plans is orderly** where it is made, unless a counter has reached the
largest id. -/
theorem orderly_of_planned (h : m.WellFormed) (ho : m.Ordered) (hc : c.Proper)
    (hp : c.Planned (m.catalogWith counters) session changes)
    (hr : ∀ r, counters = .ok r → r = m.counters ∧ r.Unexhausted) : Each Orderly m changes := by
  cases hp with
  | nothing => trivial
  | createDatabase hd => exact ⟨trivial, trivial⟩
  | dropDatabase hd => exact ⟨by unfold Orderly; split <;> trivial, trivial⟩
  | createTable hs hd hn ht =>
      obtain ⟨e, he, -, rfl⟩ := database_of_catalog hd
      obtain ⟨-, hrows⟩ := Table.wellFormed_of_create hc.declared ht
      refine ⟨?_, trivial⟩
      show OrderedIn _ _ _ _
      simp [OrderedIn, hrows]
  | dropTable hs hd hf => exact ⟨by unfold Orderly; split <;> trivial, trivial⟩
  | revise hs hd hf hl hrev =>
      obtain ⟨e, he, -, rfl⟩ := database_of_catalog hd
      obtain ⟨x, hx, -, rfl, hload⟩ := table_of_catalog h he hf
      rw [hload, Except.ok.injEq] at hl
      subst hl
      have hsub := (Table.wellFormed_of_revises (h.contents e he x hx) hc hrev).2
      exact ⟨(ho e he x hx).sublist hsub, trivial⟩
  | @insert selected name values database stored t r hi =>
      obtain ⟨e, he, -, rfl⟩ := database_of_catalog hi.database_eq
      obtain ⟨x, hx, -, rfl, hload⟩ := table_of_catalog h he hi.table_eq
      obtain rfl : x.2 = t := Except.ok.inj (hload.symm.trans hi.load_eq)
      obtain ⟨rfl, hu⟩ := hr r hi.counters_eq
      refine ⟨Registry.within_allocate hu _ _, ?_, trivial⟩
      exact (ho e he x hx).append h.counters hu values

end Memory

end FlatDb
