import FlatDb.Proofs.Limits

/-! # What a command sees of one table

Most commands are about one table of the selected database (`Command.table?`).  Such a command looks up
the database and the table by their names and, if it inserts a row, the counter of the table; it changes
nothing but this table and this counter.

* `Memory.view` is what memory holds under the names of a table (`TableRef`).
* `Memory.Touches` are the changes that concern one table.  `view_make`: they show in the view of this
  table and in no other.
* `plan_about_eq`: where a table looks the same, its commands are planned alike up to the counters of
  other tables.
* `runWithin_congr` and `view_runWithin_of_not_same`: **the outcome of such a command depends on the view
  of its table only, and the views of other tables stay**.  Hence commands about different tables can
  change places (`runWithin_comm`). -/

namespace FlatDb

open Text

/-! ### Names of tables -/

/-- A table by the name of its database and its own name, in any case. -/
structure TableRef where
  database : Text
  name : Text
deriving DecidableEq, Repr

namespace TableRef

/-- The names are the same up to case. -/
def Same (p q : TableRef) : Prop :=
  sameName p.database q.database = true ∧ sameName p.name q.name = true

instance (p q : TableRef) : Decidable (p.Same q) := inferInstanceAs (Decidable (_ ∧ _))

variable {p q r : TableRef}

theorem Same.refl (p : TableRef) : p.Same p := ⟨sameName_refl _, sameName_refl _⟩

theorem Same.symm (h : p.Same q) : q.Same p := by
  constructor
  · rw [sameName_comm, h.1]
  · rw [sameName_comm, h.2]

theorem Same.trans (h : p.Same q) (h' : q.Same r) : p.Same r :=
  ⟨sameName_trans h.1 h'.1, sameName_trans h.2 h'.2⟩

end TableRef

/-- The one table a command is about, by its name. -/
def Command.table? : Command → Option Text
  | createTable name _ | dropTable name | alter name _ _ | insert name _ | select _ name _
  | update name _ _ | delete name _ => some name
  | use _ | createDatabase _ | dropDatabase _ | join _ _ _ _ => none

/-! ### The counters of one table -/

namespace Registry

/-- The counters of a table. -/
def about (p : TableRef) (r : Registry) : Registry :=
  r.filter fun c => decide (TableRef.Same ⟨c.database, c.table⟩ p)

variable {p q : TableRef} {r : Registry} {database table : Text}

theorem about_about (p : TableRef) (r : Registry) : (r.about p).about p = r.about p := by
  simp [about]

/-- The next id of a pair of names is found among the counters that count. -/
theorem take_filter_self {f : Counter → Bool}
    (hf : ∀ c ∈ r, f c = true ↔ c.database = database ∧ c.table = table)
    (hnew : ∀ n, f ⟨database, table, n⟩ = true) :
    (take database table (r.filter f)).1 = (take database table r).1 ∧
      (take database table (r.filter f)).2 = (take database table r).2.filter f := by
  induction r with
  | nil => simp [take, hnew]
  | cons c more ih =>
      have ih := ih fun c hc => hf c (List.mem_cons_of_mem _ hc)
      by_cases hkey : c.database = database ∧ c.table = table
      · have hc : f c = true := (hf c List.mem_cons_self).mpr hkey
        obtain ⟨rfl, rfl⟩ := hkey
        simp [take, hc, hnew]
      · have hc : ¬ f c = true := fun h => hkey ((hf c List.mem_cons_self).mp h)
        simpa [take, hkey, hc] using ih

/-- Handing out an id leaves the counters of other names. -/
theorem take_filter_of_ne {f : Counter → Bool} (hf : ∀ n, f ⟨database, table, n⟩ = false) :
    (take database table r).2.filter f = r.filter f := by
  induction r with
  | nil => simp [take, hf]
  | cons c more ih =>
      by_cases hkey : c.database = database ∧ c.table = table
      · obtain ⟨rfl, rfl⟩ := hkey
        have hc : f c = false := hf c.next
        simp [take, hc, hf]
      · rw [take, if_neg hkey]
        simp only [List.filter_cons, ih]

variable (hd : IsName database) (ht : IsName table)
include hd ht

theorem same_lowercase_iff :
    TableRef.Same ⟨database.lowercase, table.lowercase⟩ p ↔ TableRef.Same ⟨database, table⟩ p := by
  have hlower : TableRef.Same ⟨database.lowercase, table.lowercase⟩ ⟨database, table⟩ :=
    ⟨hd.sameName_lowercase, ht.sameName_lowercase⟩
  constructor
  · exact fun h => hlower.symm.trans h
  · exact fun h => hlower.trans h

/-- An id is handed out by the counters of a table, whatever other counters there are. -/
theorem allocate_about (hr : r.WellFormed) (h : TableRef.Same ⟨database, table⟩ p) :
    (allocate database table (r.about p)).1 = (allocate database table r).1 ∧
      (allocate database table (r.about p)).2 = (allocate database table r).2.about p := by
  apply take_filter_self
  · intro c hc
    obtain ⟨hcd, hct⟩ := hr.names c hc
    obtain ⟨hld, hlt⟩ := hr.lower c hc
    have hdatabase : c.database = database.lowercase ↔ sameName c.database database = true := by
      rw [← lowercase_eq_iff hcd hd, hld]
    have htable : c.table = table.lowercase ↔ sameName c.table table = true := by
      rw [← lowercase_eq_iff hct ht, hlt]
    rw [decide_eq_true_iff, hdatabase, htable]
    constructor
    · exact fun hc => hc.trans h.symm
    · exact fun hc => TableRef.Same.trans (q := ⟨database, table⟩) hc h
  · exact fun n => decide_eq_true ((same_lowercase_iff hd ht).mpr h)

theorem about_allocate_of_not_same (h : ¬ TableRef.Same ⟨database, table⟩ q) :
    (allocate database table r).2.about q = r.about q := by
  apply take_filter_of_ne
  intro n
  apply decide_eq_false
  rwa [same_lowercase_iff hd ht]

end Registry

/-! ### Looking up names -/

namespace Memory

open Entries

section named
variable {α : Type} {name wanted : Text} {entries : List (Text × α)}

/-- The entry of a name among names that are distinct. -/
theorem named_of_mem (h : Distinct (entries.map Prod.fst)) {e : Text × α} (he : e ∈ entries)
    (hs : sameName e.1 wanted = true) : named wanted entries = some e := by
  cases hf : named wanted entries with
  | none =>
      rw [named_eq_none_iff.mp hf e he] at hs
      cases hs
  | some x =>
      obtain ⟨hx, hxs⟩ := of_named_eq_some hf
      have hname : x.1 = e.1 := h.eq_of_sameName (List.mem_map_of_mem hx) (List.mem_map_of_mem he)
        (sameName_trans hxs (sameName_comm _ _ ▸ hs))
      rw [eq_of_name h.nodup hx he hname]

theorem named_cons (e : Text × α) (more : List (Text × α)) :
    named wanted (e :: more) =
      if sameName e.1 wanted = true then some e else named wanted more := by
  unfold named
  cases h : sameName e.1 wanted <;> simp [h]

/-- Of a name that is new, or taken in the same spelling, no other entry has another spelling. -/
theorem not_sameName_of_ne (hnew : ∀ e ∈ entries, sameName e.1 name = true → e.1 = name)
    {e : Text × α} (he : e ∈ entries) (hne : e.1 ≠ name) (hs : sameName e.1 wanted = true) :
    ¬ sameName name wanted = true := by
  intro hname
  apply hne
  apply hnew e he
  exact sameName_trans hs (sameName_comm _ _ ▸ hname)

/-- Looking up a name after one was set that is new, or taken in the same spelling. -/
theorem named_set (hnew : ∀ e ∈ entries, sameName e.1 name = true → e.1 = name) (a : α) :
    named wanted (Entries.set name a entries) =
      if sameName name wanted = true then some (name, a) else named wanted entries := by
  induction entries with
  | nil => exact named_cons (name, a) []
  | cons e more ih =>
      obtain ⟨n, old⟩ := e
      have ih := ih fun x hx => hnew x (List.mem_cons_of_mem _ hx)
      by_cases hn : n = name
      · subst hn
        rw [Entries.set, if_pos rfl, named_cons, named_cons]
        split <;> rfl
      · rw [Entries.set, if_neg hn, named_cons, named_cons, ih]
        by_cases hs : sameName n wanted = true
        · have hne := not_sameName_of_ne hnew List.mem_cons_self hn hs
          simp [hs, hne]
        · simp [hs]

theorem named_erase (hnew : ∀ e ∈ entries, sameName e.1 name = true → e.1 = name) :
    named wanted (Entries.erase name entries) =
      if sameName name wanted = true then none else named wanted entries := by
  induction entries with
  | nil => simp [Entries.erase, named]
  | cons e more ih =>
      have ih := ih fun x hx => hnew x (List.mem_cons_of_mem _ hx)
      rw [erase_cons]
      by_cases hn : e.1 = name
      · rw [if_pos hn, ih, named_cons, hn]
        split <;> rfl
      · rw [if_neg hn, named_cons, named_cons, ih]
        by_cases hs : sameName e.1 wanted = true
        · have hne := not_sameName_of_ne hnew List.mem_cons_self hn hs
          simp [hs, hne]
        · simp [hs]

end named

/-! ### Views -/

/-- What is seen of a table: the stored name of its database, its own stored name with what it holds, and
its counter. -/
structure View where
  database : Option Text
  table : Option (Text × Table)
  counters : Registry

/-- What is seen under the names of a table. -/
def view (m : Memory) (p : TableRef) : View where
  database := (named p.database m.databases).map Prod.fst
  table := (named p.database m.databases).bind fun e => named p.name e.2
  counters := m.counters.about p

/-- A view after a change of its table. -/
def View.make (p : TableRef) (v : View) : Change Key → View
  | .storeTable (.table _ name) t => { v with table := some (name, t) }
  | .dropTable _ => { v with table := none }
  | .storeCounters r => { v with counters := r.about p }
  | .createDatabase _ | .dropDatabase _ | .storeTable (.database _) _ => v

/-- The changes that concern one table. -/
inductive Touches (p : TableRef) (m : Memory) : Change Key → Prop where
  | storeTable {database name : Text} {t : Table} (h : TableRef.Same ⟨database, name⟩ p) :
      Touches p m (.storeTable (.table database name) t)
  | dropTable {database name : Text} (h : TableRef.Same ⟨database, name⟩ p) :
      Touches p m (.dropTable (.table database name))
  | storeCounters {r : Registry}
      (h : ∀ q, ¬ TableRef.Same p q → r.about q = m.counters.about q) :
      Touches p m (.storeCounters r)

section views
variable {m : Memory} {p q : TableRef}

/-- Names that are the same up to case show the same. -/
theorem view_congr (m : Memory) (h : p.Same q) : m.view p = m.view q := by
  have hnamed {α : Type} (entries : List (Text × α)) {n n' : Text} (hn : sameName n n' = true) :
      named n entries = named n' entries := by
    have hfold := sameName_iff.mp hn
    simp [named, sameName, hfold]
  have hcounters : m.counters.about p = m.counters.about q := by
    have hdatabase := sameName_iff.mp h.1
    have hname := sameName_iff.mp h.2
    simp [Registry.about, TableRef.Same, sameName, hdatabase, hname]
  unfold view
  rw [hnamed m.databases h.1, hcounters]
  simp only [hnamed _ h.2]

variable (hw : m.WellFormed)
include hw

theorem view_of_mem {e : Text × List (Text × Table)} (he : e ∈ m.databases)
    (hs : sameName e.1 q.database = true) :
    m.view q = ⟨some e.1, named q.name e.2, m.counters.about q⟩ := by
  simp [view, named_of_mem hw.databases he hs]

/-- Other tables of a database show in a view as they are looked up, if there is one name by which
something else is found. -/
theorem view_setTables {e : Text × List (Text × Table)} (he : e ∈ m.databases)
    {ts : List (Text × Table)} {name : Text} {found : Option (Text × Table)}
    (hts : ∀ {wanted : Text},
      named wanted ts = if sameName name wanted = true then found else named wanted e.2) :
    (m.setTables e.1 ts).view q =
      if TableRef.Same ⟨e.1, name⟩ q then { m.view q with table := found } else m.view q := by
  have hnamed : named q.database (m.setTables e.1 ts).databases =
      if sameName e.1 q.database = true then some (e.1, ts) else named q.database m.databases :=
    named_set (hw.databases.eq_of_mem he) ts
  by_cases hdb : sameName e.1 q.database = true
  · have hsame : TableRef.Same ⟨e.1, name⟩ q ↔ sameName name q.name = true := and_iff_right hdb
    have hcounters : (m.setTables e.1 ts).counters = m.counters := rfl
    rw [view_of_mem hw he hdb]
    simp only [view, hnamed, hdb, if_true, Option.map_some, Option.bind_some, hts, hsame, hcounters]
    split <;> rfl
  · rw [if_neg fun hsame => hdb hsame.1]
    simp only [view, hnamed, if_neg hdb]
    rfl

/-- **A change of one table** shows in the view of this table and in no other. -/
theorem view_make {change : Change Key} (hs : m.Sound change) (ht : Touches p m change) :
    (m.make change).view q = if p.Same q then (m.view q).make q change else m.view q := by
  cases ht with
  | @storeTable _ name t h =>
      cases hs with
      | @storeTable e _ _ he hn hnew _ =>
          have hsame : TableRef.Same ⟨e.1, name⟩ q ↔ p.Same q := ⟨h.symm.trans, h.trans⟩
          rw [Memory.make, tables_of_mem hw he, view_setTables hw he (named_set hnew t)]
          simp only [hsame]
          rfl
  | dropTable h =>
      cases hs with
      | @dropTable e x he hx =>
          have hsame : TableRef.Same ⟨e.1, x.1⟩ q ↔ p.Same q := ⟨h.symm.trans, h.trans⟩
          have hnew := (hw.tables e he).eq_of_mem hx
          rw [Memory.make, tables_of_mem hw he, view_setTables hw he (named_erase hnew)]
          simp only [hsame]
          rfl
  | @storeCounters r h =>
      split
      · rfl
      · next hq =>
          unfold view
          rw [Memory.make, h q hq]

end views

end Memory

/-! ### Plans -/

/-- A change as far as it concerns a table: of counters only those of the table are told. -/
def Change.about (p : TableRef) : Change Memory.Key → Change Memory.Key
  | .storeCounters r => .storeCounters (r.about p)
  | change => change

/-- A plan as far as it concerns a table. -/
def Plan.about (p : TableRef) (plan : Plan Memory.Key) : Plan Memory.Key :=
  { plan with changes := plan.changes.map (Change.about p) }

/-- Two sequences of guards agree when what follows the first guard does. -/
theorem bind_congr_of_ok {ε α β : Type} {x : Except ε α} {k k' : α → Except ε β}
    (hk : ∀ a, x = .ok a → k a = k' a) : x >>= k = x >>= k' := by
  cases x with
  | error e => rfl
  | ok a => exact hk a rfl

/-- Two sequences of guards agree, up to what a function tells, when what follows the first guard does. -/
theorem map_bind_congr {ε α β γ : Type} {x : Except ε α} {k k' : α → Except ε β} {f : β → γ}
    (hk : ∀ a, x = .ok a → (k a).map f = (k' a).map f) : (x >>= k).map f = (x >>= k').map f := by
  cases x with
  | error e => rfl
  | ok a => exact hk a rfl

namespace Memory

open Entries

section plans
variable {root : Text} {m m' : Memory} {p : TableRef} {session : Session} {c : Command}

theorem verdict_about (root : Text) (p : TableRef) (change : Change Key) :
    (change.about p).verdict root = change.verdict root := by
  cases change <;> rfl

theorem View.make_about (p : TableRef) (v : View) (change : Change Key) :
    v.make p (change.about p) = v.make p change := by
  cases change with
  | storeCounters r => simp [make, Change.about, Registry.about_about]
  | _ => rfl

variable (hw : m.WellFormed) (hw' : m'.WellFormed) (hv : m.view p = m'.view p)
  (hs : session.database = some p.database)
include hv hs

theorem selected_eq_of_view (counters counters' : Except StorageError Registry) :
    (m.catalogWith counters).selected session.database =
      (m'.catalogWith counters').selected session.database := by
  have hdatabase : (named p.database m.databases).map Prod.fst =
      (named p.database m'.databases).map Prod.fst := congrArg View.database hv
  have hfound : (m.catalogWith counters).database? p.database =
      (m'.catalogWith counters').database? p.database := by
    show (named p.database m.databases).map _ = (named p.database m'.databases).map _
    have hstored (entries : List (Text × List (Text × Table))) :
        (named p.database entries).map (fun e => (⟨e.1, .database e.1⟩ : Stored Key)) =
          ((named p.database entries).map Prod.fst).map fun name => ⟨name, .database name⟩ := by
      rw [Option.map_map]
      rfl
    rw [hstored, hstored, hdatabase]
  rw [hs]
  show (m.catalogWith counters).database _ = (m'.catalogWith counters').database _
  unfold Catalog.database
  rw [hfound]

include hw hw'

/-- A database that is found holds the same under the name of the table, in both memories. -/
theorem exists_of_selected {counters : Except StorageError Registry} {database : Stored Key}
    (hd : (m.catalogWith counters).selected session.database = .ok database) :
    ∃ e ∈ m.databases, ∃ e' ∈ m'.databases, e'.1 = e.1 ∧ sameName e.1 p.database = true ∧
      database = ⟨e.1, .database e.1⟩ ∧ named p.name e.2 = named p.name e'.2 := by
  have hd' := hd
  rw [selected_eq_of_view hv hs counters counters] at hd'
  obtain ⟨selected, hsel, hd⟩ := Catalog.selected_eq_ok_iff.mp hd
  obtain ⟨selected', hsel', hd'⟩ := Catalog.selected_eq_ok_iff.mp hd'
  cases hs.symm.trans hsel
  cases hs.symm.trans hsel'
  obtain ⟨e, he, hname, rfl⟩ := database_of_catalog hd
  obtain ⟨e', he', hname', heq⟩ := database_of_catalog hd'
  have hsame : e'.1 = e.1 := (congrArg Stored.name heq).symm
  rw [view_of_mem hw he hname, view_of_mem hw' he' hname'] at hv
  exact ⟨e, he, e', he', hsame, hname, rfl, congrArg View.table hv⟩

variable {counters : Except StorageError Registry} (counters' : Except StorageError Registry)
  {database : Stored Key} (hd : (m.catalogWith counters).selected session.database = .ok database)
include hd

theorem table?_eq_of_view :
    (m.catalogWith counters).table? 0 database.key p.name =
      (m'.catalogWith counters').table? 0 database.key p.name := by
  obtain ⟨e, he, e', he', hsame, -, rfl, htable⟩ := exists_of_selected hw hw' hv hs hd
  have hts : m.tables e.1 = e.2 := tables_of_mem hw he
  have hts' : m'.tables e.1 = e'.2 := hsame ▸ tables_of_mem hw' he'
  show Except.ok ((named p.name (m.tables e.1)).map _) =
    Except.ok ((named p.name (m'.tables e.1)).map _)
  rw [hts, hts', htable]

theorem load_eq_of_view {stored : Stored Key}
    (hf : (m.catalogWith counters).table? 0 database.key p.name = .ok (some stored)) :
    (m.catalogWith counters).load stored.key = (m'.catalogWith counters').load stored.key := by
  have hf' := hf
  rw [table?_eq_of_view hw hw' hv hs counters' hd] at hf'
  obtain ⟨e, he, e', he', hsame, -, rfl, htable⟩ := exists_of_selected hw hw' hv hs hd
  obtain ⟨x, hx, hname, rfl, hload⟩ := table_of_catalog hw he hf
  rw [← hsame] at hf'
  obtain ⟨x', hx', hname', heq, hload'⟩ := table_of_catalog hw' he' hf'
  rw [named_of_mem (hw.tables e he) hx hname, named_of_mem (hw'.tables e' he') hx' hname',
    Option.some.injEq] at htable
  subst htable
  rw [hload, ← hsame]
  exact hload'.symm

theorem table_eq_of_view :
    (m.catalogWith counters).table 0 database p.name =
      (m'.catalogWith counters').table 0 database p.name := by
  unfold Catalog.table
  rw [table?_eq_of_view hw hw' hv hs counters' hd]

theorem loadTable_eq_of_view :
    (m.catalogWith counters).loadTable 0 database p.name =
      (m'.catalogWith counters').loadTable 0 database p.name := by
  unfold Catalog.loadTable
  rw [← table_eq_of_view hw hw' hv hs counters' hd]
  apply bind_congr_of_ok
  intro stored hf
  rw [load_eq_of_view hw hw' hv hs counters' hd (Catalog.table_eq_ok_iff.mp hf)]

omit hv hs hw hw' hd in
/-- Rows are inserted alike where a table has the same counter. -/
theorem insertion_about_eq (database stored : Stored Key) {r r' : Registry} (hr : r.WellFormed)
    (hr' : r'.WellFormed) (h : r.about p = r'.about p) (hdn : IsName database.name)
    (hsn : IsName stored.name) (hsame : TableRef.Same ⟨database.name, stored.name⟩ p) (t : Table)
    (values : List Literal) :
    (Command.insertion database stored t r values).map (Change.about p) =
      (Command.insertion database stored t r' values).map (Change.about p) := by
  obtain ⟨hid, hrest⟩ := Registry.allocate_about hdn hsn hr hsame
  obtain ⟨hid', hrest'⟩ := Registry.allocate_about hdn hsn hr' hsame
  rw [h] at hid hrest
  unfold Command.insertion
  simp [Change.about, ← hid, ← hid', ← hrest, ← hrest']

omit hd in
theorem planInsert_about_eq (root : Text) (values : List Literal) :
    (Command.planInsert (m.catalogWith (m.readable root)) session p.name values).map
        (Plan.about p) =
      (Command.planInsert (m'.catalogWith (m'.readable root)) session p.name values).map
        (Plan.about p) := by
  unfold Command.planInsert
  rw [← selected_eq_of_view hv hs (m.readable root)]
  apply map_bind_congr
  intro database hd
  rw [← loadTable_eq_of_view hw hw' hv hs (m'.readable root) hd]
  apply map_bind_congr
  rintro ⟨stored, t⟩ hl
  apply map_bind_congr
  intro _ _
  obtain ⟨hf, -⟩ := Catalog.loadTable_eq_ok_iff.mp hl
  obtain ⟨e, he, -, -, -, hename, rfl, -⟩ := exists_of_selected hw hw' hv hs hd
  obtain ⟨x, hx, hxname, rfl, -⟩ := table_of_catalog hw he hf
  have hcounters : m.counters.about p = m'.counters.about p := congrArg View.counters hv
  show (Error.ofStorage (m.readable root) >>= _).map _ =
    (Error.ofStorage (m'.readable root) >>= _).map _
  unfold readable
  cases ((Path.ofText root).child registryName).fault? with
  | some cause => rfl
  | none =>
      have hinsertion := insertion_about_eq ⟨e.1, .database e.1⟩ ⟨x.1, .table e.1 x.1⟩ hw.counters
        hw'.counters hcounters (isName_database hw he) (isName_table hw he hx) ⟨hename, hxname⟩ t values
      exact congrArg (fun changes => Except.ok (Plan.change session changes)) hinsertion

omit hd in
theorem planRevision_eq_of_view (counters counters' : Except StorageError Registry)
    (f : Table → Except Error (Option Table)) :
    Command.planRevision (m.catalogWith counters) session p.name f =
      Command.planRevision (m'.catalogWith counters') session p.name f := by
  unfold Command.planRevision
  rw [← selected_eq_of_view hv hs counters]
  apply bind_congr_of_ok
  intro database hd
  rw [loadTable_eq_of_view hw hw' hv hs counters' hd]

omit hd in
/-- **Where a table looks the same**, its commands are planned alike, as far as they concern it. -/
theorem plan_about_eq (root : Text) (hc : c.table? = some p.name) :
    (c.plan (m.catalogWith (m.readable root)) session).map (Plan.about p) =
      (c.plan (m'.catalogWith (m'.readable root)) session).map (Plan.about p) := by
  have hselected := selected_eq_of_view hv hs (m.readable root) (m'.readable root)
  cases c with
  | use name => cases hc
  | createDatabase name => cases hc
  | dropDatabase name => cases hc
  | join left right leftKey rightKey => cases hc
  | createTable name columns =>
      cases hc
      apply congrArg
      rw [Command.plan, Command.plan, Command.planCreateTable, Command.planCreateTable, ← hselected]
      apply bind_congr_of_ok
      intro database hd
      rw [table?_eq_of_view hw hw' hv hs (m'.readable root) hd]
      rfl
  | dropTable name =>
      cases hc
      apply congrArg
      show (m.catalogWith _).selected _ >>= _ = (m'.catalogWith _).selected _ >>= _
      rw [← hselected]
      apply bind_congr_of_ok
      intro database hd
      rw [table_eq_of_view hw hw' hv hs (m'.readable root) hd]
  | alter name alteration column =>
      cases hc
      rw [Command.plan, Command.plan, planRevision_eq_of_view hw hw' hv hs]
  | insert name values =>
      cases hc
      exact planInsert_about_eq hw hw' hv hs root values
  | select items name filter =>
      cases hc
      apply congrArg
      rw [Command.plan, Command.plan, Command.planSelect, Command.planSelect, ← hselected]
      apply bind_congr_of_ok
      intro database hd
      rw [loadTable_eq_of_view hw hw' hv hs (m'.readable root) hd]
  | update name assignments filter =>
      cases hc
      rw [Command.plan, Command.plan, planRevision_eq_of_view hw hw' hv hs]
  | delete name filter =>
      cases hc
      rw [Command.plan, Command.plan, planRevision_eq_of_view hw hw' hv hs]

end plans

/-! ### Runs of commands about one table -/

section runs
variable {root : Text} {m m' : Memory} {p q : TableRef} {session : Session} {c : Command}

/-- A command about one table plans changes of this table only. -/
theorem touches_of_planned {counters : Except StorageError Registry} {changes : List (Change Key)}
    (hw : m.WellFormed) (hs : session.database = some p.database) (hc : c.table? = some p.name)
    (hp : c.Planned (m.catalogWith counters) session changes)
    (hr : ∀ r, counters = .ok r → r = m.counters) : Each (Touches p) m changes := by
  have hselected {selected : Text} (h : session.database = some selected) : selected = p.database :=
    Option.some.inj (h.symm.trans hs)
  cases hp with
  | nothing => trivial
  | createDatabase hd => cases hc
  | dropDatabase hd => cases hc
  | createTable hs hd hn ht =>
      cases hc
      cases hselected hs
      obtain ⟨e, he, hname, rfl⟩ := database_of_catalog hd
      exact ⟨.storeTable ⟨hname, sameName_refl _⟩, trivial⟩
  | dropTable hs hd hf =>
      cases hc
      cases hselected hs
      obtain ⟨e, he, hname, rfl⟩ := database_of_catalog hd
      obtain ⟨x, hx, hxname, rfl, -⟩ := table_of_catalog hw he hf
      exact ⟨.dropTable ⟨hname, hxname⟩, trivial⟩
  | @revise _ selected name database stored t t' hs hd hf hl hrevises =>
      have htable : c.table? = some name := by cases hrevises <;> rfl
      cases htable.symm.trans hc
      cases hselected hs
      obtain ⟨e, he, hname, rfl⟩ := database_of_catalog hd
      obtain ⟨x, hx, hxname, rfl, -⟩ := table_of_catalog hw he hf
      exact ⟨.storeTable ⟨hname, hxname⟩, trivial⟩
  | @insert selected name values database stored t r hi =>
      cases hc
      cases hselected hi.session_eq
      obtain ⟨e, he, hname, rfl⟩ := database_of_catalog hi.database_eq
      obtain ⟨x, hx, hxname, rfl, -⟩ := table_of_catalog hw he hi.table_eq
      obtain rfl := hr r hi.counters_eq
      have hsame : TableRef.Same ⟨e.1, x.1⟩ p := ⟨hname, hxname⟩
      refine ⟨.storeCounters fun q hq => ?_, .storeTable hsame, trivial⟩
      apply Registry.about_allocate_of_not_same (isName_database hw he) (isName_table hw he hx)
      exact fun h => hq (hsame.symm.trans h)

/-- What the changes of one table leave alone. -/
theorem view_makeWithin_of_not_same (root : Text) (hw : m.WellFormed) {changes : List (Change Key)}
    (hs : Each Sound m changes) (ht : Each (Touches p) m changes) (hq : ¬ p.Same q) :
    (makeWithin root m changes).2.view q = m.view q := by
  induction changes generalizing m with
  | nil => rfl
  | cons change more ih =>
      rw [makeWithin]
      split
      · rw [ih (hw.make hs.1) hs.2 ht.2, view_make hw hs.1 ht.1, if_neg hq]
      · rfl

/-- Changes that are the same as far as they concern a table have the same outcome for it. -/
theorem makeWithin_congr (root : Text) (hw : m.WellFormed) (hw' : m'.WellFormed) (hv : m.view p = m'.view p)
    {changes changes' : List (Change Key)}
    (hc : changes.map (Change.about p) = changes'.map (Change.about p))
    (hs : Each Sound m changes) (hs' : Each Sound m' changes')
    (ht : Each (Touches p) m changes) (ht' : Each (Touches p) m' changes') :
    (makeWithin root m changes).1 = (makeWithin root m' changes').1 ∧
      (makeWithin root m changes).2.view p = (makeWithin root m' changes').2.view p := by
  induction changes generalizing m m' changes' with
  | nil =>
      rw [List.map_nil, eq_comm, List.map_eq_nil_iff] at hc
      subst hc
      exact ⟨rfl, hv⟩
  | cons change more ih =>
      obtain ⟨change', more', rfl, hchange, hmore⟩ := List.map_eq_cons_iff.mp hc.symm
      have hverdict : change'.verdict root = change.verdict root := by
        rw [← verdict_about root p, hchange, verdict_about]
      have hview : (m.make change).view p = (m'.make change').view p := by
        have hself : p.Same p := .refl p
        rw [view_make hw hs.1 ht.1, view_make hw' hs'.1 ht'.1, if_pos hself, if_pos hself, hv,
          ← View.make_about p _ change, ← hchange, View.make_about]
      rw [makeWithin, makeWithin, hverdict]
      cases change.verdict root with
      | error why => exact ⟨rfl, hv⟩
      | ok => exact ih (hw.make hs.1) (hw'.make hs'.1) hview hmore.symm hs.2 hs'.2 ht.2 ht'.2

variable (hw : m.WellFormed) (hproper : c.Proper) (hs : session.database = some p.database)
  (hc : c.table? = some p.name)
include hw hproper hs hc

/-- **A command about one table** leaves the views of other tables. -/
theorem view_runWithin_of_not_same (hq : ¬ p.Same q) :
    (m.runWithin root session c).memory.view q = m.view q := by
  unfold runWithin
  split
  · next plan hplan =>
      have hplanned := Command.planned_of_plan hplan
      have hsound := sound_of_planned hw hproper hplanned fun r hr => eq_of_readable hr
      have htouches := touches_of_planned hw hs hc hplanned fun r hr => eq_of_readable hr
      have hview := view_makeWithin_of_not_same root hw hsound htouches hq
      split <;> next hmake => rwa [hmake] at hview
  · rfl

/-- **The outcome of a command about one table** depends on the view of this table only. -/
theorem runWithin_congr (root : Text) (hw' : m'.WellFormed) (hv : m.view p = m'.view p) :
    (m.runWithin root session c).result = (m'.runWithin root session c).result ∧
      (m.runWithin root session c).session = (m'.runWithin root session c).session ∧
      (m.runWithin root session c).memory.view p = (m'.runWithin root session c).memory.view p := by
  have hplan := plan_about_eq hw hw' hv hs root hc
  unfold runWithin
  cases hp : c.plan (m.catalogWith (m.readable root)) session with
  | error why =>
      rw [hp] at hplan
      cases hp' : c.plan (m'.catalogWith (m'.readable root)) session with
      | error why' =>
          rw [hp'] at hplan
          cases hplan
          exact ⟨rfl, rfl, hv⟩
      | ok plan' =>
          rw [hp'] at hplan
          cases hplan
  | ok plan =>
      rw [hp] at hplan
      obtain ⟨plan', hp', habout⟩ := map_eq_ok_iff.mp hplan.symm
      have hsession : plan'.session = plan.session := (congrArg Plan.session habout :)
      have hresult : plan'.result = plan.result := (congrArg Plan.result habout :)
      have hchanges : plan'.changes.map (Change.about p) = plan.changes.map (Change.about p) :=
        (congrArg Plan.changes habout :)
      have hplanned := Command.planned_of_plan hp
      have hplanned' := Command.planned_of_plan hp'
      obtain ⟨hmade, hview⟩ := makeWithin_congr root hw hw' hv hchanges.symm
        (sound_of_planned hw hproper hplanned fun r hr => eq_of_readable hr)
        (sound_of_planned hw' hproper hplanned' fun r hr => eq_of_readable hr)
        (touches_of_planned hw hs hc hplanned fun r hr => eq_of_readable hr)
        (touches_of_planned hw' hs hc hplanned' fun r hr => eq_of_readable hr)
      rw [hp']
      dsimp only
      rcases hx : makeWithin root m plan.changes with ⟨_ | _, after⟩ <;>
        rcases hx' : makeWithin root m' plan'.changes with ⟨_ | _, after'⟩ <;>
        rw [hx, hx'] at hmade hview <;> cases hmade
      · exact ⟨rfl, rfl, hview⟩
      · exact ⟨congrArg Except.ok hresult.symm, hsession.symm, hview⟩

end runs

/-- **Commands about different tables can change places.**  Each has the result and the session that it
has by itself, and every table looks the same after both. -/
theorem runWithin_comm (root : Text) {m : Memory} (hw : m.WellFormed) {p q : TableRef}
    (hpq : ¬ p.Same q) {s t : Session} (hs : s.database = some p.database)
    (ht : t.database = some q.database) {a b : Command} (ha : a.Proper) (hb : b.Proper)
    (hp : a.table? = some p.name) (hq : b.table? = some q.name) :
    let afterA := (m.runWithin root s a).memory
    let afterB := (m.runWithin root t b).memory
    ((afterB.runWithin root s a).result = (m.runWithin root s a).result ∧
        (afterB.runWithin root s a).session = (m.runWithin root s a).session) ∧
      ((afterA.runWithin root t b).result = (m.runWithin root t b).result ∧
        (afterA.runWithin root t b).session = (m.runWithin root t b).session) ∧
      ∀ r, (afterA.runWithin root t b).memory.view r = (afterB.runWithin root s a).memory.view r := by
  intro afterA afterB
  have hwA : afterA.WellFormed := hw.runWithin s ha
  have hwB : afterB.WellFormed := hw.runWithin t hb
  have hpq' : ¬ q.Same p := fun h => hpq h.symm
  have hviewB : m.view q = afterA.view q := (view_runWithin_of_not_same hw ha hs hp hpq).symm
  have hviewA : m.view p = afterB.view p := (view_runWithin_of_not_same hw hb ht hq hpq').symm
  obtain ⟨hresultA, hsessionA, hownA⟩ := runWithin_congr hw ha hs hp root hwB hviewA
  obtain ⟨hresultB, hsessionB, hownB⟩ := runWithin_congr hw hb ht hq root hwA hviewB
  refine ⟨⟨hresultA.symm, hsessionA.symm⟩, ⟨hresultB.symm, hsessionB.symm⟩, fun r => ?_⟩
  by_cases hrp : p.Same r
  · -- the table of the first command, which the second one leaves alone
    rw [← view_congr _ hrp, ← view_congr _ hrp, ← hownA]
    exact view_runWithin_of_not_same hwA hb ht hq hpq'
  · by_cases hrq : q.Same r
    · rw [← view_congr _ hrq, ← view_congr _ hrq, ← hownB]
      exact (view_runWithin_of_not_same hwB ha hs hp hpq).symm
    · calc (afterA.runWithin root t b).memory.view r
          = afterA.view r := view_runWithin_of_not_same hwA hb ht hq hrq
        _ = m.view r := view_runWithin_of_not_same hw ha hs hp hrp
        _ = afterB.view r := (view_runWithin_of_not_same hw hb ht hq hrq).symm
        _ = (afterB.runWithin root s a).memory.view r :=
            (view_runWithin_of_not_same hwB ha hs hp hrp).symm

end Memory

end FlatDb
