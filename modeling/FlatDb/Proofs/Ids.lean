import FlatDb.Proofs.Insertion
import FlatDb.Proofs.Reachable

/-! # Ids in a run

Runs are those of `FlatDb.Proofs.Reachable`: any clients call in any order, tables and databases are
dropped and created again, commands fail, and calls are cut off between two changes.  No counter is
to reach the largest id.

* `Call.grant?_eq_some_iff`: an id is given exactly when a row with that id is planned and the
  counters are stored without it.
* `Mirrors.stages_grant`: in the memory that the disk mirrors the id comes from the counter of the
  table that was found, and every stage of the call keeps the counter after it.
* `ordered_after` is the induction over a run: **ids given later are larger** than all ids that the
  counters of the same names had passed. -/

namespace FlatDb

open Text Node

/-! ### The id of an insertion -/

theorem toOption_eq_some_iff {ε α : Type} {x : Except ε α} {a : α} :
    x.toOption = some a ↔ x = .ok a := by
  cases x <;> simp [Except.toOption]

/-- An id is allocated when the counters can be read and stored again. -/
theorem Disk.allocate_eq_ok_iff {d : Disk} {root : Path} {database table : Text} {id : Nat} :
    (d.allocate root database table).1 = .ok id ↔
      ∃ counters d', d.readRegistry root = .ok counters ∧
        id = (counters.allocate database table).1 ∧
        d.storeRegistry root (counters.allocate database table).2 = (.ok (), d') := by
  unfold Disk.allocate
  cases hr : d.readRegistry root with
  | error e => simp
  | ok counters =>
      dsimp only
      rcases hs : d.storeRegistry root (counters.allocate database table).2 with ⟨_ | _, d'⟩
      · simp [hs]
      · simp [hs, eq_comm]

/-- **An id is given** exactly when an insertion is planned with that id and the counters after it
can be stored. -/
theorem Call.grant?_eq_some_iff {root : Text} {c : Call} {session : Session} {d : Disk} {g : Grant} :
    c.grant? root session d = some g ↔
      ∃ values database stored t counters d',
        Command.parse c.input = .ok (.insert g.table values) ∧
        Command.Insertion (d.catalog (c.engine root).order (.ofText root)) session g.database g.table
          values database stored t counters ∧
        g.id = (counters.allocate database.name stored.name).1 ∧
        Change.make (.ofText root) d
          (.storeCounters (counters.allocate database.name stored.name).2) = (.ok (), d') := by
  unfold Call.grant?
  constructor
  · intro h
    split at h
    · next name values hp =>
        obtain ⟨selected, hs, h⟩ := Option.bind_eq_some_iff.mp h
        obtain ⟨database, hd, h⟩ := Option.bind_eq_some_iff.mp h
        obtain ⟨⟨stored, t⟩, hl, h⟩ := Option.bind_eq_some_iff.mp h
        obtain ⟨⟨⟩, hv, h⟩ := Option.bind_eq_some_iff.mp h
        obtain ⟨id, hi, h⟩ := Option.bind_eq_some_iff.mp h
        cases h
        obtain ⟨hf, hl⟩ := Catalog.loadTable_eq_ok_iff.mp (toOption_eq_some_iff.mp hl)
        obtain ⟨counters, d', hr, hid, hm⟩ := Disk.allocate_eq_ok_iff.mp (toOption_eq_some_iff.mp hi)
        exact ⟨values, database, stored, t, counters, d', hp,
          ⟨hs, hd, hf, hl, toOption_eq_some_iff.mp hv, hr⟩, hid, hm⟩
    · cases h
  · rintro ⟨values, database, stored, t, counters, d', hp, hi, hid, hm⟩
    rw [hp]
    have hl := Catalog.loadTable_eq_ok_iff.mpr ⟨hi.table_eq, hi.load_eq⟩
    have ha := Disk.allocate_eq_ok_iff.mpr ⟨counters, d', hi.counters_eq, hid, hm⟩
    refine Option.bind_eq_some_iff.mpr ⟨g.database, hi.session_eq, ?_⟩
    refine Option.bind_eq_some_iff.mpr ⟨database, hi.database_eq, ?_⟩
    refine Option.bind_eq_some_iff.mpr ⟨(stored, t), toOption_eq_some_iff.mpr hl, ?_⟩
    refine Option.bind_eq_some_iff.mpr ⟨(), toOption_eq_some_iff.mpr hi.check_eq, ?_⟩
    exact Option.bind_eq_some_iff.mpr ⟨g.id, toOption_eq_some_iff.mpr ha, rfl⟩

/-- An insertion of which both changes are made is given the id of its row. -/
theorem Call.grant?_of_makeAll {root name selected : Text} {c : Call} {session : Session} {d d' : Disk}
    {values : List Literal} {database stored : Stored Path} {t : Table} {counters : Registry}
    (hp : Command.parse c.input = .ok (.insert name values))
    (hi : Command.Insertion (d.catalog (c.engine root).order (.ofText root)) session selected name values
      database stored t counters)
    (hm : Change.makeAll (.ofText root) d (Command.insertion database stored t counters values) =
      (.ok (), d')) :
    c.grant? root session d =
      some ⟨selected, name, (counters.allocate database.name stored.name).1⟩ := by
  obtain ⟨d₁, hs, -⟩ := Command.makeAll_insertion_eq_ok_iff.mp hm
  exact Call.grant?_eq_some_iff.mpr ⟨values, database, stored, t, counters, d₁, hp, hi, rfl, hs⟩

/-- The stages of an insertion that is planned. -/
theorem Engine.stages_of_insertion {e : Engine} {session : Session} {d : Disk} {input : Text}
    {selected name : Text} {values : List Literal} {database stored : Stored Path} {t : Table}
    {counters : Registry} (hp : Command.parse input = .ok (.insert name values))
    (hi : Command.Insertion (d.catalog e.order e.root) session selected name values database stored t
      counters) :
    e.stages session d input =
      Change.stages e.root d (Command.insertion database stored t counters values) := by
  have hplan := Command.planInsert_eq_ok_iff.mpr ⟨selected, database, stored, t, counters, hi, rfl⟩
  exact (Engine.stages_of_plan hp hplan).1

/-! ### One event -/

namespace Memory

variable {m m' : Memory} {root : Text} {place : Place} {d₀ d : Disk}

/-- An id is taken from the counter of a table of these names. -/
def Gives (m : Memory) (g : Grant) (m' : Memory) : Prop :=
  ∃ e ∈ m.databases, ∃ x ∈ e.2, sameName e.1 g.database = true ∧ sameName x.1 g.table = true ∧
    g.id = (m.counters.allocate e.1 x.1).1 ∧ m'.counters = (m.counters.allocate e.1 x.1).2

/-- A memory that a call leads to has its ids in order, and its counters have not gone back. -/
theorem Leads.ordered {counters : Except StorageError Registry} {session : Session} {input : Text}
    (h : m.Leads counters session input m') (hw : m.WellFormed) (ho : m.Ordered)
    (hr : ∀ r, counters = .ok r → r = m.counters ∧ r.Unexhausted) :
    m'.Ordered ∧ m.counters.Within m'.counters := by
  rcases h with rfl | ⟨c, changes, n, hp, hc, rfl⟩
  · exact ⟨ho, .refl _⟩
  · have horderly := orderly_of_planned hw ho (Command.proper_of_parse hp) hc hr
    have hkeep : ∀ (m₁ : Memory) (change : Change Key),
        m₁.Ordered ∧ m.counters.Within m₁.counters → m₁.Orderly change →
          (m₁.make change).Ordered ∧ m.counters.Within (m₁.make change).counters :=
      fun m₁ change h hchange => ⟨h.1.make hchange, h.2.trans hchange.within⟩
    exact Each.take hkeep horderly ⟨ho, .refl _⟩ n

/-- The counters are stored first, and the table leaves them alone. -/
theorem counters_insertion (m : Memory) (database stored : Stored Key) (t : Table) (r : Registry)
    (values : List Literal) (j : Nat) :
    (m.makeAll ((Command.insertion database stored t r values).take (j + 1))).counters =
      (r.allocate database.name stored.name).2 := by
  cases j with
  | zero => rfl
  | succ j =>
      obtain ⟨name, key⟩ := stored
      cases key <;> rw [Command.insertion, List.take_of_length_le (by simp)] <;> rfl

/-- If there are counters, the registry can be read. -/
theorem Mirrors.readRegistry_of_ne_nil (h : Mirrors root place d₀ m d) (hr : EmptyRoot root place d₀)
    (hw : m.WellFormed) (hne : m.counters ≠ []) : d.readRegistry (.ofText root) = .ok m.counters :=
  h.readRegistry_of_fault hr hw (h.fits.counters hne)

theorem Mirrors.unexhausted (h : Mirrors root place d₀ m d) (hr : EmptyRoot root place d₀)
    (hw : m.WellFormed)
    (hu : ∀ r, d.readRegistry (.ofText root) = .ok r → r.Unexhausted) : m.counters.Unexhausted := by
  by_cases hne : m.counters = []
  · rw [hne]
    exact fun c hc => nomatch hc
  · exact hu _ (h.readRegistry_of_ne_nil hr hw hne)

/-- From the first stage on a call that is given an id keeps the counter after it. -/
theorem Mirrors.stages_grant (h : Mirrors root place d₀ m d) (hr : EmptyRoot root place d₀)
    (hw : m.WellFormed) {call : Call} {session : Session} {g : Grant}
    (hg : call.grant? root session d = some g) {n : Nat} (hn : 0 < n) :
    ∃ m', m.Leads (d.readRegistry (.ofText root)) session call.input m' ∧
      Mirrors root place d₀ m' (call.cutOff root session d n) ∧ m.Gives g m' := by
  obtain ⟨values, _, _, t, counters, d', hp, hi, hid, hm⟩ := Call.grant?_eq_some_iff.mp hg
  have hstages := Engine.stages_of_insertion hp hi
  obtain ⟨database, stored, rfl, rfl, hi'⟩ := hi.of_simulates (h.simulates hr hw call.listings)
  obtain rfl := h.readRegistry_eq hr hw hi'.counters_eq
  obtain ⟨e, he, hse, rfl⟩ := database_of_catalog hi'.database_eq
  obtain ⟨x, hx, hsx, rfl, -⟩ := table_of_catalog hw he hi'.table_eq
  obtain ⟨j, hlead, hj, hpos⟩ := h.leads_take hr hw hp (.insert hi') n
  refine ⟨_, hlead, ?_, e, he, x, hx, hse, hsx, hid, ?_⟩
  · unfold Call.cutOff
    rw [hstages]
    exact hj
  · obtain ⟨j, rfl⟩ := Nat.exists_eq_add_one.mpr (hpos hn _ _ d' rfl hm)
    exact counters_insertion m _ _ t m.counters values j

/-- After an event the disk mirrors a memory to which the call of the event leads. -/
theorem Mirrors.step {w : World Disk} (h : Mirrors root place d₀ m w.store)
    (hr : EmptyRoot root place d₀) (hw : m.WellFormed) (event : Event) :
    ∃ m', m.Leads (w.store.readRegistry (.ofText root)) (w.sessions event.source.client)
        event.source.input m' ∧
      Mirrors root place d₀ m' (w.step root event).store ∧
      ∀ g, w.grant? root event = some g → m.Gives g m' := by
  obtain ⟨n, hn, hgrant, -⟩ := World.step_store root w event
  rw [hn]
  cases hg : w.grant? root event with
  | none =>
      obtain ⟨m', hlead, h'⟩ := h.stages hr hw event.source (w.sessions event.source.client) n
      exact ⟨m', hlead, h', fun g hg => nomatch hg⟩
  | some g =>
      obtain ⟨hzero, hg⟩ := Option.ite_none_left_eq_some.mp (hgrant.symm.trans hg)
      obtain ⟨m', hlead, h', hgives⟩ := h.stages_grant hr hw hg (Nat.pos_of_ne_zero hzero)
      refine ⟨m', hlead, h', fun g' hg' => ?_⟩
      cases hg'
      exact hgives

/-- The id comes from the counter of its names in lower case, and the counter has passed it. -/
theorem Gives.covers {g : Grant} (h : m.Gives g m') (hw : m.WellFormed)
    (hu : m.counters.Unexhausted) :
    IsName g.database ∧ IsName g.table ∧
      (∀ id, m.counters.Covers g.database.lowercase g.table.lowercase id → id < g.id) ∧
      m'.counters.Covers g.database.lowercase g.table.lowercase g.id := by
  obtain ⟨e, he, x, hx, hse, hsx, hid, hc⟩ := h
  have hen := isName_database hw he
  have hxn := isName_table hw he hx
  have hd := isName_of_sameName hen hse
  have ht := isName_of_sameName hxn hsx
  rw [← (lowercase_eq_iff hen hd).mpr hse, ← (lowercase_eq_iff hxn ht).mpr hsx, hid, hc]
  exact ⟨hd, ht, fun id hcov => hcov.lt_allocate hw.counters, Registry.covers_allocate hu e.1 x.1⟩

end Memory

/-! ### Runs -/

section runs
variable {root : Text} {place : Place} {d₀ : Disk}

/-- No counter reaches the largest id at any point of a run. -/
def World.Unexhausted (root : Text) (w : World Disk) (events : List Event) : Prop :=
  ∀ done, done <+: events → ∀ r,
    (w.after root done).store.readRegistry (.ofText root) = .ok r → r.Unexhausted

theorem World.unexhausted_cons_iff {w : World Disk} {event : Event} {more : List Event} :
    w.Unexhausted root (event :: more) ↔
      (∀ r, w.store.readRegistry (.ofText root) = .ok r → r.Unexhausted) ∧
        (w.step root event).Unexhausted root more := by
  constructor
  · intro h
    refine ⟨h [] List.nil_prefix, fun done hd => ?_⟩
    exact h (event :: done) (List.cons_prefix_cons.mpr ⟨rfl, hd⟩)
  · rintro ⟨h, hmore⟩ done hd
    cases done with
    | nil => exact h
    | cons event' done =>
        obtain ⟨rfl, hd'⟩ := List.cons_prefix_cons.mp hd
        exact hmore done hd'

theorem World.unexhausted_nil_iff {w : World Disk} :
    w.Unexhausted root [] ↔
      ∀ r, w.store.readRegistry (.ofText root) = .ok r → r.Unexhausted := by
  constructor
  · exact fun h => h [] List.nil_prefix
  · intro h done hd
    rw [List.prefix_nil.mp hd]
    exact h

instance decidableUnexhausted (r : Registry) : Decidable r.Unexhausted :=
  inferInstanceAs (Decidable (∀ c ∈ r, c.next < UInt64.size - 1))

instance decidableOkImp {ε α : Type} {p : α → Prop} [DecidablePred p] (x : Except ε α) :
    Decidable (∀ a, x = .ok a → p a) :=
  match x with
  | .ok a => decidable_of_iff (p a) (by simp)
  | .error _ => .isTrue (by simp)

instance World.decidableUnexhausted (root : Text) (w : World Disk) (events : List Event) :
    Decidable (w.Unexhausted root events) :=
  match events with
  | [] => decidable_of_iff _ unexhausted_nil_iff.symm
  | event :: more =>
    have := decidableUnexhausted root (w.step root event) more
    decidable_of_iff _ unexhausted_cons_iff.symm

/-- Ids of the same names that were given one after the other. -/
def Grant.Before (a b : Grant) : Prop :=
  sameName a.database b.database = true → sameName a.table b.table = true → a.id < b.id

/-- An id is larger than all that the counter of its names had passed in a registry. -/
def Grant.Exceeds (g : Grant) (r : Registry) : Prop :=
  IsName g.database ∧ IsName g.table ∧
    ∀ id, r.Covers g.database.lowercase g.table.lowercase id → id < g.id

theorem Grant.Exceeds.of_within {g : Grant} {r r' : Registry} (h : g.Exceeds r') (hw : r.Within r') :
    g.Exceeds r := ⟨h.1, h.2.1, fun id hid => h.2.2 id (hw _ _ _ hid)⟩

/-- **Ids stay in order over a run** that begins with a disk mirroring a memory.  Ids given in the
run exceed what the counters had passed before it, which carries the induction. -/
theorem ordered_after (hr : EmptyRoot root place d₀) {w : World Disk} {m : Memory}
    (h : m.Mirrors root place d₀ w.store) (hw : m.WellFormed) (ho : m.Ordered) {events : List Event}
    (hu : w.Unexhausted root events) :
    (w.grants root events).Pairwise Grant.Before ∧
      (∀ g ∈ w.grants root events, g.Exceeds m.counters) ∧
      ∃ m' : Memory, m'.WellFormed ∧ m'.Ordered ∧
        m'.Mirrors root place d₀ (w.after root events).store := by
  induction events generalizing w m with
  | nil => exact ⟨.nil, fun _ hg => (nomatch hg), m, hw, ho, h⟩
  | cons event more ih =>
      obtain ⟨hu, hmore⟩ := World.unexhausted_cons_iff.mp hu
      obtain ⟨m', hlead, h', hgives⟩ := h.step hr hw event
      have hread : ∀ r, w.store.readRegistry (.ofText root) = .ok r →
          r = m.counters ∧ r.Unexhausted := fun r hr' => ⟨h.readRegistry_eq hr hw hr', hu r hr'⟩
      have hw' := hlead.wellFormed hw fun r hr' => (hread r hr').1
      obtain ⟨ho', hwithin⟩ := hlead.ordered hw ho hread
      obtain ⟨hpair, hexceeds, hlast⟩ := ih h' hw' ho' hmore
      rw [World.grants]
      cases hg : w.grant? root event with
      | none =>
          refine ⟨hpair, fun g hg => ?_, hlast⟩
          exact (hexceeds g hg).of_within hwithin
      | some g =>
          obtain ⟨hd, ht, hlarger, hcov⟩ := (hgives g hg).covers hw (h.unexhausted hr hw hu)
          refine ⟨List.pairwise_cons.mpr ⟨fun g' hg' hsd hst => ?_, hpair⟩, fun g' hg' => ?_, hlast⟩
          · -- the id has been passed by the counter from which the later one is taken
            obtain ⟨hd', ht', hlater⟩ := hexceeds g' hg'
            rw [(lowercase_eq_iff hd hd').mpr hsd, (lowercase_eq_iff ht ht').mpr hst] at hcov
            exact hlater g.id hcov
          · rcases List.mem_cons.mp hg' with rfl | hg'
            · exact ⟨hd, ht, hlarger⟩
            · exact (hexceeds g' hg').of_within hwithin

end runs

end FlatDb
