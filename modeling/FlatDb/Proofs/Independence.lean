import FlatDb.Proofs.Effects
import FlatDb.Proofs.Views

/-! # Commands about different tables

All tables share one file of counters, which every insertion rewrites, and lookups search directories
that other commands change.  Still, commands about different tables do not interfere: in every state that
a run from an empty root reaches, either order of two such commands gives the same responses, the same
table files and the same counters.

* `Mirrors.look_table`: the file of a table holds what the view of the table tells.
* `Mirrors.agreeBut_run`: a command about one table leaves everything but the files of tables and the
  counters.
* `perm_of_about`: counters that are the same for each table are the same up to their order.
* `onDisk_comm`: **commands about different tables commute.** -/

namespace FlatDb

open Text Node

/-! ### Counters up to their order -/

/-- Well-formed counters that are the same for every table are the same up to their order. -/
theorem Registry.perm_of_about {r r' : Registry} (hr : r.WellFormed) (hr' : r'.WellFormed)
    (h : ∀ p, r.about p = r'.about p) : r.Perm r' := by
  have hnodup {r : Registry} (hr : r.WellFormed) : r.Nodup := by
    apply hr.distinct.imp
    rintro a _ hab rfl
    exact hab ⟨rfl, rfl⟩
  have hmem (r : Registry) (c : Counter) : c ∈ r ↔ c ∈ r.about ⟨c.database, c.table⟩ := by
    simp [about, TableRef.Same, sameName_refl]
  rw [List.perm_ext_iff_of_nodup (hnodup hr) (hnodup hr')]
  intro c
  rw [hmem, h, ← hmem]

/-! ### Files of tables -/

/-- The places where commands store tables: files in directories of the root, both under names. -/
inductive TablePlace (root : Place) : Place → Prop where
  | intro {database name : Text} (hd : IsName database) (hn : IsName name) :
      TablePlace root (root ++ [database] ++ [Path.fileOf name])

namespace Memory

open Entries

variable {m : Memory} {root : Text} {place : Place} {d₀ d : Disk}

/-- What is seen of a table at the file of a name. -/
def View.file (v : View) (database name : Text) : Option (Option ByteArray) :=
  match v.table with
  | some (stored, t) =>
    if v.database = some database ∧ stored = name then some (some (toBytes t.encode)) else none
  | none => none

/-- A reply that is an outcome in memory, told of a disk on which nothing else has changed than files of
tables and the counters. -/
structure Answers (root : Text) (place : Place) (d₀ d : Disk) (o : Outcome) (r : Reply Disk) : Prop where
  response : r.response = FlatDb.response o.result
  session : r.session = o.session
  mirrors : Mirrors root place d₀ o.memory r.store
  frame : AgreeBut (fun q => TablePlace place q ∨ q = place ++ [registryName]) d r.store

namespace Mirrors

/-- **The file of a table** holds what the view of the table tells. -/
theorem look_table (h : Mirrors root place d₀ m d) (hw : m.WellFormed) {database name : Text}
    (hd : IsName database) :
    d.look (place ++ [database] ++ [Path.fileOf name]) =
      (m.view ⟨database, name⟩).file database name := by
  by_cases hdb : database ∈ m.databases.map Prod.fst
  · obtain ⟨e, he, rfl⟩ := List.mem_map.mp hdb
    rw [view_of_mem hw he (sameName_refl _)]
    by_cases hname : name ∈ e.2.map Prod.fst
    · obtain ⟨x, hx, rfl⟩ := List.mem_map.mp hname
      rw [named_of_mem (hw.tables e he) hx (sameName_refl _)]
      unfold look
      rw [h.find_table hw he hx]
      simp [tableNode, View.file]
    · have hnone : (e.2.map fun x => (Path.fileOf x.1, tableNode x.2)).lookup (Path.fileOf name) =
          none := by
        rw [lookup_eq_none_iff, List.map_map]
        intro hm
        obtain ⟨x, hx, hfile⟩ := List.mem_map.mp hm
        exact hname (List.mem_map.mpr ⟨x, hx, Path.fileOf_inj hfile⟩)
      rw [look_of_lookup_none (h.entriesAt_database hw he) hnone List.prefix_rfl]
      unfold View.file
      cases hfound : named name e.2 with
      | none => rfl
      | some x =>
          -- a table that is found in another spelling has another file
          have hne : x.1 ≠ name := fun hx =>
            hname (List.mem_map.mpr ⟨x, (of_named_eq_some hfound).1, hx⟩)
          simp [hne]
  · obtain ⟨all, ha, hp⟩ := h.entries
    have hnone : all.lookup database = none := by
      rw [lookup hw hp hd.ne_absolute, lookup_entries_of_not_mem hd hdb]
    rw [look_of_lookup_none ha hnone (List.prefix_append _ _)]
    have hother : (m.view ⟨database, name⟩).database ≠ some database := by
      intro hfound
      obtain ⟨e, he, hname⟩ := Option.map_eq_some_iff.mp hfound
      exact hdb (List.mem_map.mpr ⟨e, (of_named_eq_some he).1, hname⟩)
    unfold View.file
    cases (m.view ⟨database, name⟩).table with
    | none => rfl
    | some x => simp [hother]

variable {p : TableRef}

/-- A change of one table shows at the files of tables and at the counters only. -/
theorem agreeBut_make (h : Mirrors root place d₀ m d) (hr : EmptyRoot root place d₀)
    (hw : m.WellFormed) {change : Change Key} (hs : m.Sound change) (ht : Touches p m change) :
    AgreeBut (fun q => TablePlace place q ∨ q = place ++ [registryName]) d
      ((change.map (Key.path root)).make (.ofText root) d).2 := by
  intro q hq
  obtain ⟨htable, hregistry⟩ := not_or.mp hq
  -- the entries of a database are files
  have hfiles (e : Text × List (Text × Table)) (name : Text) (below : List (Text × Node)) :
      (e.2.map fun x => (Path.fileOf x.1, tableNode x.2)).lookup name ≠ some (.directory below) := by
    intro hl
    obtain ⟨x, -, hx⟩ := List.mem_map.mp (mem_of_lookup hl)
    cases congrArg Prod.snd hx
  cases ht with
  | @storeTable _ name t _ =>
      cases hs with
      | @storeTable e _ _ he hn _ _ =>
          have hentries := h.entriesAt_database hw he
          have hne : q ≠ place ++ [e.1] ++ [Path.fileOf name] := by
            rintro rfl
            exact htable ⟨isName_database hw he, hn⟩
          show (Disk.storeTable d ((Key.path root (.database e.1)).child (Path.fileOf name)) t).2.look q
            = d.look q
          rcases Disk.storeTable_child (h.locate_database hr e.1) hentries (Path.fileOf name) t with
            ⟨why, hc⟩ | ⟨hc, -, -, hd⟩
          · rw [hc]
          · rw [hc]
            exact look_put_of_ne hentries hd _ hne
  | dropTable _ =>
      cases hs with
      | @dropTable e x he hx =>
          have hne : q ≠ place ++ [e.1] ++ [Path.fileOf x.1] := by
            rintro rfl
            exact htable ⟨isName_database hw he, isName_table hw he hx⟩
          have hres : d.resolve (Key.path root (.table e.1 x.1)) =
              .ok (place ++ [e.1] ++ [Path.fileOf x.1]) :=
            resolve_child (h.locate_database hr e.1) (h.fits.tables e he x hx).1
          show (StorageError.ofDisk (d.discard (Key.path root (.table e.1 x.1)))).2.look q = d.look q
          rw [discard_of_find hres (h.find_table hw he hx)]
          exact look_erase_of_ne (h.entriesAt_database hw he) (hfiles e _) hne
  | @storeCounters r _ =>
      obtain ⟨all, ha, -⟩ := h.entries
      show (Disk.storeRegistry d (.ofText root) r).2.look q = d.look q
      rcases Disk.storeRegistry_child (h.locate hr) ha r with ⟨why, hc⟩ | ⟨hc, -, hd⟩
      · rw [hc]
      · rw [hc]
        exact look_put_of_ne ha hd _ hregistry

/-- Changes of one table, as far as they are made, show at the files of tables and at the counters
only. -/
theorem agreeBut_makeAll (hr : EmptyRoot root place d₀) {changes : List (Change Key)}
    (h : Mirrors root place d₀ m d) (hw : m.WellFormed) (hs : Each Sound m changes)
    (ht : Each (Touches p) m changes) :
    AgreeBut (fun q => TablePlace place q ∨ q = place ++ [registryName]) d
      (Change.makeAll (.ofText root) d (changes.map (Change.map (Key.path root)))).2 := by
  induction changes generalizing m d with
  | nil => exact fun _ _ => rfl
  | cons change more ih =>
      have hfirst := h.agreeBut_make hr hw hs.1 ht.1
      rw [List.map_cons, Change.makeAll]
      rcases h.make hr hw hs.1 with ⟨why, hmake⟩ | ⟨d', hmake, h'⟩
      · rw [hmake]
        exact fun _ _ => rfl
      · rw [hmake] at hfirst ⊢
        intro q hq
        rw [ih h' (hw.make hs.1) hs.2 ht.2 q hq, hfirst q hq]

/-- **A command about one table** leaves everything but the files of tables and the counters. -/
theorem agreeBut_run (h : Mirrors root place d₀ m d) (hr : EmptyRoot root place d₀)
    (hw : m.WellFormed) (call : Call) {session : Session} {c : Command} (hproper : c.Proper)
    (hs : session.database = some p.database) (hc : c.table? = some p.name) :
    AgreeBut (fun q => TablePlace place q ∨ q = place ++ [registryName]) d
      ((call.engine root).run session d c).disk := by
  unfold Engine.run
  rw [h.plan_eq hr hw call session hproper]
  cases hp : c.plan (m.catalogWith (m.readable root)) session with
  | error why => exact fun _ _ => rfl
  | ok plan =>
      have hplanned := Command.planned_of_plan hp
      have hsound := sound_of_planned hw hproper hplanned fun r hr => eq_of_readable hr
      have htouches := touches_of_planned hw hs hc hplanned fun r hr => eq_of_readable hr
      have hmade := agreeBut_makeAll hr h hw hsound htouches
      dsimp only [Except.map]
      rw [Engine.disk_perform]
      exact hmade

/-- **A call about one table** leads to what its command leads to in memory, and leaves everything but
the files of tables and the counters. -/
theorem answers (h : Mirrors root place d₀ m d) (hr : EmptyRoot root place d₀)
    (hw : m.WellFormed) {call : Call} {c : Command} (hp : Command.parse call.input = .ok c)
    {session : Session} (hs : session.database = some p.database) (hc : c.table? = some p.name) :
    Answers root place d₀ d (m.runWithin root session c) (call.onDisk root session d) := by
  have hproper := Command.proper_of_parse hp
  obtain ⟨hresult, hsession, hmirrors⟩ := h.run_eq hr hw call session hproper
  have hframe := h.agreeBut_run hr hw call hproper hs hc
  unfold Call.onDisk Engine.runText
  rw [hp]
  exact ⟨congrArg response hresult, hsession, hmirrors, hframe⟩

/-- Disks whose memories show the same of every table hold the same files of tables and, up to their
order, the same counters. -/
theorem agree_of_view {m' : Memory} {d' : Disk} (h : Mirrors root place d₀ m d)
    (h' : Mirrors root place d₀ m' d') (hr : EmptyRoot root place d₀) (hw : m.WellFormed)
    (hw' : m'.WellFormed) (hv : ∀ p, m.view p = m'.view p) :
    (∀ q, TablePlace place q → d.look q = d'.look q) ∧
      ((∃ r r', d.readRegistry (.ofText root) = .ok r ∧ d'.readRegistry (.ofText root) = .ok r' ∧
          r.Perm r') ∨
        ∃ why, d.readRegistry (.ofText root) = .error why ∧
          d'.readRegistry (.ofText root) = .error why) := by
  constructor
  · rintro q ⟨hd, hn⟩
    rw [h.look_table hw hd, h'.look_table hw' hd, hv]
  · have hperm : m.counters.Perm m'.counters :=
      Registry.perm_of_about hw.counters hw'.counters fun p => congrArg View.counters (hv p)
    rw [h.readRegistry_eq_readable hr hw, h'.readRegistry_eq_readable hr hw']
    unfold readable
    cases ((Path.ofText root).child registryName).fault? with
    | some cause => exact .inr ⟨_, rfl, rfl⟩
    | none => exact .inl ⟨_, _, rfl, rfl, hperm⟩

end Mirrors

end Memory

/-! ### Runs -/

/-- **Commands about different tables commute.**  In every state that a run from an empty root reaches,
two sessions have selected databases and send commands that are each about one table, not the same one up
to case.  Then each command has the same response and leaves the same session in both orders; and
afterwards the disks look the same at all places but that of the counters, where the same counters are
read up to their order.  Directories may be listed differently each time. -/
theorem onDisk_comm {root : Text} {d : Disk} (h : d.list (.ofText root) = .ok [])
    (events : List Event) {p q : TableRef} (hpq : ¬ p.Same q) {s t : Session}
    (hs : s.database = some p.database) (ht : t.database = some q.database) {a a' b b' : Call}
    {commandA commandB : Command} (ha : Command.parse a.input = .ok commandA)
    (ha' : a'.input = a.input) (hb : Command.parse b.input = .ok commandB)
    (hb' : b'.input = b.input) (hp : commandA.table? = some p.name)
    (hq : commandB.table? = some q.name) :
    let before := ((World.start d).after root events).store
    let first := a.onDisk root s before
    let second := b.onDisk root t first.store
    let first' := b'.onDisk root t before
    let second' := a'.onDisk root s first'.store
    (first.response = second'.response ∧ first.session = second'.session) ∧
      (second.response = first'.response ∧ second.session = first'.session) ∧
      (∃ place, d.resolve (.ofText root) = .ok place ∧
        AgreeBut (· = place ++ [registryName]) second.store second'.store) ∧
      ((∃ r r', second.store.readRegistry (.ofText root) = .ok r ∧
          second'.store.readRegistry (.ofText root) = .ok r' ∧ r.Perm r') ∨
        ∃ why, second.store.readRegistry (.ofText root) = .error why ∧
          second'.store.readRegistry (.ofText root) = .error why) := by
  intro before first second first' second'
  obtain ⟨place, hr⟩ := emptyRoot_of_list h
  obtain ⟨m, hw, hm⟩ := mirrors_after hr (w := World.start d) (Memory.mirrors_empty hr)
    Memory.wellFormed_empty events
  have hA := Command.proper_of_parse ha
  have hB := Command.proper_of_parse hb
  have hwA : (m.runWithin root s commandA).memory.WellFormed := hw.runWithin s hA
  have hwB : (m.runWithin root t commandB).memory.WellFormed := hw.runWithin t hB
  obtain ⟨⟨hresultA, hsessionA⟩, ⟨hresultB, hsessionB⟩, hview⟩ :=
    Memory.runWithin_comm root hw hpq hs ht hA hB hp hq
  -- both orders step by step
  have hfirst := hm.answers hr hw ha hs hp
  have hsecond := hfirst.mirrors.answers hr hwA hb ht hq
  have hfirst' := hm.answers hr hw (hb' ▸ hb) ht hq
  have hsecond' := hfirst'.mirrors.answers hr hwB (ha' ▸ ha) hs hp
  obtain ⟨htables, hcounters⟩ := hsecond.mirrors.agree_of_view hsecond'.mirrors hr
    (hwA.runWithin t hB) (hwB.runWithin s hA) hview
  refine ⟨⟨?_, ?_⟩, ⟨?_, ?_⟩, ⟨place, ?_, fun q hq => ?_⟩, hcounters⟩
  · rw [hfirst.response, hsecond'.response, hresultA]
  · rw [hfirst.session, hsecond'.session, hsessionA]
  · rw [hsecond.response, hfirst'.response, hresultB]
  · rw [hsecond.session, hfirst'.session, hsessionB]
  · exact resolve_eq_ok_iff.mpr ⟨hr.fault, hr.locate⟩
  · by_cases htable : TablePlace place q
    · exact (htables q htable).symm
    · have hkept : ¬ (TablePlace place q ∨ q = place ++ [registryName]) := not_or.mpr ⟨htable, hq⟩
      rw [hsecond'.frame q hkept, hfirst'.frame q hkept, hsecond.frame q hkept, hfirst.frame q hkept]

/-- A run after which a database holds two tables without rows. -/
def twoTables : List Event :=
  [.call (.of 0 "CREATE DATABASE Shop;"), .call (.of 0 "USE shop;"),
    .call (.of 0 "CREATE TABLE t (a);"), .call (.of 0 "CREATE TABLE u (b);")]

theorem onDisk_comm_twoTables :
    let before := ((World.start exampleDisk).after "data".toList twoTables).store
    let a := Call.of 0 "INSERT INTO T VALUES('x');"
    let b := Call.of 1 "INSERT INTO u VALUES('y');"
    let s : Session := ⟨some "Shop".toList⟩
    let t : Session := ⟨some "shop".toList⟩
    let first := a.onDisk "data".toList s before
    let second := b.onDisk "data".toList t first.store
    let first' := b.onDisk "data".toList t before
    let second' := a.onDisk "data".toList s first'.store
    first.response = okStatus ∧ second.response = okStatus ∧ first'.response = okStatus ∧
      second'.response = okStatus ∧
      (∃ place, exampleDisk.resolve (.ofText "data".toList) = .ok place ∧
        AgreeBut (· = place ++ [registryName]) second.store second'.store) ∧
      second.store.readRegistry (.ofText "data".toList) ≠
        second'.store.readRegistry (.ofText "data".toList) := by
  intro before a b s t first second first' second'
  have hempty : exampleDisk.list (.ofText "data".toList) = .ok [] := rfl
  have ha : Command.parse a.input = .ok (.insert "T".toList [.quoted "x".toList]) := by
    decide +kernel
  have hb : Command.parse b.input = .ok (.insert "u".toList [.quoted "y".toList]) := by
    decide +kernel
  have hne : ¬ TableRef.Same ⟨"Shop".toList, "T".toList⟩ ⟨"shop".toList, "u".toList⟩ := by decide
  obtain ⟨⟨hresponseA, -⟩, ⟨hresponseB, -⟩, hstores, -⟩ :=
    onDisk_comm hempty twoTables hne (s := s) (t := t) rfl rfl (a := a) (b := b) ha rfl hb rfl rfl rfl
  have hfirst : first.response = okStatus := by decide +kernel
  have hfirst' : first'.response = okStatus := by decide +kernel
  refine ⟨hfirst, hresponseB.trans hfirst', hfirst', hresponseA.symm.trans hfirst, hstores, ?_⟩
  -- the counters are kept in the order in which the tables got their first rows
  decide +kernel

end FlatDb
