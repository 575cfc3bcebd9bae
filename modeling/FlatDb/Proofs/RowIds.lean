import FlatDb.Proofs.Appending
import FlatDb.Proofs.Effects

/-! # Ids of rows

`World.grants` are the ids that the counters give.  Here they are followed into the tables.

* `Disk.KeepsTables` says that only the counters differ, `World.Appends` that a table gets a row in an event,
  and no other table another one.
* `Disk.Mirrored.cutOff_insertion`: wherever an insertion is cut off, both of its changes have been made, or
  the tables are kept.  So **a row that is stored has the id that was given**, and an insertion that
  stores none is not answered with success (`World.insertion_cases`).
* `World.Appends.grant?_eq`: so no row is stored with another id.
* `ids_after`: **no id is given twice under the same names, no two rows inserted under the same names have
  the same id, and in every table file the ids increase and are below the counter of the table**. -/

namespace FlatDb

open Text Node

/-! ### One insertion -/

/-- Both changes of an insertion leave all files alone but that of the counters and that of the table. -/
theorem Command.Insertion.agreeBut_of_makeAll {root name selected : Text} {order : Nat → Order}
    {session : Session} {d d' : Disk} {values : List Literal} {database stored : Stored Path} {t : Table}
    {counters : Registry}
    (hi : Command.Insertion (d.catalog order (.ofText root)) session selected name values database stored t
      counters)
    (hm : Change.makeAll (.ofText root) d (Command.insertion database stored t counters values) =
      (.ok (), d')) :
    AgreeBut (fun q => d.resolve (Disk.registryPath (.ofText root)) = .ok q ∨
      d.resolve stored.key = .ok q) d d' := by
  intro q hq
  rcases makeAll_insertion hi hm with ⟨⟨why, herror⟩, -⟩ | ⟨registry, place, hreg, hplace, -, hcases⟩
  · cases herror
  · rcases hcases with ⟨-, -, -, hothers⟩ | ⟨⟨why, herror⟩, -⟩
    · refine hothers q (fun he => hq (.inl ?_)) fun he => hq (.inr ?_)
      · rwa [he]
      · rwa [he]
    · cases herror

/-- Only the counters differ: no other file does, and every table is opened as before. -/
structure Disk.KeepsTables (root : Text) (d d' : Disk) : Prop where
  files : AgreeBut (fun q => d.resolve (registryPath (.ofText root)) = .ok q) d d'
  opened : ∀ listings session name, (Engine.below root listings).openTable session d' name =
    (Engine.below root listings).openTable session d name

theorem Disk.KeepsTables.refl (root : Text) (d : Disk) : d.KeepsTables root d :=
  ⟨fun _ _ => rfl, fun _ _ _ => rfl⟩

namespace Disk.Mirrored

variable {root name selected : Text} {session : Session} {d d₁ d' : Disk} {values : List Literal}
  {listings : Nat → Listing} {database stored : Stored Path} {t : Table} {counters : Registry}

section planned
variable (h : d.Mirrored root)
  (hi : Command.Insertion (d.catalog (Engine.below root listings).order (.ofText root)) session selected
    name values database stored t counters)
include h hi

/-- The first change keeps the tables, whether it can be made or not. -/
theorem keepsTables_storeRegistry :
    d.KeepsTables root
      (d.storeRegistry (.ofText root) (counters.allocate database.name stored.name).2).2 := by
  obtain ⟨place, entries, -, -, -, hl, he, -⟩ := places_of_insertion hi
  rcases Disk.storeRegistry_child hl he (counters.allocate database.name stored.name).2 with
    ⟨_, hs⟩ | ⟨hs, hf, hreg⟩
  · rw [hs]
    exact .refl root d
  · have hopened := (h.of_storeCounters hi hs).2
    rw [hs]
    refine ⟨fun q hq => look_put_of_ne he hreg _ ?_, hopened⟩
    rintro rfl
    exact hq (resolve_child hl hf)

/-- If a change fails, the tables are kept. -/
theorem keepsTables_of_error {why : StorageError}
    (hm : Change.makeAll (.ofText root) d (Command.insertion database stored t counters values) =
      (.error why, d')) : d.KeepsTables root d' := by
  have hkeeps := h.keepsTables_storeRegistry hi
  simp only [Command.insertion, Change.makeAll, Change.make] at hm
  rcases hs : d.storeRegistry (.ofText root) (counters.allocate database.name stored.name).2 with
    ⟨_ | _, d₁⟩
  · rw [hs] at hm hkeeps
    cases hm
    exact hkeeps
  · rw [hs] at hm hkeeps
    dsimp only at hm
    have ho : (Engine.below root listings).openTable session d₁ name = .ok (stored, t) :=
      (hkeeps.opened ..).trans hi.openTable_eq
    -- either no table can be stored in the place of this one, or every table can
    rcases (isFile_of_openTable ho).storeTable_cases with hfull | hroom
    · obtain ⟨_, hsame⟩ := hfull (t.append (counters.allocate database.name stored.name).1 values)
      rw [hsame] at hm
      cases hm
      exact hkeeps
    · obtain ⟨_, hok, -⟩ := hroom (t.append (counters.allocate database.name stored.name).1 values)
      rw [hok] at hm
      cases hm

/-- The changes of an insertion, cut off anywhere: the tables are kept, or both changes are made. -/
theorem keepsTables_or_makeAll (n : Nat)
    (hd : (Change.makeAll (.ofText root) d
      ((Command.insertion database stored t counters values).take n)).2 = d') :
    d.KeepsTables root d' ∧ (2 ≤ n → ∃ why, Change.makeAll (.ofText root) d
        (Command.insertion database stored t counters values) = (.error why, d')) ∨
      2 ≤ n ∧ Change.makeAll (.ofText root) d (Command.insertion database stored t counters values) =
        (.ok (), d') := by
  match n with
  | 0 =>
      subst hd
      exact .inl ⟨.refl root d, fun hn => by omega⟩
  | 1 =>
      rw [Command.insertion, List.take_succ_cons, List.take_zero, Change.makeAll_singleton] at hd
      subst hd
      exact .inl ⟨h.keepsTables_storeRegistry hi, fun hn => by omega⟩
  | n + 2 =>
      rw [List.take_of_length_le (by simp [Command.insertion])] at hd
      rcases hm : Change.makeAll (.ofText root) d (Command.insertion database stored t counters values) with
        ⟨why | _, _⟩
      · rw [hm] at hd
        subst hd
        exact .inl ⟨h.keepsTables_of_error hi hm, fun _ => ⟨why, rfl⟩⟩
      · rw [hm] at hd
        subst hd
        exact .inr ⟨by omega, rfl⟩

end planned

/-- **An insertion that is cut off** keeps the tables, or both of its changes are made.  If it was not cut off
before the second, it fails in the first case. -/
theorem cutOff_insertion (h : d.Mirrored root) {c : Call}
    (hp : Command.parse c.input = .ok (.insert name values)) (session : Session) (n : Nat) :
    d.KeepsTables root (c.cutOff root session d n) ∧
        (2 ≤ n → ∃ why, ((c.engine root).runText session d c.input).result = .error why) ∨
      ∃ selected database stored t counters, 2 ≤ n ∧
        Command.Insertion (d.catalog (c.engine root).order (.ofText root)) session selected name values
          database stored t counters ∧
        Change.makeAll (.ofText root) d (Command.insertion database stored t counters values) =
          (.ok (), c.cutOff root session d n) := by
  unfold Call.cutOff
  cases hplan : (Command.insert name values).plan (d.catalog (c.engine root).order (.ofText root))
    session with
  | error why =>
      obtain ⟨hstages, hrun⟩ := Engine.stages_of_plan_error (e := c.engine root) hp hplan
      rw [hstages, hrun, List.take_nil]
      exact .inl ⟨.refl root d, fun _ => ⟨why, rfl⟩⟩
  | ok p =>
      obtain ⟨hstages, hrun⟩ := Engine.stages_of_plan (e := c.engine root) hp hplan
      obtain ⟨selected, database, stored, t, counters, hi, rfl⟩ := Command.planInsert_eq_ok_iff.mp hplan
      rw [hstages, hrun, Change.getLastD_take_stages]
      have hlistings : Command.Insertion (d.catalog (Engine.below root c.listings).order (.ofText root))
        session selected name values database stored t counters := hi
      rcases h.keepsTables_or_makeAll hlistings n rfl with ⟨hkeeps, herror⟩ | ⟨hn, hmake⟩
      · refine .inl ⟨hkeeps, fun hn => ?_⟩
        obtain ⟨why, hmake⟩ := herror hn
        have hfailed := Engine.perform_of_error (e := c.engine root) (p := .change session _) session hmake
        exact ⟨.storage why, congrArg Outcome.result hfailed⟩
      · exact .inr ⟨selected, database, stored, t, counters, hn, hi, hmake⟩

end Disk.Mirrored

/-! ### Events -/

namespace World

variable {root name : Text} {w : World Disk} {event : Event} {g : Grant} {values : List Literal}

/-- An insertion comes to nothing in an event: the tables are kept, and if the client gets an answer, it is
an error. -/
structure Declines (root : Text) (w : World Disk) (event : Event) : Prop where
  keeps : w.store.KeepsTables root (w.step root event).store
  error : ∀ c, event = .call c →
    ∃ why, ((c.engine root).runText (w.sessions c.client) w.store c.input).result = .error why

/-- An insertion stores a row in an event: the table of these names, as it is opened in the session of the
client, gets a row with this id behind the others, and no other table changes. -/
inductive Appends (root : Text) (w : World Disk) (event : Event) (g : Grant) : Prop where
  | intro {values : List Literal} {stored : Stored Path} {t : Table}
      (hparsed : Command.parse event.source.input = .ok (.insert g.table values))
      (hselected : (w.sessions event.source.client).database = some g.database)
      (hbefore : ∀ listings, (Engine.below root listings).openTable (w.sessions event.source.client)
        w.store g.table = .ok (stored, t))
      (hafter : ∀ listings, (Engine.below root listings).openTable (w.sessions event.source.client)
        (w.step root event).store g.table = .ok (stored, t.append g.id values))
      (hframe : AgreeBut (fun q => w.store.resolve (Disk.registryPath (.ofText root)) = .ok q ∨
        w.store.resolve stored.key = .ok q) w.store (w.step root event).store) : Appends root w event g

/-- **What becomes of an insertion** in any event of a run: it comes to nothing, or it is given an id and
stores a row that has it. -/
theorem insertion_cases (hm : w.store.Mirrored root)
    (hp : Command.parse event.source.input = .ok (.insert name values)) :
    w.Declines root event ∨
      ∃ g, g.table = name ∧ w.grant? root event = some g ∧ w.Appends root event g := by
  obtain ⟨n, hn, hgrant, hcall⟩ := step_store root w event
  rcases hm.cutOff_insertion hp (w.sessions event.source.client) n with
    ⟨hkeeps, herror⟩ | ⟨selected, database, stored, t, counters, htwo, hi, hmake⟩
  · refine .inl ⟨hn ▸ hkeeps, ?_⟩
    rintro c rfl
    exact herror (hcall c rfl)
  · let g : Grant := ⟨selected, name, (counters.allocate database.name stored.name).1⟩
    have ho : (Engine.below root event.source.listings).openTable (w.sessions event.source.client) w.store
        name = .ok (stored, t) := hi.openTable_eq
    obtain ⟨-, -, hafter⟩ := hm.of_insertion (Command.proper_of_parse hp) hi hmake
    refine .inr ⟨g, rfl, ?_, hp, hi.session_eq, fun listings => ?_, hn ▸ hafter, ?_⟩
    · rw [hgrant, if_neg (by omega)]
      exact Call.grant?_of_makeAll hp hi hmake
    · exact (hm.openTable_eq listings _ _ name).trans ho
    · rw [hn]
      exact hi.agreeBut_of_makeAll hmake

/-- A row that an insertion stores has the id that is given. -/
theorem Appends.grant?_eq (h : w.Appends root event g) (hm : w.store.Mirrored root) :
    w.grant? root event = some g := by
  obtain ⟨hparsed, hselected, hbefore, hafter, -⟩ := h
  have hb := hbefore fun _ => .kept
  have ha := hafter fun _ => .kept
  rcases insertion_cases hm hparsed with hdeclines | ⟨g', htable, hgrant, h'⟩
  · -- the table would have to be as long as before
    have hsame := hb.symm.trans ((hdeclines.keeps.opened ..).symm.trans ha)
    have hlength := congrArg (·.2.rows.length) (Except.ok.inj hsame)
    simp [Table.append, Table.pushRow] at hlength
  · obtain ⟨-, hselected', hbefore', hafter', -⟩ := h'
    have hdatabase : g'.database = g.database := Option.some.inj (hselected'.symm.trans hselected)
    rw [htable] at hbefore' hafter'
    cases (hbefore' fun _ => .kept).symm.trans hb
    have hrows := congrArg (·.2.rows) (Except.ok.inj ((hafter' fun _ => .kept).symm.trans ha))
    have hid : g'.id = g.id := by
      simp only [Table.append, Table.pushRow, List.append_cancel_left_eq, List.singleton_inj, Row.new,
        Row.mk.injEq] at hrows
      exact hrows.1
    obtain ⟨database, table, id⟩ := g
    cases hdatabase
    cases htable
    cases hid
    exact hgrant

end World

/-! ### Runs -/

namespace World

variable {root : Text} {w : World Disk} {events : List Event}

theorem grants_append (before after : List Event) : w.grants root (before ++ after) =
    w.grants root before ++ (w.after root before).grants root after := by
  induction before generalizing w with
  | nil => rfl
  | cons event before ih =>
      rw [List.cons_append, grants, grants, ih, List.append_assoc]
      rfl

/-- Ids given in two events of a run stand in its list of ids one after the other. -/
theorem before_of_grant? (h : (w.grants root events).Pairwise Grant.Before)
    {done between more : List Event} {event event' : Event} {g g' : Grant}
    (hevents : events = done ++ event :: (between ++ event' :: more))
    (hg : (w.after root done).grant? root event = some g)
    (hg' : (w.after root (done ++ event :: between)).grant? root event' = some g') : g.Before g' := by
  subst hevents
  have hafter : ((w.after root done).step root event).after root between =
      w.after root (done ++ event :: between) := by
    simp [after]
  simp only [grants_append, grants, hg, hafter, hg', Option.toList_some, List.singleton_append] at h
  have hlast := (List.pairwise_append.mp h).2.1
  exact (List.pairwise_cons.mp hlast).1 g' (List.mem_append_right _ List.mem_cons_self)

end World

/-! ### The files -/

/-- A registry has passed all ids of a table file in a database, and they increase from row to
row. -/
def IdsInOrder (registry : Except StorageError Registry) (database file : Text)
    (bytes : ByteArray) : Prop :=
  ∃ contents t, ofBytes? bytes = some contents ∧ Table.decode contents = .ok t ∧
    (t.rows.map Row.id).Pairwise (· < ·) ∧
    ∀ id ∈ t.rows.map Row.id, ∃ r, registry = .ok r ∧
      r.Covers database.lowercase (Path.stem file).lowercase id

section runs
variable {root : Text} {place : Place} {d₀ d : Disk} {m : Memory}

/-- On a disk that mirrors a memory with its ids in order, they are so in the files. -/
theorem Memory.Mirrors.idsInOrder (hm : m.Mirrors root place d₀ d) (hr : EmptyRoot root place d₀)
    (hw : m.WellFormed) (ho : m.Ordered) :
    ∃ entries, d.list (.ofText root) = .ok entries ∧
      ∀ database tables, (database, Node.directory tables) ∈ entries →
        ∀ file bytes, (file, Node.file bytes) ∈ tables →
          IdsInOrder (d.readRegistry (.ofText root)) database file bytes := by
  obtain ⟨es, hes, hp⟩ := hm.list_root hr
  refine ⟨es, hes, fun database tables hd file bytes hf => ?_⟩
  rcases Memory.mem_entries (hp.subset hd) with ⟨-, hreg⟩ | ⟨e, he, hnode⟩
  · cases hreg
  · cases hnode
    obtain ⟨x, hx, hfile⟩ := List.mem_map.mp hf
    cases hfile
    obtain ⟨hids, hcov⟩ := ho e he x hx
    refine ⟨x.2.encode, x.2, ofBytes?_toBytes _, Table.decode_encode (hw.contents e he x hx), hids,
      fun id hid => ⟨m.counters, ?_, ?_⟩⟩
    · obtain ⟨c, hc, -⟩ := hcov id hid
      exact hm.readRegistry_of_ne_nil hr hw (List.ne_nil_of_mem hc)
    · rw [Path.stem_fileOf (Memory.isName_table hw he hx).1]
      exact hcov id hid

/-- **Ids are never given twice and stay in order.**  Of two ids that a run gives under the same names, the
later is larger.  Every insertion of the run either comes to nothing or is given an id and stores a row that
has it; so of two rows that are inserted under the same names, the later has the larger id.  After the run
the ids in each table file increase and are below the counter that the registry holds for the table. -/
theorem ids_after (h : d.list (.ofText root) = .ok []) {events : List Event}
    (hu : (World.start d).Unexhausted root events) :
    ((World.start d).grants root events).Pairwise Grant.Before ∧
    (∀ done event more name values, events = done ++ event :: more →
      Command.parse event.source.input = .ok (.insert name values) →
        ((World.start d).after root done).Declines root event ∨
          ∃ g, g.table = name ∧ ((World.start d).after root done).grant? root event = some g ∧
            ((World.start d).after root done).Appends root event g) ∧
    (∀ done event between event' more g g', events = done ++ event :: (between ++ event' :: more) →
      ((World.start d).after root done).Appends root event g →
        ((World.start d).after root (done ++ event :: between)).Appends root event' g' → g.Before g') ∧
    ∃ entries, ((World.start d).after root events).store.list (.ofText root) = .ok entries ∧
      ∀ database tables, (database, Node.directory tables) ∈ entries →
        ∀ file bytes, (file, Node.file bytes) ∈ tables →
          IdsInOrder (((World.start d).after root events).store.readRegistry (.ofText root))
            database file bytes := by
  obtain ⟨place, hr⟩ := emptyRoot_of_list h
  obtain ⟨hpair, -, m, hw, ho, hm⟩ := ordered_after hr (w := World.start d)
    (Memory.mirrors_empty hr) Memory.wellFormed_empty Memory.ordered_empty hu
  have hmirrored := Disk.Mirrored.after h
  refine ⟨hpair, fun done event more name values _ hp => ?_, ?_, hm.idsInOrder hr hw ho⟩
  · exact World.insertion_cases (hmirrored done) hp
  · intro done event between event' more g g' hevents hfirst hsecond
    exact World.before_of_grant? hpair hevents (hfirst.grant?_eq (hmirrored _))
      (hsecond.grant?_eq (hmirrored _))

end runs

/-- The world before the last event of that run. -/
def lastWorld : World Disk := (World.start exampleDisk).after "data".toList (exampleRun.take 8)

/-- The last call of that run. -/
def lastCall : Call := .of 0 "INSERT INTO T VALUES('z');"

/-- The table is dropped and created again under another capitalization after an insertion was cut off,
and its row has the third id, which goes on where the others ended. -/
theorem ids_after_example :
    (World.start exampleDisk).grants "data".toList exampleRun =
        [⟨"shop".toList, "t".toList, 1⟩, ⟨"shop".toList, "t".toList, 2⟩, ⟨"shop".toList, "T".toList, 3⟩] ∧
      ((World.start exampleDisk).grants "data".toList exampleRun).Pairwise Grant.Before ∧
      lastWorld.Appends "data".toList (.call lastCall) ⟨"shop".toList, "T".toList, 3⟩ := by
  have hempty : exampleDisk.list (.ofText "data".toList) = .ok [] := rfl
  have hu : (World.start exampleDisk).Unexhausted "data".toList exampleRun := by decide +kernel
  have hp : Command.parse lastCall.input = .ok (.insert "T".toList [.quoted "z".toList]) := by
    decide +kernel
  obtain ⟨hpair, hcases, -⟩ := ids_after hempty hu
  refine ⟨by decide +kernel, hpair, ?_⟩
  rcases hcases (exampleRun.take 8) (.call lastCall) [] _ _ rfl hp with hdeclines | ⟨g, -, hgrant, happends⟩
  · obtain ⟨why, herror⟩ := hdeclines.error lastCall rfl
    have hok : ((lastCall.engine "data".toList).runText (lastWorld.sessions 0) lastWorld.store
        lastCall.input).result = .ok none := by
      decide +kernel
    cases hok.symm.trans herror
  · have hthird : lastWorld.grant? "data".toList (.call lastCall) =
        some ⟨"shop".toList, "T".toList, 3⟩ := by
      decide +kernel
    cases hgrant.symm.trans hthird
    exact happends

end FlatDb
