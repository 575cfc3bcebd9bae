import FlatDb.Proofs.Counters
import FlatDb.Proofs.Failure
import Mathlib.Control.Monad.Basic

/-! # Inserting a row

An `INSERT` replaces two files, one after the other: the registry of ids, then the table.

* `Registry.Advances` says which counter goes on when an id is handed out.
* `makeAll_insertion` follows the two replacements, with the places of both files; `Engine.exists_of_insert`
  says that an insertion that succeeds has made both.
* `insert_cases`: **an insertion changes nothing, or both files, or the registry alone**, and the
  last exactly if the registry can be stored and there is no room beside the file of the table. -/

namespace FlatDb

open Text Node

/-! ### Counters -/

/-- An id is handed out: the first counter of the pair goes on to the id after it, or the pair gets
a counter that begins behind 1. -/
inductive Registry.Advances (database table : Text) : Nat → Registry → Registry → Prop where
  | next {before after : Registry} (id : Nat)
      (h : ∀ c ∈ before, ¬ (c.database = database ∧ c.table = table)) :
      Advances database table id (before ++ ⟨database, table, id⟩ :: after)
        (before ++ ⟨database, table, following id⟩ :: after)
  | first {r : Registry} (h : ∀ c ∈ r, ¬ (c.database = database ∧ c.table = table)) :
      Advances database table 1 r (r ++ [⟨database, table, 2⟩])

theorem Registry.advances_take (database table : Text) (r : Registry) :
    Advances database table (take database table r).1 r (take database table r).2 := by
  induction r with
  | nil => exact .first fun _ hc => nomatch hc
  | cons c more ih =>
      rw [take]
      by_cases hc : c.database = database ∧ c.table = table
      · rw [if_pos hc]
        obtain ⟨rfl, rfl⟩ := hc
        exact @Advances.next c.database c.table [] more c.next fun _ hc => nomatch hc
      · rw [if_neg hc]
        rcases hx : take database table more with ⟨id, r⟩
        rw [hx] at ih
        dsimp only at ih ⊢
        cases ih with
        | @next before after _ h =>
            exact @Advances.next database table (c :: before) after id (List.forall_mem_cons.mpr ⟨hc, h⟩)
        | first h => exact .first (List.forall_mem_cons.mpr ⟨hc, h⟩)

/-! ### The two files of an insertion -/

/-- A table is read from a file. -/
theorem find_of_readTable {d : Disk} {p : Path} {t : Table} (h : d.readTable p = .ok t) :
    ∃ place bytes, d.resolve p = .ok place ∧ d.find place = .ok (.file bytes) := by
  have hread : ∃ bytes, d.read p = .ok bytes := by
    unfold Disk.readTable readText at h
    cases hb : d.read p with
    | ok bytes => exact ⟨bytes, rfl⟩
    | error cause =>
        rw [hb] at h
        cases h
  obtain ⟨bytes, hb⟩ := hread
  unfold Node.read at hb
  split at hb
  · next found hf =>
      cases hb
      obtain ⟨place, hr, hf⟩ := bind_eq_ok_iff.mp hf
      exact ⟨place, bytes, hr, hf⟩
  · cases hb
  · cases hb

section insertion
variable {root : Text} {order : Nat → Order} {session : Session} {d : Disk} {input name : Text}
  {values : List Literal}

/-- A database that was found is a directory of the root, and a table that was read is a file in
that directory. -/
theorem places_of_insertion {selected : Text} {database stored : Stored Path} {t : Table}
    {counters : Registry}
    (hi : Command.Insertion (d.catalog order (.ofText root)) session selected name values database
      stored t counters) :
    ∃ place entries below entry bytes, d.locate (.ofText root) = .ok place ∧
      d.entriesAt place = .ok entries ∧
      entries.lookup database.name = some (.directory below) ∧
      d.locate database.key = .ok (place ++ [database.name]) ∧
      d.entriesAt (place ++ [database.name]) = .ok below ∧
      stored.key = database.key.child entry ∧
      stored.key.fault? = none ∧ below.lookup entry = some (.file bytes) := by
  have hfound : d.findDatabase (order 0) (.ofText root) selected = some database := hi.database_eq
  have htable : d.findTable (order 1) database.key name = .ok (some stored) := hi.table_eq
  have hread : d.readTable stored.key = .ok t := hi.load_eq
  obtain ⟨place, entries, hl, he, hkey⟩ : ∃ place entries, d.locate (.ofText root) = .ok place ∧
      d.entriesAt place = .ok entries ∧
      database.key = (Path.ofText root).child database.name := by
    unfold Disk.findDatabase at hfound
    split at hfound
    · cases hfound
    · next es hlist =>
        obtain ⟨place, all, hl, ha⟩ := locate_of_list hlist
        obtain ⟨e, -, rfl⟩ := Option.map_eq_some_iff.mp hfound
        exact ⟨place, all, hl, ha, rfl⟩
  obtain ⟨here, below, hbelow, hes⟩ := locate_of_findTable htable
  obtain ⟨entry, hentry⟩ := key_of_findTable htable
  have hhere : d.locate database.key = .ok (place ++ [database.name]) := by
    rw [hkey]
    exact locate_child hl _
  rw [hhere, Except.ok.injEq] at hbelow
  subst hbelow
  obtain ⟨file, bytes, hr, hf⟩ := find_of_readTable hread
  obtain ⟨hfault, hlocate⟩ := resolve_eq_ok_iff.mp hr
  rw [hentry, locate_child hhere, Except.ok.injEq] at hlocate
  subst hlocate
  rw [find_child hes] at hf
  refine ⟨place, entries, below, entry, bytes, hl, he, ((entriesAt_child_iff he).mp hes).2, hhere,
    hes, hentry, hfault, ?_⟩
  split at hf
  · cases hf
  · split at hf
    · cases hf
    · next node hn =>
        cases hf
        exact hn

/-- A table is stored in the place of a file exactly when there is room beside it. -/
theorem storeTable_child_eq {below : Place} {es : List (Text × Node)} {p : Path}
    {entry : Text} (hl : d.locate p = .ok below) (he : d.entriesAt below = .ok es)
    (hf : (p.child entry).fault? = none) (hd : ∀ es', es.lookup entry ≠ some (.directory es'))
    (t : Table) :
    d.Cramped (p.child entry) ∧ (∃ e, d.storeTable (p.child entry) t = (.error e, d)) ∨
      ¬ d.Cramped (p.child entry) ∧ entry.size ≤ maxNameSize ∧
        d.storeTable (p.child entry) t = (.ok (), d.put below entry (.file t.encode.toBytes)) := by
  unfold Disk.storeTable
  rcases replace_child_eq hl he hf hd t.encode.toBytes with ⟨hc, cause, hr⟩ | ⟨hc, hs, hr⟩
  · rw [hr]
    exact .inl ⟨hc, _, rfl⟩
  · rw [hr]
    exact .inr ⟨hc, hs, rfl⟩

/-- The registry is stored only where a path may lead. -/
theorem fault?_of_storeRegistry {place : Place} {entries : List (Text × Node)}
    (hl : d.locate (.ofText root) = .ok place) (he : d.entriesAt place = .ok entries) {r : Registry}
    {d' : Disk} (h : d.storeRegistry (.ofText root) r = (.ok (), d')) :
    (Disk.registryPath (.ofText root)).fault? = none := by
  rcases Disk.storeRegistry_child hl he r with ⟨why, hs⟩ | ⟨-, hf, -⟩
  · rw [hs] at h
    cases h
  · exact hf

/-- What storing the counters and then a table leaves on the disk: nothing new, both files, or the
registry alone. -/
theorem makeAll_insertion {selected : Text} {database stored : Stored Path} {t : Table}
    {counters : Registry}
    (hi : Command.Insertion (d.catalog order (.ofText root)) session selected name values database
      stored t counters) {x : Except StorageError Unit × Disk}
    (hx : Change.makeAll (.ofText root) d (Command.insertion database stored t counters values) = x) :
    (∃ e, x.1 = .error e) ∧ x.2 = d ∨
    ∃ registry place, d.resolve (Disk.registryPath (.ofText root)) = .ok registry ∧
      d.resolve stored.key = .ok place ∧
      x.2.look registry =
        some (some (counters.allocate database.name stored.name).2.encode.toBytes) ∧
      (x.1 = .ok () ∧ ¬ d.Cramped stored.key ∧
          x.2.look place = some (some (t.append (counters.allocate database.name stored.name).1
            values).encode.toBytes) ∧
          (∀ q, q ≠ registry → q ≠ place → x.2.look q = d.look q) ∨
        (∃ e, x.1 = .error e) ∧ d.Cramped stored.key ∧
          ∀ q, q ≠ registry → x.2.look q = d.look q) := by
  obtain ⟨place, entries, below, entry, bytes, hl, he, hdir, hbelow, hes, hkey, hfault, hentry⟩ :=
    places_of_insertion hi
  subst hx
  rw [Command.insertion]
  rcases counters.allocate database.name stored.name with ⟨id, counters'⟩
  dsimp only
  rw [Change.makeAll]
  rcases hstore : Change.make (.ofText root) d (.storeCounters counters') with ⟨e | _, d₁⟩
  · -- the counters cannot be stored
    refine .inl ⟨⟨e, rfl⟩, ?_⟩
    have hf : (Change.storeCounters counters').Feasible d := True.intro
    exact make_of_error hl he hf hstore
  · refine .inr ⟨place ++ [registryName], place ++ [database.name] ++ [entry], ?_⟩
    obtain ⟨rfl, hk, hreg⟩ := locate_of_storeRegistry hl he hstore
    have hne : database.name ≠ registryName := by
      intro hn
      rw [hn] at hdir
      exact hreg below hdir
    have hes₁ := (entriesAt_put_of_ne hne place d (.file counters'.encode.toBytes)).trans hes
    have hbelow₁ := locate_mono hk hbelow
    have hcramped := (cramped_child_iff hbelow₁ hes₁ entry).trans
      (cramped_child_iff hbelow hes entry).symm
    have hregistry : (d.put place registryName (.file counters'.encode.toBytes)).look
        (place ++ [registryName]) = some (some counters'.encode.toBytes) :=
      look_put_self he (by decide) _
    have hd : ∀ es', below.lookup entry ≠ some (.directory es') := by simp [hentry]
    have hres : d.resolve stored.key = .ok (place ++ [database.name] ++ [entry]) := by
      rw [hkey] at hfault ⊢
      exact resolve_child hbelow hfault
    refine ⟨resolve_child hl (fault?_of_storeRegistry hl he hstore), hres, ?_⟩
    rw [hkey] at hfault ⊢
    dsimp only
    rw [Change.makeAll]
    rcases storeTable_child_eq hbelow₁ hes₁ hfault hd (t.append id values) with
      ⟨hc, e, hs⟩ | ⟨hc, hsize, hs⟩
    · have hm : Change.make (.ofText root) (d.put place registryName
          (.file counters'.encode.toBytes)) (.storeTable (database.key.child entry)
            (t.append id values)) = (.error e, _) := hs
      rw [hm]
      refine ⟨hregistry, .inr ⟨⟨e, rfl⟩, hcramped.mp hc, fun q hq => ?_⟩⟩
      exact look_put_of_ne he hreg _ hq
    · have hm : Change.make (.ofText root) (d.put place registryName
          (.file counters'.encode.toBytes)) (.storeTable (database.key.child entry)
            (t.append id values)) = (.ok (), _) := hs
      rw [hm]
      have hne' : place ++ [registryName] ≠ place ++ [database.name] ++ [entry] := by
        simp
      refine ⟨?_, .inl ⟨rfl, fun h => hc (hcramped.mpr h), ?_, fun q hq hq' => ?_⟩⟩
      · exact (look_put_of_ne hes₁ hd _ hne').trans hregistry
      · exact look_put_self hes₁ hsize _
      · exact (look_put_of_ne hes₁ hd _ hq').trans (look_put_of_ne he hreg _ hq)

/-- Both changes are made exactly if the counters can be stored and then the table. -/
theorem Command.makeAll_insertion_eq_ok_iff {root : Path} {database stored : Stored Path} {t : Table}
    {counters : Registry} {d' : Disk} :
    Change.makeAll root d (insertion database stored t counters values) = (.ok (), d') ↔
      ∃ d₁, d.storeRegistry root (counters.allocate database.name stored.name).2 = (.ok (), d₁) ∧
        d₁.storeTable stored.key (t.append (counters.allocate database.name stored.name).1 values) =
          (.ok (), d') := by
  simp only [insertion, Change.makeAll, Change.make]
  rcases d.storeRegistry root (counters.allocate database.name stored.name).2 with ⟨why | _, d₁⟩
  · simp
  · rcases hs : d₁.storeTable stored.key
      (t.append (counters.allocate database.name stored.name).1 values) with ⟨why | _, d'⟩ <;> simp [hs]

/-- After both changes the file holds the longer table. -/
theorem Command.Insertion.look_of_makeAll {selected : Text} {database stored : Stored Path}
    {t : Table} {counters : Registry} {d' : Disk}
    (hi : Command.Insertion (d.catalog order (.ofText root)) session selected name values database stored t
      counters)
    (hm : Change.makeAll (.ofText root) d (Command.insertion database stored t counters values) =
      (.ok (), d')) :
    ∃ place, d.resolve stored.key = .ok place ∧
      d'.look place =
        some (some (t.append (counters.allocate database.name stored.name).1 values).encode.toBytes) := by
  rcases makeAll_insertion hi hm with ⟨⟨why, herror⟩, -⟩ | ⟨registry, place, -, hr, -, hcases⟩
  · cases herror
  · rcases hcases with ⟨-, -, hlook, -⟩ | ⟨⟨why, herror⟩, -⟩
    · exact ⟨place, hr, hlook⟩
    · cases herror

/-- **An insertion that succeeds** has made both changes. -/
theorem Engine.exists_of_insert {e : Engine} {result : Option ResultSet}
    (h : (e.run session d (.insert name values)).result = .ok result) :
    ∃ selected database stored t counters d',
      Command.Insertion (d.catalog e.order e.root) session selected name values database stored t
        counters ∧
      Change.makeAll e.root d (Command.insertion database stored t counters values) = (.ok (), d') ∧
      e.run session d (.insert name values) = ⟨.ok none, session, d'⟩ := by
  unfold run at h ⊢
  cases hplan : (Command.insert name values).plan (d.catalog e.order e.root) session with
  | error why =>
      rw [hplan] at h
      cases h
  | ok p =>
      obtain ⟨selected, database, stored, t, counters, hi, rfl⟩ :=
        Command.planInsert_eq_ok_iff.mp hplan
      rw [hplan] at h
      dsimp only [perform, Plan.change] at h ⊢
      rcases hx : Change.makeAll e.root d (Command.insertion database stored t counters values) with
        ⟨why | _, d'⟩
      · rw [hx] at h
        cases h
      · exact ⟨selected, database, stored, t, counters, d', hi, hx, rfl⟩

/-- **What an insertion does to the disk.**  It is refused and changes nothing; or it hands out the
next id and both files are replaced, one row longer and one counter further on; or only the counter
goes on, and then there is no room beside the file of the table. -/
theorem insert_cases {o : Outcome} (hp : Command.parse input = .ok (.insert name values))
    (ho : Engine.runText ⟨.ofText root, order⟩ session d input = o) :
    o.session = session ∧
    ((∃ why, o.result = .error why) ∧ o.disk = d ∨
      ∃ selected database stored t id counters counters' registry place,
        Command.Insertion (d.catalog order (.ofText root)) session selected name values database
          stored t counters ∧
        Registry.Advances database.name.lowercase stored.name.lowercase id counters counters' ∧
        d.resolve (Disk.registryPath (.ofText root)) = .ok registry ∧
        d.resolve stored.key = .ok place ∧
        o.disk.look registry = some (some counters'.encode.toBytes) ∧
        (o.result = .ok none ∧ ¬ d.Cramped stored.key ∧
            o.disk.look place = some (some (t.append id values).encode.toBytes) ∧
            (∀ q, q ≠ registry → q ≠ place → o.disk.look q = d.look q) ∨
          (∃ why, o.result = .error why) ∧ d.Cramped stored.key ∧
            ∀ q, q ≠ registry → o.disk.look q = d.look q)) := by
  subst ho
  unfold Engine.runText
  rw [hp]
  dsimp only
  unfold Engine.run
  cases hplan : Command.plan (d.catalog order (.ofText root)) session (.insert name values) with
  | error why => exact ⟨rfl, .inl ⟨⟨why, rfl⟩, rfl⟩⟩
  | ok p =>
      obtain ⟨selected, database, stored, t, counters, hi, rfl⟩ :=
        Command.planInsert_eq_ok_iff.mp hplan
      have hadvances := counters.advances_take database.name.lowercase stored.name.lowercase
      dsimp only
      unfold Engine.perform Plan.change
      dsimp only
      rcases hx : Change.makeAll (.ofText root) d
        (Command.insertion database stored t counters values) with ⟨e | _, d'⟩
      · refine ⟨rfl, ?_⟩
        rcases makeAll_insertion hi hx with ⟨-, hd⟩ | ⟨registry, place, hr, hs, hreg, h⟩
        · exact .inl ⟨⟨_, rfl⟩, hd⟩
        · rcases h with ⟨h, -⟩ | ⟨-, hc, hframe⟩
          · cases h
          · exact .inr ⟨selected, database, stored, t, _, counters, _, registry, place, hi, hadvances,
              hr, hs, hreg, .inr ⟨⟨_, rfl⟩, hc, hframe⟩⟩
      · refine ⟨rfl, .inr ?_⟩
        rcases makeAll_insertion hi hx with ⟨⟨e, he⟩, -⟩ | ⟨registry, place, hr, hs, hreg, h⟩
        · cases he
        · rcases h with ⟨-, hc, htable, hframe⟩ | ⟨⟨e, he⟩, -⟩
          · exact ⟨selected, database, stored, t, _, counters, _, registry, place, hi, hadvances,
              hr, hs, hreg, .inl ⟨rfl, hc, htable, hframe⟩⟩
          · cases he

end insertion

/-- Puts a row into the table whose name is too long. -/
def longInsertion : Text := "INSERT INTO ".toList ++ longName ++ " VALUES('1');".toList

/-- What comes of it. -/
def longOutcome : Outcome :=
  Engine.runText ⟨.ofText "data".toList, fun _ => .kept⟩ ⟨some "shop".toList⟩ longDisk longInsertion

/-- Only the registry is stored. -/
theorem insert_cases_longName :
    Command.parse longInsertion = .ok (.insert longName [.quoted "1".toList]) ∧
      (∃ p, longDisk.Cramped p) ∧
      ∃ registry, longDisk.resolve (Disk.registryPath (.ofText "data".toList)) = .ok registry ∧
        ∀ q, q ≠ registry → longOutcome.disk.look q = longDisk.look q := by
  have hp : Command.parse longInsertion = .ok (.insert longName [.quoted "1".toList]) := by
    decide +kernel
  have hdisk : longOutcome.disk.look ["data".toList, registryName] ≠
      longDisk.look ["data".toList, registryName] := by
    decide +kernel
  have hresponse : longOutcome.response ≠ okStatus := by decide +kernel
  obtain ⟨-, ⟨-, hd⟩ | ⟨selected, database, stored, t, id, counters, counters', registry, place, -, -,
    hr, -, -, h⟩⟩ := insert_cases hp (o := longOutcome) rfl
  · rw [hd] at hdisk
    exact absurd rfl hdisk
  · rcases h with ⟨hok, -⟩ | ⟨-, hc, hframe⟩
    · rw [Outcome.response, hok] at hresponse
      exact absurd rfl hresponse
    · exact ⟨hp, ⟨_, hc⟩, registry, hr, hframe⟩

/-- **An insertion is not all or nothing**: it is answered with an error, and there is a registry
that was not there before. -/
theorem registry_stored_longName :
    errorStatus <+: longOutcome.response ∧
      longDisk.look ["data".toList, registryName] = none ∧
      longOutcome.disk.look ["data".toList, registryName] =
        some (some (Text.toBytes ("shop:".toList ++ longName ++ ":2\n".toList))) := by
  refine ⟨by decide +kernel, by decide +kernel, ?_⟩
  -- evaluated on lists of bytes, because comparing long arrays takes many times as long
  have hlist : ((longOutcome.disk.look ["data".toList, registryName]).bind id).map
      (fun bytes => bytes.data.toList) =
        some (Text.toBytes ("shop:".toList ++ longName ++ ":2\n".toList)).data.toList := by
    decide +kernel
  obtain ⟨bytes, hlook, hbytes⟩ := Option.map_eq_some_iff.mp hlist
  obtain ⟨seen, hseen, rfl⟩ := Option.bind_eq_some_iff.mp hlook
  rw [hseen, ByteArray.ext (Array.toList_inj.mp hbytes)]

end FlatDb
