import FlatDb.Proofs.Clients
import FlatDb.Proofs.Printing
import FlatDb.Proofs.Selecting

/-! # Rows at the end

An `INSERT` reads a whole table and writes it again with one more row.

* `encode_append`: the text of the longer table is **the old text with one line behind it**.
* `select_id`: in a well-formed table the cells of the id column are compared as texts, and **an id selects
  the rows that have it**.
* `Disk.Mirrored.of_insertion`: after the counters and the table were stored, the longer table is opened
  under every capitalization of its name.
* `onDisk_insert`: **an insertion adds one line to a file**, and a selection by the new id shows the values
  as they were spelled. -/

namespace FlatDb

open Text Node

/-! ### One line more -/

namespace Table

variable {t : Table} {id : Nat} {values : List Literal} {column : Text} {value : Literal}

/-- A row that is added is a line at the end. -/
theorem encode_append (t : Table) (id : Nat) (values : List Literal) :
    (t.append id values).encode =
      t.encode ++ (Text.join '\t' (ofNat id :: values.map Literal.cell) ++ ['\n']) := by
  simp [encode, append, pushRow, Row.new, encodeLine, tab]

/-! ### Rows by id -/

section id
variable (hw : t.WellFormed) (hc : sameName column idColumn = true)
include hw hc

/-- The rows of an id are those in whose first cell it is written. -/
theorem selected_id (hv : value.cell = ofNat id) :
    t.selected (some (.compare column .equal value)) = t.rows.filter (·.id = id) := by
  refine List.filter_congr fun r hr => ?_
  have hcell : cellAt r.cells 0 = ofNat r.id := by
    rw [cellAt, ← List.head?_eq_getElem?, hw.idCell r hr]
    rfl
  rw [Condition.meaning, hw.readable.columnIndex?_id hc, Bool.eq_iff_iff]
  simp only [Operator.relates, hcell, hv, beq_iff_eq, ofNat_inj, decide_eq_true_eq]

/-- A selection by an id shows the rows that have it. -/
theorem select_id (hv : value.cell = ofNat id) :
    t.select .all (some (.compare column .equal value)) =
      .ok ⟨t.columns, (t.rows.filter (·.id = id)).map Row.cells⟩ := by
  have hfound : lacks t.columns column = false :=
    lacks_eq_false_iff.mpr ⟨idColumn, List.mem_of_head? hw.idFirst, by rw [sameName_comm, hc]⟩
  rw [select_eq hw.readable, selected_id hw hc hv]
  simp [Items.names, filterNames, Condition.columns, hfound, shown]

end id

/-- A row that was added stands behind the earlier ones of its id. -/
theorem filter_append (t : Table) (id : Nat) (values : List Literal) :
    ((t.append id values).rows.filter (·.id = id)).map Row.cells =
      (t.rows.filter (·.id = id)).map Row.cells ++ [ofNat id :: values.map Literal.cell] := by
  simp [append, pushRow, Row.new]

end Table

/-! ### Both changes -/

section insertion
variable {e : Engine} {session : Session} {d d₁ d' : Disk} {name name' selected root : Text}
  {values : List Literal} {database stored : Stored Path} {t : Table} {counters : Registry}

/-- What a row is added to is opened. -/
theorem Command.Insertion.openTable_eq
    (h : Command.Insertion (d.catalog e.order e.root) session selected name values database stored t
      counters) : e.openTable session d name = .ok (stored, t) :=
  Catalog.openTable_eq_ok_iff.mpr
    ⟨selected, database, h.session_eq, h.database_eq, h.table_eq, h.load_eq⟩

/-- An insertion into a mirror is one into a table in memory, with the counters there. -/
theorem Memory.Mirrors.exists_of_insertion {place : Place} {d₀ : Disk} {m : Memory}
    (h : m.Mirrors root place d₀ d) (hr : EmptyRoot root place d₀) (hw : m.WellFormed)
    {listings : Nat → Listing}
    (hi : Command.Insertion (d.catalog (Engine.below root listings).order (.ofText root)) session selected
      name values database stored t counters) :
    counters = m.counters ∧ ∃ entry ∈ m.databases, ∃ x ∈ entry.2,
      database.name = entry.1 ∧ stored.name = x.1 ∧ t = x.2 := by
  obtain ⟨database, stored, rfl, rfl, hi'⟩ := hi.of_simulates (h.simulates hr hw listings)
  obtain rfl := h.readRegistry_eq hr hw hi'.counters_eq
  obtain ⟨entry, he, -, rfl⟩ := Memory.database_of_catalog hi'.database_eq
  obtain ⟨x, hx, -, rfl, hload⟩ := Memory.table_of_catalog hw he hi'.table_eq
  exact ⟨rfl, entry, he, x, hx, rfl, rfl, Except.ok.inj (hi'.load_eq.symm.trans hload)⟩

namespace Disk.Mirrored

/-- Storing counters of a mirror makes no difference to the tables that are opened. -/
theorem of_storeCounters (h : d.Mirrored root) {listings : Nat → Listing}
    (hi : Command.Insertion (d.catalog (Engine.below root listings).order (.ofText root)) session selected
      name values database stored t counters)
    (hs : d.storeRegistry (.ofText root) (counters.allocate database.name stored.name).2 = (.ok (), d₁)) :
    d₁.Mirrored root ∧ ∀ listings' session' name',
      (Engine.below root listings').openTable session' d₁ name' =
        (Engine.below root listings').openTable session' d name' := by
  obtain ⟨place, d₀, m, hr, hw, hm⟩ := h
  obtain ⟨rfl, entry, he, x, hx, hdatabase, hstored, rfl⟩ := hm.exists_of_insertion hr hw hi
  rw [hdatabase, hstored] at hs
  have hcounters := hw.counters.allocate (Memory.isName_database hw he) (Memory.isName_table hw he hx)
  have hne := Registry.allocate_ne_nil entry.1 x.1 m.counters
  have hw' := hw.make (.storeCounters hcounters hne)
  rcases hm.make_storeCounters hr hw hne with ⟨why, hmake⟩ | ⟨d'', hmake, hm'⟩
  · cases hs.symm.trans hmake
  · cases hs.symm.trans hmake
    refine ⟨⟨place, d₀, _, hr, hw', hm'⟩, fun listings' session' name' => ?_⟩
    rw [hm'.openTable_eq hr hw', hm.openTable_eq hr hw]
    rfl

/-- **After an insertion** the longer table is opened. -/
theorem of_insertion (h : d.Mirrored root) {listings : Nat → Listing}
    (hc : (Command.insert name values).Proper)
    (hi : Command.Insertion (d.catalog (Engine.below root listings).order (.ofText root)) session selected
      name values database stored t counters)
    (hm : Change.makeAll (.ofText root) d (Command.insertion database stored t counters values) =
      (.ok (), d')) :
    (t.append (counters.allocate database.name stored.name).1 values).WellFormed ∧ d'.Mirrored root ∧
      ∀ listings', (Engine.below root listings').openTable session d' name =
        .ok (stored, t.append (counters.allocate database.name stored.name).1 values) := by
  obtain ⟨d₁, hs, hs'⟩ := Command.makeAll_insertion_eq_ok_iff.mp hm
  have ho : (Engine.below root listings).openTable session d name = .ok (stored, t) := hi.openTable_eq
  have hsmall : (counters.allocate database.name stored.name).1 < UInt64.size := by
    obtain ⟨place, d₀, m, hr, hw, hm⟩ := h
    obtain ⟨rfl, -⟩ := hm.exists_of_insertion hr hw hi
    exact Registry.allocate_lt (by decide) hw.counters.small _ _
  have hcells : ∀ v ∈ values, IsCell v.cell := fun v hv => hc.cells _ (List.mem_map_of_mem hv)
  have hwf := Table.wellFormed_append (h.wellFormed ho) hi.check_eq hcells hsmall
  obtain ⟨hm₁, hopen⟩ := h.of_storeCounters hi hs
  exact ⟨hwf, hm₁.of_storeTable ((hopen ..).trans ho) hwf hs'⟩

end Disk.Mirrored

/-! ### Runs -/

/-- **New ids exceed the ids of the table**, as long as no counter reaches the largest id. -/
theorem lt_allocate_after (h : d.list (.ofText root) = .ok []) {events : List Event}
    (hu : (World.start d).Unexhausted root events) {listings : Nat → Listing}
    (hi : Command.Insertion
      (((World.start d).after root events).store.catalog (Engine.below root listings).order (.ofText root))
      session selected name values database stored t counters) :
    ∀ r ∈ t.rows, r.id < (counters.allocate database.name stored.name).1 := by
  obtain ⟨place, m, hr, hw, hordered, hm⟩ := exists_ordered_after h hu
  obtain ⟨rfl, entry, he, x, hx, hdatabase, hstored, rfl⟩ := hm.exists_of_insertion hr hw hi
  intro r hrow
  rw [hdatabase, hstored]
  exact ((hordered entry he x hx).2 _ (List.mem_map_of_mem hrow)).lt_allocate hw.counters

/-- Asks a table for the rows of an id. -/
def selectId (name : Text) (id : Nat) : Command :=
  .select .all name (some (.compare idColumn .equal (.number (ofNat id))))

theorem parse_selectId (hn : IsIdentifier name) (id : Nat) :
    Command.parse (selectId name id).print = .ok (selectId name id) := by
  have hdigits : IsDigits (ofNat id) := ⟨ofNat_ne_nil id, fun _ => isDigit_of_mem_ofNat⟩
  refine Command.parse_of_wellFormed ⟨trivial, hn, fun c hc => ?_⟩
  cases hc
  exact ⟨⟨by decide, .unsigned (.whole hdigits)⟩, by simp [Condition.height]⟩

/-- **An insertion adds one line.**  In every state that a run reaches, an insertion that succeeds is given
an id, and the file of its table ends in one more line: the id and the values as they were spelled,
between tabs.  A selection by the id, under whichever capitalization of the table and of the id column and
with whatever listings, then shows the earlier rows of this id and the new one.  As long as no counter
reaches the largest id there are no earlier ones. -/
theorem onDisk_insert (h : d.list (.ofText root) = .ok []) {events : List Event} {w : World Disk}
    (hw : (World.start d).after root events = w) {call : Call}
    (hp : Command.parse call.input = .ok (.insert name values)) {first : Reply Disk}
    (hfirst : call.onDisk root session w.store = first) (hok : okStatus <+: first.response) :
    ∃ selected id stored t place bytes,
      call.grant? root session w.store = some ⟨selected, name, id⟩ ∧
      (call.engine root).openTable session w.store name = .ok (stored, t) ∧
      w.store.resolve stored.key = .ok place ∧
      w.store.look place = some (some bytes) ∧
      first.store.look place = some (some (bytes ++
        toBytes (Text.join '\t' (ofNat id :: values.map Literal.cell) ++ ['\n']))) ∧
      Command.parse (selectId name id).print = .ok (selectId name id) ∧
      (∀ (call' : Call) (name' column : Text) (value : Literal),
        Command.parse call'.input = .ok (.select .all name' (some (.compare column .equal value))) →
        sameName name name' = true → sameName column idColumn = true → value.cell = ofNat id →
        (call'.engine root).runText first.session first.store call'.input =
          ⟨.ok (some ⟨t.columns, (t.rows.filter (·.id = id)).map Row.cells ++
            [ofNat id :: values.map Literal.cell]⟩), first.session, first.store⟩) ∧
      ((World.start d).Unexhausted root events → t.rows.filter (·.id = id) = []) := by
  have hm : w.store.Mirrored root := hw ▸ Disk.Mirrored.after h events
  have hrun := Call.runText_of_parse hp root session w.store
  subst hfirst
  obtain ⟨result, hok⟩ := Outcome.okay_iff.mp hok
  change ((call.engine root).runText _ _ _).result = _ at hok
  rw [hrun] at hok
  obtain ⟨selected, database, stored, t, counters, d', hi, hmake, houtcome⟩ :=
    Engine.exists_of_insert hok
  have ho : (call.engine root).openTable session w.store name = .ok (stored, t) := hi.openTable_eq
  have hproper := Command.proper_of_parse hp
  obtain ⟨hwf, hm', hopen⟩ := hm.of_insertion hproper hi hmake
  obtain ⟨place, hr, hlook⟩ := hi.look_of_makeAll hmake
  have hfirst : call.onDisk root session w.store = ⟨okStatus, session, d'⟩ := by
    unfold Call.onDisk
    rw [hrun]
    exact congrArg (fun o : Outcome => Reply.mk o.response o.session o.disk) houtcome
  rw [hfirst]
  refine ⟨selected, (counters.allocate database.name stored.name).1, stored, t, place, _, ?_, ho, hr,
    hm.look_of_openTable ho hr, ?_, ?_, fun call' name' column value hp' hn hc hv => ?_, fun hu => ?_⟩
  · exact Call.grant?_of_makeAll hp hi hmake
  · rw [← toBytes_append, ← Table.encode_append]
    exact hlook
  · exact parse_selectId (Command.wellFormed_of_parse hp).1 _
  · have ho' := hm'.openTable_of_sameName (hopen call'.listings) hn
    rw [Call.runText_of_parse hp', Engine.run_select ho', Table.select_id hwf hc hv,
      Table.filter_append]
    rfl
  · refine List.filter_eq_nil_iff.mpr fun r hrow => ?_
    have hlt := lt_allocate_after h hu (hw ▸ hi) r hrow
    simp
    omega

end insertion

/-- Adds a row with a cell that is empty and one that begins and ends with a blank. -/
def oddInsertion : Call := .of 1 "INSERT INTO T VALUES('', ' ż, 😀 ');"

/-- Asks for that row. -/
def oddSelection : Call := .of 2 "SELECT * FROM t WHERE ID == 4;"

/-- The reply to the insertion. -/
def oddReply : Reply Disk := oddInsertion.onDisk "data".toList ⟨some "shop".toList⟩ filledWorld.store

theorem onDisk_insert_oddInsertion :
    ∃ bytes,
      filledWorld.store.look ["data".toList, "shop".toList, "t.tab".toList] = some (some bytes) ∧
      oddReply.store.look ["data".toList, "shop".toList, "t.tab".toList] =
        some (some (bytes ++ toBytes "4\t\t ż, 😀 \n".toList)) ∧
      keptEngine.runText oddReply.session oddReply.store oddSelection.input =
        ⟨.ok (some ⟨["id".toList, "x".toList, "n".toList], [["4".toList, [], " ż, 😀 ".toList]]⟩),
          oddReply.session, oddReply.store⟩ := by
  have hempty : exampleDisk.list (.ofText "data".toList) = .ok [] := rfl
  have hw : (World.start exampleDisk).after "data".toList fillingRun = filledWorld := rfl
  have hp : Command.parse oddInsertion.input =
      .ok (.insert "T".toList [.quoted [], .quoted " ż, 😀 ".toList]) := by decide +kernel
  have hp' : Command.parse oddSelection.input =
      .ok (.select .all "t".toList (some (.compare "ID".toList .equal (.number "4".toList)))) := by
    decide +kernel
  have hfirst : oddInsertion.onDisk "data".toList ⟨some "shop".toList⟩ filledWorld.store = oddReply := rfl
  have hok : okStatus <+: oddReply.response := by decide +kernel
  have hu : (World.start exampleDisk).Unexhausted "data".toList fillingRun := by decide +kernel
  obtain ⟨selected, id, stored, t, place, bytes, hgrant, ho, hr, hold, hnew, -, hselect, hnone⟩ :=
    onDisk_insert hempty hw hp hfirst hok
  have hgrant' : oddInsertion.grant? "data".toList ⟨some "shop".toList⟩ filledWorld.store =
      some ⟨"shop".toList, "T".toList, 4⟩ := by decide +kernel
  have ho' := openTable_filledWorld (by decide : sameName "t".toList "T".toList = true)
  have hr' : filledWorld.store.resolve filledStored.key =
      .ok ["data".toList, "shop".toList, "t.tab".toList] := by decide +kernel
  cases hgrant.symm.trans hgrant'
  cases ho.symm.trans ho'
  cases hr.symm.trans hr'
  refine ⟨bytes, hold, hnew, ?_⟩
  have hresult := hselect oddSelection "t".toList "ID".toList _ hp' (by decide) (by decide) (by decide)
  rw [hnone hu] at hresult
  exact hresult

end FlatDb
