import FlatDb.Proofs.Clients
import FlatDb.Proofs.Deletion
import Mathlib.Data.List.Forall2

/-! # Updating rows

An `UPDATE` picks ids by its condition, as a deletion does, and overwrites cells of every row with such
an id, assignment by assignment.

* `lastAssigned` is the assignment to a column that counts; `getElem?_assign` and `lastChange_assigned`
  say that it does.
* `Updates` is what becomes of a row.  `rows_of_update`: **in every state that a run reaches, an update
  changes the assigned cells of the rows of which its condition was true, and nothing else**.
* `update_update`: what an update picks in its own result it has overwritten already, with the same
  texts.  Hence **an update that is repeated changes nothing and is answered alike**
  (`onDisk_update_update`), whether or not it changes what its condition looks at. -/

namespace FlatDb

open Text

namespace Table

/-! ### Assignments -/

/-- The text that changes leave at a position, if they put one there. -/
def lastChange (changes : List (Nat × Text)) (i : Nat) : Option Text :=
  ((changes.filter fun x => x.1 = i).getLast?).map Prod.snd

/-- The last assignment to a column, in whichever case it is named. -/
def lastAssigned (assignments : List Assignment) (column : Text) : Option Assignment :=
  (assignments.filter fun a => sameName a.column column).getLast?

theorem lastChange_cons (x : Nat × Text) (more : List (Nat × Text)) (i : Nat) :
    lastChange (x :: more) i =
      if x.1 = i then some ((lastChange more i).getD x.2) else lastChange more i := by
  unfold lastChange
  rw [List.filter_cons]
  simp only [decide_eq_true_eq]
  split
  · rw [List.getLast?_cons]
    cases (more.filter fun x => x.1 = i).getLast? <;> rfl
  · rfl

theorem lastAssigned_cons (a : Assignment) (more : List Assignment) (column : Text) :
    lastAssigned (a :: more) column =
      if sameName a.column column = true then some ((lastAssigned more column).getD a)
      else lastAssigned more column := by
  unfold lastAssigned
  rw [List.filter_cons]
  split
  · exact List.getLast?_cons
  · rfl

/-- Of the texts that are put into a cell the last one stays. -/
theorem getElem?_assign (changes : List (Nat × Text)) (cells : List Text) (i : Nat) :
    (assign changes cells)[i]? = cells[i]?.map fun cell => (lastChange changes i).getD cell := by
  induction changes generalizing cells with
  | nil => simp [assign, lastChange]
  | cons x more ih =>
      obtain ⟨j, text⟩ := x
      have hset : (assign ((j, text) :: more) cells)[i]? = (assign more (cells.set j text))[i]? := rfl
      rw [hset, ih, lastChange_cons, List.getElem?_set]
      by_cases hj : j = i
      · subst hj
        by_cases hlt : j < cells.length
        · simp [hlt]
        · simp [hlt]
      · simp [hj]

theorem length_assign (changes : List (Nat × Text)) (cells : List Text) :
    (assign changes cells).length = cells.length := by
  induction changes generalizing cells with
  | nil => rfl
  | cons x more ih => exact (ih (cells.set x.1 x.2)).trans List.length_set

/-- Assigning once more changes nothing. -/
theorem assign_assign (changes : List (Nat × Text)) (cells : List Text) :
    assign changes (assign changes cells) = assign changes cells := by
  refine List.ext_getElem? fun i => ?_
  rw [getElem?_assign changes (assign changes cells), getElem?_assign changes cells, Option.map_map]
  refine Option.map_congr fun cell _ => ?_
  cases lastChange changes i <;> rfl

/-- In a header without repetitions a name finds the column that it is a name of. -/
theorem requireColumn_eq_iff {columns : List Text}
    (hd : columns.Pairwise fun a b => sameName a b = false) {name column : Text} {i j : Nat}
    (hj : requireColumn columns name = .ok j) (hi : columns[i]? = some column) :
    j = i ↔ sameName name column = true := by
  have hfound := requireColumn_eq_ok_iff.mp hj
  obtain ⟨hlt, hname, -⟩ := List.findIdx?_eq_some_iff_getElem.mp hfound
  obtain ⟨hlt', rfl⟩ := List.getElem?_eq_some_iff.mp hi
  constructor
  · rintro rfl
    rw [sameName_comm, hname]
  · intro hs
    by_contra hne
    have hsame : sameName columns[j] columns[i] = true := sameName_trans hname hs
    rw [List.pairwise_iff_getElem] at hd
    rcases Nat.lt_or_gt_of_ne hne with hji | hij
    · rw [hd j i hlt hlt' hji] at hsame
      cases hsame
    · rw [sameName_comm, hd i j hlt' hlt hij] at hsame
      cases hsame

/-- What is left at a column comes from the last assignment to it. -/
theorem lastChange_assigned {columns : List Text}
    (hd : columns.Pairwise fun a b => sameName a b = false) {assignments : List Assignment}
    {changes : List (Nat × Text)} (h : assigned columns assignments = .ok changes) {i : Nat}
    {column : Text} (hi : columns[i]? = some column) :
    lastChange changes i = (lastAssigned assignments column).map fun a => a.value.cell := by
  induction assignments generalizing changes with
  | nil =>
      cases h
      rfl
  | cons a more ih =>
      obtain ⟨⟨⟩, -, h⟩ := bind_eq_ok_iff.mp h
      obtain ⟨j, hj, h⟩ := bind_eq_ok_iff.mp h
      obtain ⟨rest, hrest, h⟩ := bind_eq_ok_iff.mp h
      cases h
      have hcolumn := requireColumn_eq_iff hd hj hi
      rw [lastChange_cons, lastAssigned_cons, ih hrest]
      by_cases hs : sameName a.column column = true
      · rw [if_pos (hcolumn.mpr hs), if_pos hs]
        cases lastAssigned more column <;> rfl
      · rw [if_neg fun hji => hs (hcolumn.mp hji), if_neg hs]

/-! ### Tables -/

variable {t t' : Table} {assignments : List Assignment} {c : Condition}

/-- The table with changes made in the rows of some ids. -/
def overwrite (t : Table) (changes : List (Nat × Text)) (ids : List Nat) : Table :=
  { t with
    rows := t.rows.map fun r => if r.id ∈ ids then { r with cells := assign changes r.cells } else r }

/-- An update succeeds exactly if there are all columns that it names and it assigns no id. -/
theorem update_eq_ok_iff {result : Option Table} :
    t.update assignments c = .ok result ↔
      ∃ changes, assigned t.columns assignments = .ok changes ∧ c.Suits t.columns ∧
        result = if t.picked c = [] then none else some (t.overwrite changes (t.picked c)) := by
  unfold update
  rw [bind_eq_ok_iff]
  refine exists_congr fun changes => and_congr_right fun _ => ?_
  rw [bind_eq_ok_iff]
  constructor
  · rintro ⟨ids, hids, h⟩
    obtain ⟨hs, rfl⟩ := matchingIds_eq_ok_iff.mp hids
    refine ⟨hs, ?_⟩
    split at h <;> next hnil =>
      cases h
      simp [hnil, overwrite]
  · rintro ⟨hs, rfl⟩
    refine ⟨t.picked c, matchingIds_eq_ok_iff.mpr ⟨hs, rfl⟩, ?_⟩
    split <;> rfl

/-- What is picked after rows were overwritten was overwritten, if it was picked before. -/
theorem mem_of_mem_picked_overwrite {changes : List (Nat × Text)} {id : Nat}
    (h : id ∈ (t.overwrite changes (t.picked c)).picked c) : id ∈ t.picked c := by
  obtain ⟨r', hr', hmeaning, rfl⟩ := mem_picked_iff.mp h
  obtain ⟨r, hr, rfl⟩ := List.mem_map.mp hr'
  by_cases hid : r.id ∈ t.picked c
  · rwa [if_pos hid]
  · rw [if_neg hid] at hmeaning ⊢
    exact mem_picked_iff.mpr ⟨r, hr, hmeaning, rfl⟩

/-- Overwriting some of the rows once more changes nothing. -/
theorem overwrite_overwrite {changes : List (Nat × Text)} {ids ids' : List Nat} (h : ids' ⊆ ids) :
    (t.overwrite changes ids).overwrite changes ids' = t.overwrite changes ids := by
  have hrows : (t.overwrite changes ids).rows.map (fun r =>
      if r.id ∈ ids' then { r with cells := assign changes r.cells } else r) =
        (t.overwrite changes ids).rows := by
    refine (List.map_congr_left fun r' hr' => ?_).trans (List.map_id _)
    obtain ⟨r, -, rfl⟩ := List.mem_map.mp hr'
    by_cases hid : r.id ∈ ids
    · simp only [if_pos hid, assign_assign, ite_self, id_eq]
    · have hid' : r.id ∉ ids' := fun hmem => hid (h hmem)
      simp [hid, hid']
  exact congrArg (Table.mk t.columns) hrows

/-- **An update of its own result** finds nothing to change, or makes the same table of it. -/
theorem update_update (h : t.update assignments c = .ok (some t')) :
    t'.update assignments c = .ok none ∨ t'.update assignments c = .ok (some t') := by
  obtain ⟨changes, hassigned, hsuits, hresult⟩ := update_eq_ok_iff.mp h
  split at hresult
  · cases hresult
  · obtain rfl := Option.some.inj hresult
    have hsame : (t.overwrite changes (t.picked c)).overwrite changes
        ((t.overwrite changes (t.picked c)).picked c) = t.overwrite changes (t.picked c) :=
      overwrite_overwrite fun _ => mem_of_mem_picked_overwrite
    have hassigned' : assigned (t.overwrite changes (t.picked c)).columns assignments = .ok changes :=
      hassigned
    have hagain := update_eq_ok_iff.mpr ⟨changes, hassigned', hsuits, rfl⟩
    rw [hsame] at hagain
    split at hagain
    · exact .inl hagain
    · exact .inr hagain

/-! ### Rows -/

/-- What an update makes of a row under a header. -/
inductive Updates (header : List Text) (assignments : List Assignment) (c : Condition) :
    Row → Row → Prop where
  | spared {r : Row} (h : c.holds header r.cells = .ok false) : Updates header assignments c r r
  | assigned {r r' : Row} (h : c.holds header r.cells = .ok true) (hid : r'.id = r.id)
      (hlength : r'.cells.length = r.cells.length)
      (hcells : ∀ (i : Nat) (column : Text), header[i]? = some column →
        r'.cells[i]? =
          match lastAssigned assignments column with
          | some a => some a.value.cell
          | none => r.cells[i]?) : Updates header assignments c r r'

/-- An update leaves the columns and the ids.  Without a new version there was nothing to change. -/
theorem ids_of_update {result : Option Table} (h : t.update assignments c = .ok result) :
    (result.getD t).columns = t.columns ∧ (result.getD t).rows.map Row.id = t.rows.map Row.id := by
  obtain ⟨changes, -, -, rfl⟩ := update_eq_ok_iff.mp h
  split
  · exact ⟨rfl, rfl⟩
  · refine ⟨rfl, ?_⟩
    change (t.rows.map _).map Row.id = _
    rw [List.map_map]
    refine List.map_congr_left fun r _ => ?_
    rw [Function.comp_apply]
    split <;> rfl

/-- **Where no id is used twice**, an update makes of each row what it should. -/
theorem updates_of_update (hw : t.WellFormed) (hn : (t.rows.map Row.id).Nodup) {result : Option Table}
    (h : t.update assignments c = .ok result) :
    List.Forall₂ (Updates t.columns assignments c) t.rows (result.getD t).rows := by
  obtain ⟨changes, hassigned, hsuits, rfl⟩ := update_eq_ok_iff.mp h
  split
  · next hnil =>
      refine List.forall₂_same.mpr fun r hr => .spared ?_
      exact (picked_eq_nil_iff hsuits).mp hnil r hr
  · refine List.forall₂_map_right_iff.mpr (List.forall₂_same.mpr fun r hr => ?_)
    have hmeaning := Condition.holds_eq_meaning hsuits r.cells
    by_cases hid : r.id ∈ t.picked c
    · rw [if_pos hid]
      rw [(mem_picked_iff_of_nodup hn hr).mp hid] at hmeaning
      refine .assigned hmeaning rfl (length_assign changes r.cells) fun i column hi => ?_
      have hlt : i < r.cells.length := by
        rw [hw.width r hr]
        exact (List.getElem?_eq_some_iff.mp hi).1
      rw [getElem?_assign, lastChange_assigned hw.distinct hassigned hi,
        List.getElem?_eq_getElem hlt]
      cases lastAssigned assignments column <;> rfl
    · rw [if_neg hid]
      rw [mem_picked_iff_of_nodup hn hr, Bool.not_eq_true] at hid
      rw [hid] at hmeaning
      exact .spared hmeaning

end Table

/-! ### Disks -/

section update
variable {root : Text} {d : Disk} {session : Session} {name : Text} {assignments : List Assignment}
  {c : Condition}

/-- Literals that are parsed have texts that fit into a cell. -/
theorem wellFormed_of_parsed_update {input : Text}
    (hp : Command.parse input = .ok (.update name assignments c)) {t t' : Table} (hw : t.WellFormed)
    (h : t.update assignments c = .ok (some t')) : t'.WellFormed :=
  (Table.wellFormed_of_revises hw (Command.proper_of_parse hp) (.update h)).1

/-- **What an update changes.**  In every state that a run reaches, an update that succeeds leaves a table
with the same columns and with rows of the same ids.  As long as no counter reaches the largest id, each
row that satisfied the condition before has the texts assigned last, and every other cell is as it was. -/
theorem rows_of_update (h : d.list (.ofText root) = .ok []) (events : List Event) {call : Call}
    (hp : Command.parse call.input = .ok (.update name assignments c))
    (hok : okStatus <+: (call.onDisk root session ((World.start d).after root events).store).response) :
    ∃ stored t t',
      (call.engine root).openTable session ((World.start d).after root events).store name =
        .ok (stored, t) ∧
      (∀ listings, (Engine.below root listings).openTable session
        (call.onDisk root session ((World.start d).after root events).store).store name =
          .ok (stored, t')) ∧
      t'.columns = t.columns ∧ t'.rows.map Row.id = t.rows.map Row.id ∧
      ((World.start d).Unexhausted root events →
        List.Forall₂ (Table.Updates t.columns assignments c) t.rows t'.rows) := by
  have hm := Disk.Mirrored.after h events
  have hrevision : (Command.update name assignments c).revision? =
      some (name, fun t => t.update assignments c) := rfl
  obtain ⟨result, hok⟩ := Outcome.okay_iff.mp hok
  unfold Call.onDisk
  change ((call.engine root).runText _ _ _).result = _ at hok
  rw [Call.runText_of_parse hp] at hok ⊢
  change ∃ stored t t', (Engine.below root call.listings).openTable session _ name = _ ∧ _
  cases ho : (Engine.below root call.listings).openTable session
      ((World.start d).after root events).store name with
  | error why =>
      rw [Engine.run_of_openTable_error hrevision ho] at hok
      cases hok
  | ok x =>
      obtain ⟨stored, t⟩ := x
      rw [Engine.run_of_openTable hrevision ho] at hok ⊢
      cases hupdate : t.update assignments c with
      | error why =>
          rw [hupdate] at hok
          cases hok
      | ok revised =>
          rw [hupdate] at hok
          have hw := hm.wellFormed ho
          have hopen := hm.openTable_revise ho
            (fun t' ht => wellFormed_of_parsed_update hp hw (ht ▸ hupdate)) hok
          obtain ⟨hcolumns, hids⟩ := Table.ids_of_update hupdate
          refine ⟨stored, t, revised.getD t, rfl, hopen, hcolumns, hids, fun hu => ?_⟩
          exact Table.updates_of_update hw (nodup_ids_after h hu ho) hupdate

/-- An update of a mirror that is run once more, with whatever listings, has the same outcome. -/
theorem Disk.Mirrored.run_update_again (hm : d.Mirrored root) {input : Text}
    (hp : Command.parse input = .ok (.update name assignments c)) (listings listings' : Nat → Listing)
    (session : Session) {o : Outcome}
    (ho : (Engine.below root listings).run session d (.update name assignments c) = o) :
    (Engine.below root listings').run o.session o.disk (.update name assignments c) = o := by
  have hrevision : (Command.update name assignments c).revision? =
      some (name, fun t => t.update assignments c) := rfl
  have hsession := Engine.session_run_of_revision hrevision (.below root listings) session d
  -- where the disk stays as it is, the same command is run on the same disk
  have hagain : o.disk = d →
      (Engine.below root listings').run o.session o.disk (.update name assignments c) = o := by
    intro hdisk
    rw [hdisk, ← ho, hsession]
    exact hm.run_eq listings' listings session hrevision
  cases hopen : (Engine.below root listings).openTable session d name with
  | error why =>
      rw [Engine.run_of_openTable_error hrevision hopen] at ho
      exact hagain (ho ▸ rfl)
  | ok x =>
      obtain ⟨stored, t⟩ := x
      rw [Engine.run_of_openTable hrevision hopen] at ho
      rcases hupdate : t.update assignments c with why | _ | t'
      · rw [hupdate] at ho
        exact hagain (ho ▸ rfl)
      · rw [hupdate] at ho
        exact hagain (ho ▸ rfl)
      · rw [hupdate] at ho
        rcases hm.storeTable_cases hopen with hfull | hroom
        · obtain ⟨why, hs⟩ := hfull t'
          rw [Disk.revise_of_error hs] at ho
          exact hagain (ho ▸ rfl)
        · have hw := wellFormed_of_parsed_update hp (hm.wellFormed hopen) hupdate
          obtain ⟨d', hs, -, hopen', hstore⟩ := hroom t' hw
          rw [Disk.revise_of_ok hs] at ho
          subst ho
          rw [Engine.run_of_openTable hrevision (hopen' listings')]
          rcases Table.update_update hupdate with hnone | hsome
          · rw [hnone]
            rfl
          · rw [hsome, Disk.revise_of_ok ((hstore t').trans hs)]

/-- **Updates are idempotent.**  In every state that a run reaches, an update that is called for a second
time, with whatever listings of directories, has the same response as before and changes nothing. -/
theorem onDisk_update_update (h : d.list (.ofText root) = .ok []) (events : List Event)
    {call call' : Call} (hinput : call'.input = call.input)
    (hp : Command.parse call.input = .ok (.update name assignments c)) (session : Session)
    {first : Reply Disk}
    (hfirst : call.onDisk root session ((World.start d).after root events).store = first) :
    (call'.onDisk root first.session first.store).response = first.response ∧
      (call'.onDisk root first.session first.store).session = first.session ∧
      (call'.onDisk root first.session first.store).store = first.store := by
  subst hfirst
  have hagain :=
    (Disk.Mirrored.after h events).run_update_again hp call.listings call'.listings session rfl
  unfold Call.onDisk
  rw [Call.runText_of_parse hp, Call.runText_of_parse (hinput ▸ hp)]
  dsimp only
  rw [hagain]
  exact ⟨rfl, rfl, rfl⟩

end update

/-- Assigns to a column of the condition, and to it twice. -/
def twiceAssigned : Call := .of 1 "UPDATE T SET X = 'c', n = 5, x = 'd' WHERE x == 'b';"

/-- The assignments of that call. -/
def twiceAssignments : List Assignment :=
  [⟨"X".toList, .quoted "c".toList⟩, ⟨"n".toList, .number "5".toList⟩, ⟨"x".toList, .quoted "d".toList⟩]

/-- The condition of that call. -/
def isB : Condition := .compare "x".toList .equal (.quoted "b".toList)

theorem parse_twiceAssigned :
    Command.parse twiceAssigned.input = .ok (.update "T".toList twiceAssignments isB) := by
  decide +kernel

/-- The reply to that call. -/
def twiceAssignedReply : Reply Disk :=
  twiceAssigned.onDisk "data".toList ⟨some "shop".toList⟩ filledWorld.store

/-- The call succeeds, and these are the bytes that it leaves. -/
theorem look_twiceAssignedReply :
    okStatus <+: twiceAssignedReply.response ∧
      twiceAssignedReply.store.look ["data".toList, "shop".toList, "t.tab".toList] =
        some (some (Text.toBytes "id\tx\tn\n1\ta\t1\n2\td\t5\n3\td\t5\n".toList)) ∧
      (World.start exampleDisk).Unexhausted "data".toList fillingRun := by
  decide +kernel

theorem rows_of_update_twiceAssigned :
    ∃ stored t t',
      keptEngine.openTable ⟨some "shop".toList⟩ filledWorld.store "T".toList = .ok (stored, t) ∧
        keptEngine.openTable ⟨some "shop".toList⟩ twiceAssignedReply.store "T".toList =
          .ok (stored, t') ∧
        t'.rows.map Row.id = t.rows.map Row.id ∧
        List.Forall₂ (Table.Updates t.columns twiceAssignments isB) t.rows t'.rows := by
  have hempty : exampleDisk.list (.ofText "data".toList) = .ok [] := rfl
  obtain ⟨hreply, -, hu⟩ := look_twiceAssignedReply
  have hok : okStatus <+:
      (twiceAssigned.onDisk "data".toList ⟨some "shop".toList⟩ filledWorld.store).response := hreply
  obtain ⟨stored, t, t', ho, ho', -, hids, hrows⟩ :=
    rows_of_update hempty fillingRun parse_twiceAssigned hok
  exact ⟨stored, t, t', ho, ho' fun _ => .kept, hids, hrows hu⟩

/-- The second update finds no row that satisfies the condition, for the first one overwrote them. -/
theorem onDisk_update_update_twiceAssigned :
    twiceAssignedReply.store.look ["data".toList, "shop".toList, "t.tab".toList] =
        some (some (Text.toBytes "id\tx\tn\n1\ta\t1\n2\td\t5\n3\td\t5\n".toList)) ∧
      (twiceAssigned.onDisk "data".toList twiceAssignedReply.session twiceAssignedReply.store).store =
        twiceAssignedReply.store := by
  have hempty : exampleDisk.list (.ofText "data".toList) = .ok [] := rfl
  have hfirst : twiceAssigned.onDisk "data".toList ⟨some "shop".toList⟩ filledWorld.store =
      twiceAssignedReply := rfl
  refine ⟨look_twiceAssignedReply.2.1, ?_⟩
  exact (onDisk_update_update hempty fillingRun rfl parse_twiceAssigned _ hfirst).2.2

end FlatDb
