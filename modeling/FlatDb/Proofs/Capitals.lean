import FlatDb.Proofs.Effects
import FlatDb.Proofs.Listings
import FlatDb.Proofs.Responses
import Mathlib

/-! # Capital letters

Names are stored as they were first spelled and found by every other spelling, so it makes no
difference which one a command uses for what exists already.

* `Command.folded` is a command with the letters A to Z of its names in lower case; literals stay as
  they are.  Commands about what exists (`Command.aboutExisting`) make no new name.
* `Alike` relates the outcomes of two such commands: the same value, or the same kind of error about
  names that are the same up to case.
* Each step of planning is alike before and after folding (`alike_plan`), on all catalogs that find the
  same by all spellings of a name (`Catalog.SameAnswers`).
* `run_eq_of_folded_eq`: **on a disk where no two names of a directory differ only by case, commands
  that differ only in the spelling of names have the same outcome.** -/

namespace FlatDb

open Text Node

/-! ### Folding the names of a command -/

theorem Text.foldCase_foldCase (t : Text) : foldCase (foldCase t) = foldCase t := by
  simp [foldCase]

@[simp] theorem Text.sameName_foldCase_left (a b : Text) :
    sameName (foldCase a) b = sameName a b := by
  simp [sameName, foldCase_foldCase]

@[simp] theorem Text.sameName_foldCase_right (a b : Text) :
    sameName a (foldCase b) = sameName a b := by
  simp [sameName, foldCase_foldCase]

/-- A condition with its columns in lower case. -/
def Condition.folded : Condition → Condition
  | compare column op value => compare column.foldCase op value
  | both left right => both left.folded right.folded
  | either left right => either left.folded right.folded

/-- The items of a selection in lower case. -/
def Items.folded : Items → Items
  | all => all
  | listed columns => listed (columns.map foldCase)

/-- An assignment with its column in lower case. -/
def Assignment.folded (a : Assignment) : Assignment := ⟨a.column.foldCase, a.value⟩

/-- A command with the names of databases, tables and columns in lower case. -/
def Command.folded : Command → Command
  | use database => use database.foldCase
  | createDatabase database => createDatabase database.foldCase
  | dropDatabase database => dropDatabase database.foldCase
  | createTable table columns => createTable table.foldCase (columns.map foldCase)
  | dropTable table => dropTable table.foldCase
  | alter table alteration column => alter table.foldCase alteration column.foldCase
  | insert table values => insert table.foldCase values
  | select items table filter => select items.folded table.foldCase (filter.map Condition.folded)
  | update table assignments filter =>
    update table.foldCase (assignments.map Assignment.folded) filter.folded
  | delete table filter => delete table.foldCase filter.folded
  | join left right leftKey rightKey =>
    join left.foldCase right.foldCase leftKey.foldCase rightKey.foldCase

/-- The commands about databases, tables and columns that exist: all but those that make a new one. -/
def Command.aboutExisting : Command → Bool
  | createDatabase _ | createTable _ _ | alter _ .add _ => false
  | _ => true

theorem Command.aboutExisting_folded (c : Command) :
    c.folded.aboutExisting = c.aboutExisting := by
  cases c with
  | alter table alteration column => cases alteration <;> rfl
  | _ => rfl

/-- An error with the name it quotes in lower case. -/
def Error.folded : Error → Error
  | databaseNotFound name => databaseNotFound name.foldCase
  | databaseExists name => databaseExists name.foldCase
  | tableNotFound name => tableNotFound name.foldCase
  | tableExists name => tableExists name.foldCase
  | columnNotFound name => columnNotFound name.foldCase
  | columnExists name => columnExists name.foldCase
  | protectedColumn name => protectedColumn name.foldCase
  | why => why

/-! ### The same outcome up to the spelling of names -/

/-- Equal values, or the same kind of error about names that are the same up to case. -/
inductive Alike {α : Type} : Except Error α → Except Error α → Prop where
  | ok (a : α) : Alike (.ok a) (.ok a)
  | error {why why' : Error} (h : why.folded = why'.folded) : Alike (.error why) (.error why')

namespace Alike

variable {α β : Type} {x y z : Except Error α}

theorem refl (x : Except Error α) : Alike x x := by
  cases x with
  | ok a => exact .ok a
  | error why => exact .error rfl

theorem symm (h : Alike x y) : Alike y x := by
  cases h with
  | ok a => exact .ok a
  | error h => exact .error h.symm

theorem trans (hxy : Alike x y) (hyz : Alike y z) : Alike x z := by
  cases hxy with
  | ok a => exact hyz
  | error h =>
      cases hyz with
      | error h' => exact .error (h.trans h')

theorem eq_or (h : Alike x y) : (∃ a, x = .ok a ∧ y = .ok a) ∨
    ∃ why why', x = .error why ∧ y = .error why' ∧ why.folded = why'.folded := by
  cases h with
  | ok a => exact .inl ⟨a, rfl, rfl⟩
  | error h => exact .inr ⟨_, _, rfl, rfl, h⟩

/-- Steps that are alike, one after the other. -/
theorem bind {k k' : α → Except Error β} (h : Alike x y)
    (hk : ∀ a, x = .ok a → Alike (k a) (k' a)) : Alike (x >>= k) (y >>= k') := by
  cases h with
  | ok a => exact hk a rfl
  | error h => exact .error h

theorem map (f : α → β) (h : Alike x y) : Alike (x.map f) (y.map f) := by
  cases h with
  | ok a => exact .ok (f a)
  | error h => exact .error h

/-- One step with two ways to go on. -/
theorem congr_bind {k k' : α → Except Error β} (hk : ∀ a, x = .ok a → Alike (k a) (k' a)) :
    Alike (x >>= k) (x >>= k') := (refl x).bind hk

end Alike

/-! ### Columns and conditions -/

section columns
variable (header : List Text)

theorem alike_requireColumn (name : Text) :
    Alike (requireColumn header name) (requireColumn header name.foldCase) := by
  have hindex : columnIndex? header name.foldCase = columnIndex? header name := by
    simp [columnIndex?]
  unfold requireColumn
  rw [hindex]
  cases columnIndex? header name with
  | some i => exact .ok i
  | none => exact .error (by simp [Error.folded, foldCase_foldCase])

theorem alike_requireColumns (names : List Text) :
    Alike (requireColumns header names) (requireColumns header (names.map foldCase)) := by
  induction names with
  | nil => exact .ok []
  | cons name more ih =>
      rw [List.map_cons, requireColumns, requireColumns]
      apply (alike_requireColumn header name).bind
      intro i _
      apply ih.bind
      exact fun rest _ => .ok (i :: rest)

theorem alike_refuseId (column : Text) :
    Alike (refuseId column) (refuseId column.foldCase) := by
  unfold refuseId
  rw [sameName_foldCase_left]
  split
  · exact .error (by simp [Error.folded, foldCase_foldCase])
  · exact .ok ()

theorem Condition.columns_folded (c : Condition) : c.folded.columns = c.columns.map foldCase := by
  induction c with
  | compare column op value => rfl
  | both left right hl hr => simp [folded, columns, hl, hr]
  | either left right hl hr => simp [folded, columns, hl, hr]

theorem alike_holds (cells : List Text) (c : Condition) :
    Alike (c.holds header cells) (c.folded.holds header cells) := by
  induction c with
  | compare column op value =>
      apply (alike_requireColumn header column).bind
      exact fun i _ => .ok _
  | both left right hl hr =>
      apply hl.bind
      intro b _
      cases b with
      | true => exact hr
      | false => exact .ok false
  | either left right hl hr =>
      apply hl.bind
      intro b _
      cases b with
      | true => exact .ok true
      | false => exact hr

theorem alike_check (c : Condition) : Alike (c.check header) (c.folded.check header) := by
  unfold Condition.check
  rw [c.columns_folded]
  exact (alike_requireColumns header c.columns).map _

theorem alike_matching (c : Condition) (rows : List Row) :
    Alike (c.matching header rows) (c.folded.matching header rows) := by
  induction rows with
  | nil => exact .ok []
  | cons r rows ih =>
      apply (alike_holds header r.cells c).bind
      intro keep _
      apply ih.bind
      exact fun rest _ => .ok _

end columns

/-! ### Commands on tables -/

namespace Table

variable (t : Table)

theorem alike_dropColumn (column : Text) :
    Alike (t.alter .drop column) (t.alter .drop column.foldCase) := by
  apply (alike_refuseId column).bind
  intro _ _
  apply (alike_requireColumn t.columns column).bind
  exact fun i _ => .ok _

theorem alike_assigned (columns : List Text) (assignments : List Assignment) :
    Alike (assigned columns assignments) (assigned columns (assignments.map Assignment.folded)) := by
  induction assignments with
  | nil => exact .ok []
  | cons a more ih =>
      apply (alike_refuseId a.column).bind
      intro _ _
      apply (alike_requireColumn columns a.column).bind
      intro i _
      apply ih.bind
      exact fun rest _ => .ok _

theorem alike_matchingIds (filter : Condition) :
    Alike (t.matchingIds filter) (t.matchingIds filter.folded) := by
  apply (alike_check t.columns filter).bind
  intro _ _
  apply (alike_matching t.columns filter t.rows).bind
  exact fun rows _ => .ok _

theorem alike_update (assignments : List Assignment) (filter : Condition) :
    Alike (t.update assignments filter)
      (t.update (assignments.map Assignment.folded) filter.folded) := by
  apply (alike_assigned t.columns assignments).bind
  intro changes _
  apply (t.alike_matchingIds filter).bind
  exact fun ids _ => .refl _

theorem alike_delete (filter : Condition) : Alike (t.delete filter) (t.delete filter.folded) := by
  apply (t.alike_matchingIds filter).bind
  exact fun ids _ => .refl _

theorem alike_positions (items : Items) : Alike (t.positions items) (t.positions items.folded) := by
  cases items with
  | all => exact .refl _
  | listed columns => exact alike_requireColumns t.columns columns

theorem alike_selectedRows (filter : Option Condition) :
    Alike (t.selectedRows filter) (t.selectedRows (filter.map Condition.folded)) := by
  cases filter with
  | none => exact .refl _
  | some c =>
      apply (alike_check t.columns c).bind
      exact fun _ _ => alike_matching t.columns c t.rows

theorem alike_select (items : Items) (filter : Option Condition) :
    Alike (t.select items filter) (t.select items.folded (filter.map Condition.folded)) := by
  apply (t.alike_positions items).bind
  intro positions _
  apply (t.alike_selectedRows filter).bind
  exact fun rows _ => .ok _

theorem alike_join (leftName : Text) (left : Table) (rightName : Text) (right : Table)
    (leftColumn rightColumn : Text) :
    Alike (join leftName left rightName right leftColumn rightColumn)
      (join leftName left rightName right leftColumn.foldCase rightColumn.foldCase) := by
  apply (alike_requireColumn left.columns leftColumn).bind
  intro leftKey _
  apply (alike_requireColumn right.columns rightColumn).bind
  exact fun rightKey _ => .ok _

end Table

/-! ### Plans -/

/-- The session after a database was dropped does not depend on the spelling either. -/
theorem Session.leave_foldCase (session : Session) (name : Text) :
    session.leave name.foldCase = session.leave name := by
  unfold leave
  cases session.database with
  | none => rfl
  | some selected => simp

/-- Two catalogs that find the same by all spellings of a name. -/
structure Catalog.SameAnswers {κ : Type} (catalog other : Catalog κ) : Prop where
  database? : ∀ {name name' : Text}, sameName name name' = true →
    catalog.database? name = other.database? name'
  table? : ∀ {selected : Text} {database : Stored κ}, catalog.database? selected = some database →
    ∀ (lookup : Nat) {name name' : Text}, sameName name name' = true →
      catalog.table? lookup database.key name = other.table? lookup database.key name'
  load : ∀ key, catalog.load key = other.load key
  counters : catalog.counters = other.counters

section plans
variable {κ : Type} {catalog other : Catalog κ} (h : catalog.SameAnswers other)
include h

theorem alike_database (name : Text) :
    Alike (catalog.database name) (other.database name.foldCase) := by
  have hfound : catalog.database? name = other.database? name.foldCase := by
    apply h.database?
    rw [sameName_foldCase_right, sameName_refl]
  unfold Catalog.database
  rw [hfound]
  cases other.database? name.foldCase with
  | some stored => exact .ok stored
  | none => exact .error (by simp [Error.folded, foldCase_foldCase])

theorem selected_eq (selected : Option Text) : catalog.selected selected = other.selected selected := by
  cases selected with
  | none => rfl
  | some name =>
      show catalog.database name = other.database name
      unfold Catalog.database
      rw [h.database? (sameName_refl name)]

section tables
variable {session : Option Text} {database : Stored κ} (hd : catalog.selected session = .ok database)
include hd

theorem alike_table (lookup : Nat) (name : Text) :
    Alike (catalog.table lookup database name) (other.table lookup database name.foldCase) := by
  obtain ⟨selected, -, hd⟩ := Catalog.selected_eq_ok_iff.mp hd
  have hfound : catalog.table? lookup database.key name =
      other.table? lookup database.key name.foldCase := by
    apply h.table? hd
    rw [sameName_foldCase_right, sameName_refl]
  unfold Catalog.table
  rw [hfound]
  rcases other.table? lookup database.key name.foldCase with why | _ | stored
  · exact .refl _
  · exact .error (by simp [Error.folded, foldCase_foldCase])
  · exact .ok stored

theorem alike_loadTable (lookup : Nat) (name : Text) :
    Alike (catalog.loadTable lookup database name)
      (other.loadTable lookup database name.foldCase) := by
  apply (alike_table h hd lookup name).bind
  intro stored _
  rw [h.load]
  exact .refl _

end tables

theorem alike_planRevision (session : Session) (name : Text)
    {f f' : Table → Except Error (Option Table)} (hf : ∀ t, Alike (f t) (f' t)) :
    Alike (Command.planRevision catalog session name f)
      (Command.planRevision other session name.foldCase f') := by
  unfold Command.planRevision
  rw [← selected_eq h]
  apply Alike.congr_bind
  intro database hd
  apply (alike_loadTable h hd 0 name).bind
  rintro ⟨stored, t⟩ _
  apply (hf t).bind
  exact fun revised _ => .ok _

theorem alike_planInsert (session : Session) (name : Text) (values : List Literal) :
    Alike (Command.planInsert catalog session name values)
      (Command.planInsert other session name.foldCase values) := by
  unfold Command.planInsert
  rw [← selected_eq h, ← h.counters]
  apply Alike.congr_bind
  intro database hd
  apply (alike_loadTable h hd 0 name).bind
  exact fun _ _ => .refl _

theorem alike_planSelect (session : Session) (items : Items) (name : Text)
    (filter : Option Condition) :
    Alike (Command.planSelect catalog session items name filter)
      (Command.planSelect other session items.folded name.foldCase
        (filter.map Condition.folded)) := by
  unfold Command.planSelect
  rw [← selected_eq h]
  apply Alike.congr_bind
  intro database hd
  apply (alike_loadTable h hd 0 name).bind
  rintro ⟨_, t⟩ _
  apply (t.alike_select items filter).bind
  exact fun result _ => .ok _

theorem alike_planJoin (session : Session) (left right leftKey rightKey : Text) :
    Alike (Command.planJoin catalog session left right leftKey rightKey)
      (Command.planJoin other session left.foldCase right.foldCase leftKey.foldCase
        rightKey.foldCase) := by
  unfold Command.planJoin
  rw [← selected_eq h]
  apply Alike.congr_bind
  intro database hd
  apply (alike_loadTable h hd 0 left).bind
  rintro ⟨leftStored, leftTable⟩ _
  apply (alike_loadTable h hd 1 right).bind
  rintro ⟨rightStored, rightTable⟩ _
  apply (Table.alike_join leftStored.name leftTable rightStored.name rightTable _ _).bind
  exact fun result _ => .ok _

/-- **A command about what exists is planned alike with its names in lower case.** -/
theorem alike_plan (session : Session) {c : Command} (hc : c.aboutExisting = true) :
    Alike (c.plan catalog session) (c.folded.plan other session) := by
  cases c with
  | createDatabase name => cases hc
  | createTable name columns => cases hc
  | use name =>
      apply (alike_database h name).bind
      exact fun database _ => .ok _
  | dropDatabase name =>
      apply (alike_database h name).bind
      intro database _
      rw [Session.leave_foldCase]
      exact .ok _
  | dropTable name =>
      show Alike (catalog.selected session.database >>= _) (other.selected session.database >>= _)
      rw [← selected_eq h]
      apply Alike.congr_bind
      intro database hd
      apply (alike_table h hd 0 name).bind
      exact fun stored _ => .ok _
  | alter name alteration column =>
      cases alteration with
      | add => cases hc
      | drop =>
          rw [Command.folded, Command.plan, Command.plan]
          apply alike_planRevision h
          exact fun t => (t.alike_dropColumn column).map some
  | insert name values => exact alike_planInsert h session name values
  | select items name filter => exact alike_planSelect h session items name filter
  | update name assignments filter =>
      rw [Command.folded, Command.plan, Command.plan]
      apply alike_planRevision h
      exact fun t => t.alike_update assignments filter
  | delete name filter =>
      rw [Command.folded, Command.plan, Command.plan]
      apply alike_planRevision h
      exact fun t => t.alike_delete filter
  | join left right leftKey rightKey =>
      exact alike_planJoin h session left right leftKey rightKey

end plans

/-! ### Disks -/

namespace Disk

/-- No two names of one directory are the same up to case, neither in the root nor in the directories
right below it. -/
structure NamesApart (d : Disk) (root : Path) : Prop where
  top : ∀ {entries : List (Text × Node)}, d.list root = .ok entries → Apart (entries.map Prod.fst)
  below : ∀ {entries : List (Text × Node)}, d.list root = .ok entries →
    ∀ {name : Text} {files : List (Text × Node)}, (name, .directory files) ∈ entries →
      Apart (files.map Prod.fst)

theorem foldCase_of_isTabFile {e : Text × Node} (h : isTabFile e = true) :
    foldCase e.1 = foldCase (Path.stem e.1) ++ '.' :: foldCase Path.tableExtension := by
  simp only [isTabFile, Bool.and_eq_true, Option.any_eq_true] at h
  obtain ⟨-, extension, hx, htab⟩ := h
  have hname := congrArg foldCase (Path.eq_of_extension? hx)
  have hdot : '.'.toLower = '.' := rfl
  rw [← sameName_iff.mp htab]
  simpa [foldCase, hdot] using hname

theorem NamesApart.unambiguous {d : Disk} {root : Path} (h : d.NamesApart root) :
    d.Unambiguous root where
  databases hl := (h.top hl).sublist (List.filter_sublist.map _)
  tables hl name files hm := by
    have hapart : (files.filter isTabFile).Pairwise fun a b => sameName a.1 b.1 = false :=
      (List.pairwise_map.mp (h.below hl hm)).sublist List.filter_sublist
    apply List.pairwise_map.mpr
    apply hapart.imp_of_mem
    intro a b ha hb hne
    have hfa := foldCase_of_isTabFile (List.mem_filter.mp ha).2
    have hfb := foldCase_of_isTabFile (List.mem_filter.mp hb).2
    -- files with one stem have one name, since the extension is the same up to case
    by_contra hstem
    have hstems := sameName_iff.mp (Bool.not_eq_false _ ▸ hstem)
    rw [hstems, ← hfb] at hfa
    rw [sameName_iff.mpr hfa] at hne
    cases hne

theorem isDatabase_congr {name name' : Text} (h : sameName name name' = true) :
    isDatabase name = isDatabase name' := by
  funext e
  obtain ⟨entry, _ | _⟩ := e
  · rfl
  · simp [isDatabase, sameName, sameName_iff.mp h]

theorem isTable_congr (dir : Path) {name name' : Text} (h : sameName name name' = true) :
    isTable dir name = isTable dir name' := by
  funext e
  obtain ⟨entry, _ | _⟩ := e
  · simp [isTable, sameName, sameName_iff.mp h]
  · rfl

theorem findDatabase_congr (d : Disk) (order : Order) (root : Path) {name name' : Text}
    (h : sameName name name' = true) :
    d.findDatabase order root name = d.findDatabase order root name' := by
  rw [findDatabase, findDatabase, isDatabase_congr h]

theorem findTable_congr (d : Disk) (order : Order) (dir : Path) {name name' : Text}
    (h : sameName name name' = true) :
    d.findTable order dir name = d.findTable order dir name' := by
  rw [findTable, findTable, isTable_congr dir h]

theorem Unambiguous.sameAnswers {d : Disk} {root : Path} (h : d.Unambiguous root)
    (listings listings' : Nat → Listing) :
    (d.catalog (fun n => (listings n).order) root).SameAnswers
      (d.catalog (fun n => (listings' n).order) root) where
  database? hn := by
    show d.findDatabase _ root _ = d.findDatabase _ root _
    rw [findDatabase_congr d _ root hn]
    exact h.findDatabase_eq (listings 0) (listings' 0) _
  table? hd lookup name name' hn := by
    obtain ⟨entries, below, hl, hm, -, hkey⟩ := exists_of_findDatabase (l := listings 0) hd
    show d.findTable _ _ name = d.findTable _ _ name'
    rw [hkey, findTable_congr d _ _ hn]
    exact h.findTable_eq (listings (lookup + 1)) (listings' (lookup + 1)) hl hm name'
  load _ := rfl
  counters := rfl

end Disk

/-! ### Runs -/

/-- Engines that plan two commands alike carry them out alike. -/
theorem Engine.run_alike (e e' : Engine) (hroot : e.root = e'.root) {session : Session} {d : Disk}
    {c c' : Command}
    (h : Alike (c.plan (d.catalog e.order e.root) session)
      (c'.plan (d.catalog e'.order e'.root) session)) :
    (e.run session d c).disk = (e'.run session d c').disk ∧
      (e.run session d c).session = (e'.run session d c').session ∧
      Alike (e.run session d c).result (e'.run session d c').result := by
  unfold run perform
  rw [hroot] at h ⊢
  generalize c.plan (d.catalog e.order e'.root) session = plan at h
  generalize c'.plan (d.catalog e'.order e'.root) session = plan' at h
  cases h with
  | ok p => exact ⟨rfl, rfl, .refl _⟩
  | error h => exact ⟨rfl, rfl, .error h⟩

/-- **Capitalisation of names does not matter for what exists.**  Where no two names of a directory
differ only by case, two commands about what exists that are the same but for the case of the names in
them have the same outcome, in whichever orders directories are listed: the same disk, the same
session, and either the same result or the same kind of error about the same name up to case, which
leaves the session as it was. -/
theorem run_eq_of_folded_eq {d : Disk} {root : Path} (h : d.NamesApart root) (session : Session)
    {c c' : Command} (hc : c.aboutExisting = true) (hcc : c.folded = c'.folded)
    (listings listings' : Nat → Listing) :
    let o := Engine.run ⟨root, fun n => (listings n).order⟩ session d c
    let o' := Engine.run ⟨root, fun n => (listings' n).order⟩ session d c'
    o.disk = o'.disk ∧ o.session = o'.session ∧
      ((∃ result, o.result = .ok result ∧ o'.result = .ok result) ∨
        ∃ why why', o.result = .error why ∧ o'.result = .error why' ∧ why.folded = why'.folded ∧
          o.session = session) := by
  have hc' : c'.aboutExisting = true := by
    rw [← c'.aboutExisting_folded, ← hcc, c.aboutExisting_folded, hc]
  -- both commands are compared with the one they have in common, planned as the second is
  have hplan := alike_plan (h.unambiguous.sameAnswers listings listings') session hc
  have hplan' := alike_plan (h.unambiguous.sameAnswers listings' listings') session hc'
  rw [hcc] at hplan
  obtain ⟨hdisk, hsession, hresult⟩ := Engine.run_alike ⟨root, fun n => (listings n).order⟩
    ⟨root, fun n => (listings' n).order⟩ rfl (hplan.trans hplan'.symm)
  refine ⟨hdisk, hsession, ?_⟩
  rcases hresult.eq_or with hok | ⟨why, why', hwhy, hwhy', hfolded⟩
  · exact .inl hok
  · exact .inr ⟨why, why', hwhy, hwhy', hfolded, Engine.session_of_error hwhy⟩

/-- A selection from the table of `oddDisk`, with its names spelled in two ways. -/
def spelledSelect (table column key : String) : Command :=
  .select (.listed [column.toList]) table.toList
    (some (.compare key.toList .equal (.number "7".toList)))

theorem namesApart_oddDisk : oddDisk.NamesApart (.ofText "data".toList) := by
  constructor
  · intro entries hl
    cases hl
    unfold Apart
    decide
  · intro entries hl name files hm
    cases hl
    unfold Apart
    rcases List.mem_cons.mp hm with hshop | hm
    · cases hshop
      decide
    · rcases List.mem_cons.mp hm with hgit | hm
      · cases hgit
        decide
      · cases hm

theorem run_eq_of_folded_eq_oddDisk :
    let answer (c : Command) (l : Listing) :=
      (Engine.run ⟨.ofText "data".toList, fun _ => l.order⟩ ⟨some "sHOP".toList⟩ oddDisk c).result
    oddDisk.NamesApart (.ofText "data".toList) ∧
      (spelledSelect "t" "X" "iD").aboutExisting = true ∧
      (spelledSelect "t" "X" "iD").folded = (spelledSelect "T" "x" "ID").folded ∧
      answer (spelledSelect "t" "X" "iD") .kept = .ok (some ⟨["x".toList], [["a".toList]]⟩) ∧
      answer (spelledSelect "T" "x" "ID") .backwards = .ok (some ⟨["x".toList], [["a".toList]]⟩) := by
  intro answer
  have hfolded : (spelledSelect "t" "X" "iD").folded = (spelledSelect "T" "x" "ID").folded := by
    decide
  have hfirst : answer (spelledSelect "t" "X" "iD") .kept =
      .ok (some ⟨["x".toList], [["a".toList]]⟩) := by
    decide +kernel
  obtain ⟨-, -, hresult⟩ := run_eq_of_folded_eq namesApart_oddDisk ⟨some "sHOP".toList⟩ rfl hfolded
    (fun _ => .kept) (fun _ => .backwards)
  refine ⟨namesApart_oddDisk, rfl, hfolded, hfirst, ?_⟩
  rcases hresult with ⟨result, hok, hok'⟩ | ⟨why, -, hwhy, -⟩
  · rw [← hfirst]
    exact hok'.trans hok.symm
  · rw [show answer _ _ = _ from hwhy] at hfirst
    cases hfirst

end FlatDb
