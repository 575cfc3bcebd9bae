import FlatDb.Proofs.OneLine
import FlatDb.Proofs.Plans
import FlatDb.Proofs.Readable

/-! # Responses line by line

Whatever stands on a disk, a client is shown a status and, for a result set, one line per row.

* Nothing is asked of the disk: what is found by a name has that name up to case, and what is read is
  cut into lines (`Disk.plain_catalog`).  Paths are below the root, which may hold any character.
* `Command.returns_plan`: **plans are tidy**, and a command without a plan is refused with a plain error.
* `Engine.tidy_runText`: **so are the outcomes of all texts**. -/

namespace FlatDb

open Text

/-! ### Plans -/

/-- What was found has a name, and a path that is plain but for the root. -/
structure Stored.Plain (root : Text) (stored : Stored Path) : Prop where
  name : IsName stored.name
  path : stored.key.text.PlainBut root

/-- A catalog, asked about names, answers with names, with paths and errors that are plain but for the
root, and with tidy tables. -/
structure Catalog.Plain (root : Text) (catalog : Catalog Path) : Prop where
  database? : ∀ {name : Text} {stored : Stored Path}, IsName name →
    catalog.database? name = some stored → stored.Plain root
  table? : ∀ {dir : Path} {name : Text}, dir.text.PlainBut root → IsName name → ∀ lookup : Nat,
    Returns root (fun found => ∀ stored, found = some stored → stored.Plain root)
      (Error.ofStorage (catalog.table? lookup dir name))
  vacant : ∀ {dir : Path} {name : Text}, dir.text.PlainBut root → IsName name →
    (catalog.vacant dir name).text.PlainBut root
  load : ∀ {p : Path}, p.text.PlainBut root → Returns root Table.Tidy (Error.ofStorage (catalog.load p))
  counters : Returns root (fun _ => True) (Error.ofStorage catalog.counters)

/-- The selected database, if there is one, has a name. -/
def Session.Named (session : Session) : Prop := ∀ name, session.database = some name → IsName name

theorem Session.named_new : new.Named := fun _ h => nomatch h

theorem Session.Named.leave {session : Session} (h : session.Named) (name : Text) :
    (session.leave name).Named := by
  unfold Session.leave
  split
  · split
    · exact named_new
    · exact h
  · exact h

/-- A table is stored at a path that is plain but for the root. -/
def Change.Plain (root : Text) : Change Path → Prop
  | storeTable p _ => p.text.PlainBut root
  | _ => True

/-- The session has a name for its database, the result set is tidy, and paths are plain but for the
root. -/
structure Plan.Tidy (root : Text) (p : Plan Path) : Prop where
  session : p.session.Named
  result : ∀ r, p.result = some r → r.Tidy
  changes : ∀ change ∈ p.changes, change.Plain root

theorem Plan.tidy_answer {root : Text} {session : Session} (hs : session.Named) {r : ResultSet}
    (hr : r.Tidy) : (answer session r).Tidy root := ⟨hs, fun _ h => Option.some.inj h ▸ hr, fun _ h => nomatch h⟩

theorem Plan.tidy_change {root : Text} {session : Session} (hs : session.Named)
    {changes : List (Change Path)} (hc : ∀ change ∈ changes, change.Plain root) :
    (change session changes).Tidy root :=
  ⟨hs, fun _ h => (nomatch h), hc⟩

section plans
variable {root : Text} {catalog : Catalog Path} (hcatalog : catalog.Plain root)
include hcatalog

namespace Catalog

theorem returns_database {name : Text} (hn : IsName name) :
    Returns root (Stored.Plain root) (catalog.database name) := by
  unfold database
  split
  · next hd => exact hcatalog.database? hn hd
  · exact plainBut_about (by decide) hn

theorem returns_selected {session : Session} (hs : session.Named) :
    Returns root (Stored.Plain root) (catalog.selected session.database) := by
  cases hd : session.database with
  | none => exact .of_nil (by decide : Error.noDatabaseSelected.text.PlainBut [])
  | some name => exact returns_database hcatalog (hs name hd)

theorem returns_table {database : Stored Path} (hd : database.Plain root) {name : Text} (hn : IsName name)
    (lookup : Nat) : Returns root (Stored.Plain root) (catalog.table lookup database name) := by
  have hfound := hcatalog.table? hd.path hn lookup
  unfold table
  cases hf : catalog.table? lookup database.key name with
  | error e =>
      rw [hf] at hfound
      exact hfound
  | ok found =>
      rw [hf] at hfound
      cases found with
      | none => exact plainBut_about (by decide) hn
      | some stored => exact hfound stored rfl

theorem returns_loadTable {database : Stored Path} (hd : database.Plain root) {name : Text}
    (hn : IsName name) (lookup : Nat) :
    Returns root (fun x => x.1.Plain root ∧ x.2.Tidy) (catalog.loadTable lookup database name) :=
  (returns_table hcatalog hd hn lookup).bind fun _ hs => (hcatalog.load hs.path).bind fun _ ht => ⟨hs, ht⟩

end Catalog

namespace Command

open Catalog Plan

variable {session : Session} (hs : session.Named)
include hs

theorem returns_planRevision {name : Text} (hn : IsName name)
    {f : Table → Except Error (Option Table)} (hf : ∀ t, Returns root (fun _ => True) (f t)) :
    Returns root (Plan.Tidy root) (planRevision catalog session name f) := by
  refine (returns_selected hcatalog hs).bind fun database hd => ?_
  refine (returns_loadTable hcatalog hd hn 0).bind fun x hx => (hf x.2).bind fun revised _ => ?_
  cases revised with
  | none => exact tidy_change hs fun _ h => nomatch h
  | some t => exact tidy_change hs fun _ h => List.mem_singleton.mp h ▸ hx.1.path

/-- **The plan of a well-formed command is tidy**, and if it has none the error is one line. -/
theorem returns_plan {c : Command} (hc : c.WellFormed) : Returns root (Plan.Tidy root) (c.plan catalog session) := by
  cases c with
  | use name =>
      refine (returns_database hcatalog hc.isName).bind fun database hd => ?_
      exact ⟨fun _ h => Option.some.inj h ▸ hd.name, fun _ h => (nomatch h), fun _ h => nomatch h⟩
  | createDatabase name =>
      rw [plan, planCreateDatabase]
      split
      · exact plainBut_about (by decide) hc.isName
      · exact tidy_change hs fun _ h => List.mem_singleton.mp h ▸ trivial
  | dropDatabase name =>
      refine (returns_database hcatalog hc.isName).bind fun database hd => ?_
      exact tidy_change (hs.leave name) fun _ h => List.mem_singleton.mp h ▸ trivial
  | createTable name columns =>
      have hn := hc.1.isName
      refine (returns_selected hcatalog hs).bind fun database hd => ?_
      refine (hcatalog.table? hd.path hn 0).bind fun found hf => ?_
      cases found with
      | some stored => exact plainBut_about (by decide) hn
      | none =>
          refine (Table.returns_create fun column hm => (hc.2 column hm).isName).bind fun t _ => ?_
          exact tidy_change hs fun _ h => List.mem_singleton.mp h ▸ hcatalog.vacant hd.path hn
  | dropTable name =>
      refine (returns_selected hcatalog hs).bind fun database hd => ?_
      refine (returns_table hcatalog hd hc.isName 0).bind fun stored _ => ?_
      exact tidy_change hs fun _ h => List.mem_singleton.mp h ▸ trivial
  | alter name alteration column =>
      rw [plan]
      refine returns_planRevision hcatalog hs hc.1.isName fun t => ?_
      exact (Table.returns_alter hc.2.isName).map fun _ _ => trivial
  | insert name values =>
      refine (returns_selected hcatalog hs).bind fun database hd => ?_
      refine (returns_loadTable hcatalog hd hc.1.isName 0).bind fun x hx => ?_
      refine (Table.returns_checkValues values).bind fun _ _ => hcatalog.counters.bind fun r _ => ?_
      refine tidy_change hs fun change hm => ?_
      rcases List.mem_cons.mp hm with rfl | hm
      · trivial
      · rw [List.mem_singleton.mp hm]
        exact hx.1.path
  | select items name filter =>
      obtain ⟨hi, hn, hf⟩ := hc
      refine (returns_selected hcatalog hs).bind fun database hd => ?_
      refine (returns_loadTable hcatalog hd hn.isName 0).bind fun x hx => ?_
      refine (Table.returns_select hx.2 hi fun c h => (hf c h).1).bind fun r hr => ?_
      exact tidy_answer hs hr
  | update name assignments filter =>
      obtain ⟨hn, ha, hf⟩ := hc
      rw [plan]
      exact returns_planRevision hcatalog hs hn.isName fun t => Table.returns_update ha.2 hf.1
  | delete name filter =>
      rw [plan]
      exact returns_planRevision hcatalog hs hc.1.isName fun t => Table.returns_delete hc.2.1
  | join left right leftKey rightKey =>
      obtain ⟨hl, hr, hlk, hrk⟩ := hc
      refine (returns_selected hcatalog hs).bind fun database hd => ?_
      refine (returns_loadTable hcatalog hd hl.isName 0).bind fun x hx => ?_
      refine (returns_loadTable hcatalog hd hr.isName 1).bind fun y hy => ?_
      refine (Table.returns_join hx.2 hy.2 hx.1.name hy.1.name hlk.isName hrk.isName).bind fun r h => ?_
      exact tidy_answer hs h

end Command

end plans

/-! ### What is read from a disk -/

/-- A table that was read is tidy, whatever the file holds. -/
theorem Table.tidy_of_decode {contents : Text} {t : Table} (h : decode contents = .ok t) : t.Tidy := by
  have hreadable := readable_of_decode h
  refine ⟨fun column hc => ?_, fun column hc => (hreadable.header column hc).2,
    fun r hr cell hc => (hreadable.cells r hr cell hc).2⟩
  have hid := hreadable.idFirst
  rw [List.headD_eq_head?_getD, hc, Option.getD_some, sameName_comm] at hid
  exact isName_of_sameName isName_idColumn hid

/-- A file name with an extension is the stem, a dot and the extension. -/
theorem Path.eq_of_extension? {name extension : Text} (h : Path.extension? name = some extension) :
    name = Path.stem name ++ '.' :: extension := by
  have hsplit := List.takeWhile_append_dropWhile (p := fun c => decide (c ≠ '.')) (l := name.reverse)
  have hfirst := List.head?_dropWhile_not (fun c => decide (c ≠ '.')) name.reverse
  unfold Path.extension? Path.splitExtension at h
  unfold Path.stem Path.splitExtension
  dsimp only at h ⊢
  cases hd : name.reverse.dropWhile (fun c => decide (c ≠ '.')) with
  | nil =>
      rw [hd] at h
      cases h
  | cons dot before =>
      rw [hd] at h hsplit hfirst
      obtain rfl : dot = '.' := by simpa using hfirst
      dsimp only at h ⊢
      split at h
      · cases h
      · next hne =>
          obtain rfl := Option.some.inj h
          rw [if_neg hne]
          have hname := congrArg List.reverse hsplit
          rw [List.reverse_reverse, List.reverse_append, List.reverse_cons] at hname
          rw [List.append_assoc, List.singleton_append] at hname
          exact hname.symm

namespace Disk

variable {d : Disk} {order : Order} {root : Text}

theorem plain_of_findDatabase {dir : Path} (hdir : dir.text.PlainBut root) {name : Text}
    (hn : IsName name) {stored : Stored Path} (h : d.findDatabase order dir name = some stored) :
    stored.Plain root := by
  unfold findDatabase at h
  split at h
  · cases h
  · obtain ⟨⟨entry, node⟩, he, rfl⟩ := Option.map_eq_some_iff.mp h
    have hs := List.find?_some he
    cases node with
    | file bytes => cases hs
    | directory below =>
        have hentry : IsName entry := isName_of_sameName hn (sameName_comm _ _ ▸ hs)
        exact ⟨hentry, .child hdir (.of_isName hentry)⟩

theorem plain_of_isTable {dir : Path} {name : Text} (hn : IsName name) {entry : Text} {node : Node}
    (h : isTable dir name (entry, node) = true) :
    IsName (Path.stem entry) ∧ entry.PlainBut root := by
  cases node with
  | directory below => cases h
  | file bytes =>
      simp only [isTable, Bool.and_eq_true] at h
      obtain ⟨⟨-, hx⟩, hs⟩ := h
      have hstem : IsName (Path.stem entry) := isName_of_sameName hn (sameName_comm _ _ ▸ hs)
      refine ⟨hstem, ?_⟩
      split at hx
      · next extension he =>
          have htab : IsName Path.tableExtension := by decide
          rw [Path.eq_of_extension? he]
          have hextension : IsName extension := isName_of_sameName htab (sameName_comm _ _ ▸ hx)
          exact .append (.of_isName hstem) (.cons (by decide) (.of_isName hextension))
      · cases hx

theorem returns_findTable {dir : Path} (hdir : dir.text.PlainBut root) {name : Text} (hn : IsName name) :
    Returns root (fun found => ∀ stored, found = some stored → stored.Plain root)
      (Error.ofStorage (d.findTable order dir name)) := by
  unfold findTable
  split
  · exact plainBut_io _
  · intro stored h
    obtain ⟨⟨entry, node⟩, he, rfl⟩ := Option.map_eq_some_iff.mp h
    obtain ⟨hstem, hentry⟩ := plain_of_isTable hn (List.find?_some he)
    exact ⟨hstem, .child hdir hentry⟩

theorem returns_readTable {p : Path} (hp : p.text.PlainBut root) :
    Returns root Table.Tidy (Error.ofStorage (d.readTable p)) := by
  unfold readTable
  split
  · exact plainBut_file hp _
  · split
    · next ht => exact Table.tidy_of_decode ht
    · exact plainBut_corrupt hp _

theorem returns_readRegistry {dir : Path} (hdir : dir.text.PlainBut root) :
    Returns root (fun _ => True) (Error.ofStorage (d.readRegistry dir)) := by
  unfold readRegistry
  split
  · trivial
  · exact plainBut_io _
  · split
    · trivial
    · exact plainBut_corrupt (.child hdir (.of_nil (by decide))) _

/-- **Any disk** answers with names, and with paths and errors that are plain but for the root. -/
theorem plain_catalog (orders : Nat → Order) (root : Path) :
    (d.catalog orders root).Plain root.text where
  database? hn h := plain_of_findDatabase .self hn h
  table? hdir hn lookup := returns_findTable hdir hn
  vacant hdir hn := by
    change (Path.ofTable _ _).text.PlainBut root.text
    rw [Path.ofTable_of_isName _ hn]
    exact .child hdir (.append (.of_isName hn) (.of_nil (by decide)))
  load hp := returns_readTable hp
  counters := returns_readRegistry .self

end Disk

/-! ### Running commands -/

theorem Change.returns_make {change : Change Path} {root : Path} (hc : change.Plain root.text)
    (d : Disk) : Returns root.text (fun _ => True) (Error.ofStorage (change.make root d).1) := by
  have hdisk (x : Except Cause Unit × Disk) :
      Returns root.text (fun _ => True) (Error.ofStorage (StorageError.ofDisk x).1) := by
    obtain ⟨_ | _, _⟩ := x
    · exact plainBut_io _
    · trivial
  cases change with
  | createDatabase name => exact hdisk _
  | dropDatabase p => exact hdisk _
  | dropTable p => exact hdisk _
  | storeTable p t =>
      change Returns root.text _ (Error.ofStorage (d.storeTable p t).1)
      unfold Disk.storeTable
      split
      · trivial
      · exact plainBut_file hc _
  | storeCounters r =>
      change Returns root.text _ (Error.ofStorage (d.storeRegistry root r).1)
      unfold Disk.storeRegistry
      split
      · trivial
      · exact plainBut_io _

theorem Change.returns_makeAll {changes : List (Change Path)} {root : Path}
    (hc : ∀ change ∈ changes, change.Plain root.text) (d : Disk) :
    Returns root.text (fun _ => True) (Error.ofStorage (makeAll root d changes).1) := by
  induction changes generalizing d with
  | nil => trivial
  | cons change more ih =>
      have hmake := returns_make (hc change List.mem_cons_self) d
      rw [makeAll]
      split
      · exact ih (fun c hm => hc c (List.mem_cons_of_mem _ hm)) _
      · exact hmake

/-- A session with a name for its database, and a tidy result set or an error that is plain but for the
root. -/
structure Outcome.Tidy (root : Text) (o : Outcome) : Prop where
  session : o.session.Named
  result : Returns root (fun result => ∀ r, result = some r → r.Tidy) o.result

/-- **Whatever a client sends and whatever the disk holds**, the outcome is tidy. -/
theorem Engine.tidy_runText (e : Engine) {session : Session} (hs : session.Named) (d : Disk)
    (input : Text) : (e.runText session d input).Tidy e.root.text := by
  have hparse := @Command.returns_parse e.root.text input
  unfold runText
  cases hp : Command.parse input with
  | error why =>
      rw [hp] at hparse
      exact ⟨hs, hparse⟩
  | ok c =>
      rw [hp] at hparse
      have hplan := Command.returns_plan (Disk.plain_catalog (d := d) e.order e.root) hs hparse
      dsimp only
      unfold run
      cases hplanned : c.plan (d.catalog e.order e.root) session with
      | error why =>
          rw [hplanned] at hplan
          exact ⟨hs, hplan⟩
      | ok p =>
          rw [hplanned] at hplan
          have hmake := Change.returns_makeAll hplan.changes d
          dsimp only
          unfold perform
          split
          · exact ⟨hplan.session, hplan.result⟩
          · next hm =>
              rw [hm] at hmake
              exact ⟨hs, hmake⟩

end FlatDb
