import FlatDb.Engine
import FlatDb.Proofs.Checked.Parser
import FlatDb.Proofs.Checked.Tables

/-! # The engine does not break off

A command is read by the parser with its cursor, planned against the tables that are read from their
files, and carried out.

* `Serves` says of a catalog and of a way to read its tables what planning relies on: reading does not
  break off, what is read is a rectangle, and no counter has reached the largest id.
* `plan_eq`: under a catalog that serves, planning does not break off.
* `serves_catalog`: a disk serves, whatever it holds, as long as no counter in its registry is the
  largest id.
* `runText_eq_some`: **no text makes the engine break off**, in no session and on no disk with such a
  registry. -/

namespace FlatDb

open Text

/-! ### Counters that were read -/

theorem Text.lt_of_count? {t : Text} {n : Nat} (h : count? t = some n) : n < UInt64.size := by
  unfold count? at h
  simpa using (Option.filter_eq_some_iff.mp h).2

namespace Registry

theorem lt_of_decodeLines {number : Nat} {lines : List Text} {r : Registry}
    (h : decodeLines number lines = .ok r) : ∀ c ∈ r, c.next < UInt64.size := by
  induction lines generalizing number r with
  | nil =>
      cases h
      exact fun _ hm => nomatch hm
  | cons line more ih =>
      rw [decodeLines] at h
      split at h
      · exact ih h
      · obtain ⟨c, hc, h⟩ := bind_eq_ok_iff.mp h
        obtain ⟨counters, hm, h⟩ := bind_eq_ok_iff.mp h
        cases h
        refine List.forall_mem_cons.mpr ⟨?_, ih hm⟩
        unfold decodeLine at hc
        split at hc
        · split at hc
          · next n hn =>
              cases hc
              exact lt_of_count? hn
          · cases hc
        · cases hc

end Registry

/-- A counter that was read has 64 bits, so it is below the largest id or is that id. -/
theorem Disk.unexhausted_of_readRegistry {d : Disk} {root : Path} {r : Registry}
    (h : d.readRegistry root = .ok r) (hr : ∀ c ∈ r, c.next ≠ UInt64.size - 1) : r.Unexhausted := by
  have hlt : ∀ c ∈ r, c.next < UInt64.size := by
    unfold readRegistry at h
    split at h
    · cases h
      exact fun _ hm => nomatch hm
    · cases h
    · split at h
      · next hdecode =>
          cases h
          exact Registry.lt_of_decodeLines hdecode
      · cases h
  intro c hc
  have := hlt c hc
  have := hr c hc
  omega

namespace Checked

/-! ### Planning -/

section plans
variable {κ : Type} (catalog : Catalog κ) (load : κ → Checked StorageError Table)

/-- The table of a name, which has to exist, with its contents. -/
def loadTable (lookup : Nat) (database : Stored κ) (name : Text) :
    Checked Error (Stored κ × Table) := do
  let stored ← safe (catalog.table lookup database name)
  let t ← ExceptT.adapt .storage (load stored.key)
  return (stored, t)

/-- Plans the insertion of a row. -/
def planInsert (session : Session) (name : Text) (values : List Literal) :
    Checked Error (Plan κ) := do
  let database ← safe (catalog.selected session.database)
  let (stored, t) ← loadTable catalog load 0 database name
  checkValues t values
  let counters ← safe (Error.ofStorage catalog.counters)
  let (id, counters) ← allocate database.name stored.name counters
  return .change session [.storeCounters counters, .storeTable stored.key (t.append id values)]

/-- Plans a command that reads one table. -/
def planSelect (session : Session) (items : Items) (name : Text) (filter : Option Condition) :
    Checked Error (Plan κ) := do
  let database ← safe (catalog.selected session.database)
  let (_, t) ← loadTable catalog load 0 database name
  let result ← select t items filter
  return .answer session result

/-- Plans a command that reads two tables. -/
def planJoin (session : Session) (left right leftKey rightKey : Text) : Checked Error (Plan κ) := do
  let database ← safe (catalog.selected session.database)
  let (leftStored, leftTable) ← loadTable catalog load 0 database left
  let (rightStored, rightTable) ← loadTable catalog load 1 database right
  let result ← join leftStored.name leftTable rightStored.name rightTable leftKey rightKey
  return .answer session result

/-- Plans a command that turns one table into another, or leaves it alone. -/
def planRevision (session : Session) (name : Text) (f : Table → Checked Error (Option Table)) :
    Checked Error (Plan κ) := do
  let database ← safe (catalog.selected session.database)
  let (stored, t) ← loadTable catalog load 0 database name
  let t ← f t
  return .revise session stored.key t

/-- Plans a command, or refuses it.  The commands that read no table check nothing. -/
def plan (session : Session) : Command → Checked Error (Plan κ)
  | .alter name alteration column =>
    planRevision catalog load session name fun t => do return some (← alter t alteration column)
  | .insert name values => planInsert catalog load session name values
  | .select items name filter => planSelect catalog load session items name filter
  | .update name assignments filter =>
    planRevision catalog load session name fun t => update t assignments filter
  | .delete name filter => planRevision catalog load session name fun t => delete t filter
  | .join left right leftKey rightKey =>
    planJoin catalog load session left right leftKey rightKey
  | c => safe (c.plan catalog session)

/-- What planning relies on. -/
structure Serves : Prop where
  load : ∀ key, load key = safe (catalog.load key)
  rectangular : ∀ key t, catalog.load key = .ok t → t.Rectangular
  unexhausted : ∀ r, catalog.counters = .ok r → r.Unexhausted

variable {catalog load} (h : Serves catalog load)
include h

theorem loadTable_eq (lookup : Nat) (database : Stored κ) (name : Text) :
    loadTable catalog load lookup database name = safe (catalog.loadTable lookup database name) := by
  refine bind_eq_safe fun stored _ => ?_
  rw [h.load, adapt_safe]
  cases catalog.load stored.key <;> rfl

/-- What is done with a table that was loaded is done with a rectangle. -/
theorem loadTable_bind {β : Type} {lookup : Nat} {database : Stored κ} {name : Text}
    {f : Stored κ × Table → Checked Error β} {g : Stored κ × Table → Except Error β}
    (hf : ∀ stored t, t.Rectangular → f (stored, t) = safe (g (stored, t))) :
    loadTable catalog load lookup database name >>= f =
      safe (catalog.loadTable lookup database name >>= g) := by
  rw [loadTable_eq h]
  refine bind_eq_safe ?_
  rintro ⟨stored, t⟩ ht
  exact hf stored t (h.rectangular _ _ (Catalog.loadTable_eq_ok_iff.mp ht).2)

theorem planInsert_eq (session : Session) (name : Text) (values : List Literal) :
    planInsert catalog load session name values =
      safe (Command.planInsert catalog session name values) := by
  refine bind_eq_safe fun database _ => loadTable_bind h fun stored t ht => ?_
  dsimp only
  rw [checkValues_eq ht]
  refine bind_eq_safe fun _ _ => bind_eq_safe fun counters hcounters => ?_
  rw [allocate_eq (h.unexhausted counters (ofStorage_eq_ok_iff.mp hcounters))]
  rfl

theorem planSelect_eq (session : Session) (items : Items) (name : Text) (filter : Option Condition) :
    planSelect catalog load session items name filter =
      safe (Command.planSelect catalog session items name filter) := by
  refine bind_eq_safe fun database _ => loadTable_bind h fun stored t ht => ?_
  dsimp only
  rw [select_eq ht]
  exact bind_eq_safe fun result _ => rfl

theorem planJoin_eq (session : Session) (left right leftKey rightKey : Text) :
    planJoin catalog load session left right leftKey rightKey =
      safe (Command.planJoin catalog session left right leftKey rightKey) := by
  refine bind_eq_safe fun database _ => loadTable_bind h fun leftStored leftTable hleft =>
    loadTable_bind h fun rightStored rightTable hright => ?_
  dsimp only
  rw [join_eq hleft hright]
  exact bind_eq_safe fun result _ => rfl

theorem planRevision_eq (session : Session) (name : Text) {f : Table → Checked Error (Option Table)}
    {g : Table → Except Error (Option Table)} (hf : ∀ t, t.Rectangular → f t = safe (g t)) :
    planRevision catalog load session name f = safe (Command.planRevision catalog session name g) := by
  refine bind_eq_safe fun database _ => loadTable_bind h fun stored t ht => ?_
  dsimp only
  rw [hf t ht]
  exact bind_eq_safe fun t _ => rfl

/-- **Planning does not break off.** -/
theorem plan_eq (session : Session) (c : Command) :
    plan catalog load session c = safe (c.plan catalog session) := by
  cases c with
  | use | createDatabase | dropDatabase | createTable | dropTable => rfl
  | alter name alteration column =>
      have halter : ∀ t : Table, t.Rectangular → (do return some (← alter t alteration column)) =
          safe ((t.alter alteration column).map some) := by
        intro t ht
        rw [alter_eq ht]
        cases t.alter alteration column <;> rfl
      exact planRevision_eq h session name halter
  | insert name values => exact planInsert_eq h session name values
  | select items name filter => exact planSelect_eq h session items name filter
  | update name assignments filter =>
      exact planRevision_eq h session name fun t ht => update_eq ht assignments filter
  | delete name filter => exact planRevision_eq h session name fun t ht => delete_eq ht filter
  | join left right leftKey rightKey => exact planJoin_eq h session left right leftKey rightKey

end plans

/-! ### Running -/

/-- The table stored at a path. -/
def readTable (d : Disk) (p : Path) : Checked StorageError Table :=
  match d.readText p with
  | .error cause => throw (.file p.text cause)
  | .ok contents => ExceptT.adapt (.corrupt p.text) (decode contents)

/-- Runs a command. -/
def run (e : Engine) (session : Session) (d : Disk) (c : Command) : Option Outcome := do
  match ← ExceptT.run (plan (d.catalog e.order e.root) (readTable d) session c) with
  | .ok p => return e.perform session d p
  | .error why => return ⟨.error why, session, d⟩

/-- Runs the command a text spells. -/
def runText (e : Engine) (session : Session) (d : Disk) (input : Text) : Option Outcome := do
  match ← ExceptT.run (parse input) with
  | .ok c => run e session d c
  | .error why => return ⟨.error why, session, d⟩

theorem readTable_eq (d : Disk) (p : Path) : readTable d p = safe (d.readTable p) := by
  unfold readTable Disk.readTable
  cases d.readText p with
  | error cause => rfl
  | ok contents =>
      dsimp only
      rw [decode_eq, adapt_safe]
      cases Table.decode contents <;> rfl

/-- A disk serves whatever its files hold, if no counter is the largest id. -/
theorem serves_catalog (order : Nat → Order) {root : Path} {d : Disk}
    (h : ∀ r, d.readRegistry root = .ok r → ∀ c ∈ r, c.next ≠ UInt64.size - 1) :
    Serves (d.catalog order root) (readTable d) where
  load := readTable_eq d
  rectangular key t ht := by
    change d.readTable key = .ok t at ht
    unfold Disk.readTable at ht
    split at ht
    · cases ht
    · split at ht
      · next hdecode =>
          cases ht
          exact (Table.readable_of_decode hdecode).rectangular
      · cases ht
  unexhausted r hr := Disk.unexhausted_of_readRegistry hr (h r hr)

theorem run_eq (e : Engine) {d : Disk}
    (h : ∀ r, d.readRegistry e.root = .ok r → ∀ c ∈ r, c.next ≠ UInt64.size - 1)
    (session : Session) (c : Command) : run e session d c = some (e.run session d c) := by
  unfold run Engine.run
  rw [plan_eq (serves_catalog e.order h)]
  cases c.plan (d.catalog e.order e.root) session <;> rfl

/-- **No text makes the engine break off.**  Whatever the text, the session, the contents of the disk and
the orders in which directories are listed: if no counter in the registry is the largest id, every range
of bytes that is taken out of the text lies in it on boundaries of characters, every index is in range, no
difference falls below zero, no counter overflows and no loop goes on without end.  What the engine
answers is the outcome of the command. -/
theorem runText_eq_some (e : Engine) {d : Disk}
    (h : ∀ r, d.readRegistry e.root = .ok r → ∀ c ∈ r, c.next ≠ UInt64.size - 1)
    (session : Session) (input : Text) :
    runText e session d input = some (e.runText session d input) := by
  unfold runText Engine.runText
  rw [parse_eq]
  cases Command.parse input with
  | error why => rfl
  | ok c => exact run_eq e h session c

/-- A disk with a table of one row, whose counter is given. -/
def countedDisk (next : Text) : Disk :=
  .directory [("data".toList, .directory
    [("shop".toList, .directory [("t.tab".toList, .file (toBytes "id\tname\n1\tÅsa\n".toList))]),
      (registryName, .file (toBytes ("shop:t:".toList ++ next)))])]

/-- Puts another row into it. -/
def counted (next : Text) : Option Outcome :=
  runText ⟨.ofText "data".toList, fun _ => .kept⟩ ⟨some "shop".toList⟩ (countedDisk next)
    "INSERT INTO t VALUES('Zoë');".toList

/-- The last id but one is handed out. -/
theorem runText_eq_some_lastButOne :
    (counted "18446744073709551614".toList).map Outcome.response = some okStatus := by
  have hread : (countedDisk "18446744073709551614".toList).readRegistry (.ofText "data".toList) =
      .ok [⟨"shop".toList, "t".toList, 18446744073709551614⟩] := by
    decide +kernel
  have hcounters : ∀ r, (countedDisk "18446744073709551614".toList).readRegistry
      (.ofText "data".toList) = .ok r → ∀ c ∈ r, c.next ≠ UInt64.size - 1 := by
    intro r hr
    rw [hread] at hr
    cases hr
    decide
  rw [counted, runText_eq_some _ hcounters]
  decide +kernel

/-- The counter of the table must not be the largest id, or it overflows. -/
example : (counted "18446744073709551615".toList).isNone = true := by
  decide +kernel

end Checked

end FlatDb
