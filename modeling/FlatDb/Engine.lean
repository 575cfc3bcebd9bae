import FlatDb.Command.Parse
import FlatDb.Command.Plan
import FlatDb.Storage

/-! # The engine

Runs commands against the databases below one root of a disk.

* A command is planned against the disk as it is, then its changes are made in order.  The first
  change that fails ends the command with an error; the changes before it stay.
* A command that fails leaves its session as it was.
* A response is one text: a status, and for a result set the header and the rows, one line each
  with cells separated by tabs. -/

namespace FlatDb

/-! ### Making changes -/

/-- A failure of the disk itself, as a failure of the store. -/
def StorageError.ofDisk : Except Cause Unit × Disk → Except StorageError Unit × Disk
  | (.ok (), d) => (.ok (), d)
  | (.error cause, d) => (.error (.io cause), d)

/-- Removes what a path leads to. -/
def Disk.discard (d : Disk) (p : Path) : Except Cause Unit × Disk :=
  match d.remove p with
  | .ok d => (.ok (), d)
  | .error cause => (.error cause, d)

/-- Makes one change below a root. -/
def Change.make (root : Path) (d : Disk) : Change Path → Except StorageError Unit × Disk
  | createDatabase name => StorageError.ofDisk (d.makeDirectories (root.child name))
  | dropDatabase p => StorageError.ofDisk (d.discard p)
  | storeTable p t => d.storeTable p t
  | dropTable p => StorageError.ofDisk (d.discard p)
  | storeCounters r => d.storeRegistry root r

/-- Makes changes in order, up to the first that fails. -/
def Change.makeAll (root : Path) : Disk → List (Change Path) → Except StorageError Unit × Disk
  | d, [] => (.ok (), d)
  | d, change :: more =>
    match change.make root d with
    | (.ok (), d) => makeAll root d more
    | failed => failed

/-- The disks after each of some changes, up to the first that fails. -/
def Change.stages (root : Path) : Disk → List (Change Path) → List Disk
  | _, [] => []
  | d, change :: more =>
    match change.make root d with
    | (.ok (), d) => d :: stages root d more
    | (.error _, d) => [d]

/-- The disk after some of the stages is the disk after as many changes. -/
theorem Change.getLastD_take_stages (root : Path) (d : Disk) (changes : List (Change Path)) (n : Nat) :
    ((stages root d changes).take n).getLastD d = (makeAll root d (changes.take n)).2 := by
  induction changes generalizing d n with
  | nil => cases n <;> rfl
  | cons change more ih =>
    cases n with
    | zero => rfl
    | succ n =>
      rcases h : make root d change with ⟨_ | _, after⟩
      · simp [stages, makeAll, h]
      · simp only [stages, makeAll, h, List.take_succ_cons]
        exact (List.getLastD_cons ..).trans (ih after n)

theorem Change.getLastD_stages (root : Path) (d : Disk) (changes : List (Change Path)) :
    (stages root d changes).getLastD d = (makeAll root d changes).2 := by
  have h := getLastD_take_stages root d changes ((stages root d changes).length + changes.length)
  rwa [List.take_of_length_le (Nat.le_add_right ..), List.take_of_length_le (Nat.le_add_left ..)] at h

/-! ### Running commands -/

/-- The outcome of a command: its result, the session after it and the disk after it. -/
structure Outcome where
  result : Except Error (Option ResultSet)
  session : Session
  disk : Disk

/-- Where the databases are and in which orders a command lists directories. -/
structure Engine where
  root : Path
  order : Nat → Order := fun _ => .kept

namespace Engine

/-- Makes sure that there is a root. -/
def prepare (e : Engine) (d : Disk) : Except Cause Unit × Disk := d.makeDirectories e.root

/-- Carries out a plan for a command of a session. -/
def perform (e : Engine) (session : Session) (d : Disk) (p : Plan Path) : Outcome :=
  match Change.makeAll e.root d p.changes with
  | (.ok (), d) => ⟨.ok p.result, p.session, d⟩
  | (.error what, d) => ⟨.error (.storage what), session, d⟩

theorem disk_perform (e : Engine) (session : Session) (d : Disk) (p : Plan Path) :
    (e.perform session d p).disk = (Change.makeAll e.root d p.changes).2 := by
  unfold perform
  split <;> next h => rw [h]

/-- A plan of which a change fails. -/
theorem perform_of_error {e : Engine} {d d' : Disk} {p : Plan Path} {what : StorageError} (session : Session)
    (h : Change.makeAll e.root d p.changes = (.error what, d')) :
    e.perform session d p = ⟨.error (.storage what), session, d'⟩ := by
  simp only [perform, h]

/-- Runs a command. -/
def run (e : Engine) (session : Session) (d : Disk) (c : Command) : Outcome :=
  match c.plan (d.catalog e.order e.root) session with
  | .ok p => e.perform session d p
  | .error why => ⟨.error why, session, d⟩

/-- Runs the command a text spells. -/
def runText (e : Engine) (session : Session) (d : Disk) (input : Text) : Outcome :=
  match Command.parse input with
  | .ok c => e.run session d c
  | .error why => ⟨.error why, session, d⟩

/-- The disks after each change of the command a text spells, for whoever keeps a disk elsewhere
and follows the changes one by one. -/
def stages (e : Engine) (session : Session) (d : Disk) (input : Text) : List Disk :=
  match Command.parse input with
  | .ok c =>
    match c.plan (d.catalog e.order e.root) session with
    | .ok p => Change.stages e.root d p.changes
    | .error _ => []
  | .error _ => []

/-- A command that is refused has no stages. -/
theorem stages_of_plan_error {e : Engine} {session : Session} {d : Disk} {input : Text} {c : Command}
    {why : Error} (hp : Command.parse input = .ok c)
    (h : c.plan (d.catalog e.order e.root) session = .error why) :
    e.stages session d input = [] ∧ e.runText session d input = ⟨.error why, session, d⟩ := by
  simp only [stages, runText, run, hp, h, and_self]

/-- The stages of a command are those of what is planned. -/
theorem stages_of_plan {e : Engine} {session : Session} {d : Disk} {input : Text} {c : Command}
    {p : Plan Path} (hp : Command.parse input = .ok c)
    (h : c.plan (d.catalog e.order e.root) session = .ok p) :
    e.stages session d input = Change.stages e.root d p.changes ∧
      e.runText session d input = e.perform session d p := by
  simp only [stages, runText, run, hp, h, and_self]

/-- The last stage of a command is the disk after it. -/
theorem getLastD_stages (e : Engine) (session : Session) (d : Disk) (input : Text) :
    (e.stages session d input).getLastD d = (e.runText session d input).disk := by
  cases hp : Command.parse input with
  | error why => simp only [stages, runText, hp, List.getLastD_nil]
  | ok c =>
    cases hplan : c.plan (d.catalog e.order e.root) session with
    | error why =>
      obtain ⟨hstages, hrun⟩ := stages_of_plan_error hp hplan
      rw [hstages, hrun]
      rfl
    | ok p =>
      obtain ⟨hstages, hrun⟩ := stages_of_plan hp hplan
      rw [hstages, hrun, Change.getLastD_stages, disk_perform]

end Engine

/-! ### Responses -/

/-- The status of a command that succeeded. -/
def okStatus : Text := "[OK]".toList

/-- The status of a command that failed. -/
def errorStatus : Text := "[ERROR]".toList

/-- The cells of a row as a line. -/
def ResultSet.line (cells : List Text) : Text := Text.join '\t' cells

/-- A result set as lines, the header first. -/
def ResultSet.text (r : ResultSet) : Text := Text.join '\n' ((r.columns :: r.rows).map line)

/-- The response to a command. -/
def response : Except Error (Option ResultSet) → Text
  | .ok none => okStatus
  | .ok (some r) => okStatus ++ '\n' :: r.text
  | .error why => errorStatus ++ ' ' :: why.text

/-- The response to a command. -/
def Outcome.response (o : Outcome) : Text := FlatDb.response o.result

end FlatDb
