import FlatDb.Proofs.Failure
import FlatDb.Proofs.Framing

/-! # Refusals of one line

What a client is told when a command fails is one line without tabs, whatever it sent and whatever the
disk holds.  The one text in it that nobody has checked is the root directory.

* `Engine.Opened` are the sessions that a client can hold.
* `Engine.plain_of_errorStatus`: **the white space of a refusal is spaces, but for what the root
  directory has in its name**.
* `Engine.tab_in_refusal`: below a root with a tab in its name a refusal shows the tab. -/

namespace FlatDb

open Text

namespace Engine

/-- The sessions of a client that has called any number of times, on whatever disks. -/
inductive Opened (e : Engine) : Session → Prop where
  | new : Opened e .new
  | run {session : Session} (h : Opened e session) (d : Disk) (input : Text) :
      Opened e (e.runText session d input).session

theorem Opened.named {e : Engine} {session : Session} (h : e.Opened session) : session.Named := by
  induction h with
  | new => exact Session.named_new
  | run _ d input ih => exact (e.tidy_runText ih d input).session

/-- **A refusal is one line without tabs**, whatever the client sends and whatever the disk holds, but
for tabs and line ends in the name of the root directory; and its only other white space are spaces. -/
theorem plain_of_errorStatus (e : Engine) {session : Session} (hs : e.Opened session) (d : Disk)
    (input : Text) (h : errorStatus <+: (e.runText session d input).response) :
    (∀ c ∈ ['\t', '\n', '\r'], c ∉ e.root.text → c ∉ (e.runText session d input).response) ∧
      (e.runText session d input).response.PlainBut e.root.text := by
  have hresult := (e.tidy_runText hs.named d input).result
  obtain ⟨why, hwhy⟩ := error_of_errorStatus h
  rw [hwhy] at hresult
  have hplain : (e.runText session d input).response.PlainBut e.root.text := by
    rw [Outcome.response, hwhy]
    exact .append (.of_nil (by decide)) (.append (a := [' ']) (.of_nil (by decide)) hresult)
  refine ⟨fun c hc hroot hmem => ?_, hplain⟩
  have hblank : c ≠ ' ' ∧ isBlank c = true := by
    simp only [List.mem_cons, List.not_mem_nil, or_false] at hc
    rcases hc with rfl | rfl | rfl <;> decide
  rcases hplain c hmem with hc | hc | hc
  · exact hroot hc
  · exact hblank.1 hc
  · rw [hblank.2] at hc
    cases hc

/-- A disk with a root directory and one database, whose one file was written elsewhere and is no
table. -/
def strayDisk (root : Text) : Disk :=
  .directory [(root, .directory [("d".toList, .directory
    [("t.tab".toList, .file (toBytes "x\n".toList))])])]

/-- The engine below a root directory. -/
def engineBelow (root : Text) : Engine := ⟨.ofText root, fun _ => .kept⟩

/-- The session of a client that has selected that database. -/
def straySession (root : Text) : Session :=
  ((engineBelow root).runText .new (strayDisk root) "USE d;".toList).session

/-- The client asks for the table. -/
def strayOutcome (root : Text) : Outcome :=
  (engineBelow root).runText (straySession root) (strayDisk root) "SELECT * FROM t;".toList

theorem opened_straySession (root : Text) : (engineBelow root).Opened (straySession root) :=
  .run .new (strayDisk root) "USE d;".toList

theorem plain_of_errorStatus_stray :
    errorStatus <+: (strayOutcome "data".toList).response ∧
      '\t' ∉ (strayOutcome "data".toList).response ∧
      '\n' ∉ (strayOutcome "data".toList).response ∧ '\r' ∉ (strayOutcome "data".toList).response := by
  have herror : errorStatus <+: (strayOutcome "data".toList).response := by decide +kernel
  obtain ⟨hnone, -⟩ := plain_of_errorStatus (engineBelow "data".toList)
    (opened_straySession "data".toList) (strayDisk "data".toList) "SELECT * FROM t;".toList herror
  exact ⟨herror, hnone _ (by decide) (by decide), hnone _ (by decide) (by decide),
    hnone _ (by decide) (by decide)⟩

/-- **Below a root directory with a tab in its name** a refusal shows the tab, though no line end. -/
theorem tab_in_refusal :
    ¬ ∀ (e : Engine) (session : Session) (d : Disk) (input : Text),
      '\n' ∉ e.root.text → '\r' ∉ e.root.text → e.Opened session →
      errorStatus <+: (e.runText session d input).response →
      ∀ c ∈ ['\t', '\n', '\r'], c ∉ (e.runText session d input).response := by
  intro h
  have htab : '\t' ∈ (strayOutcome "a\tb".toList).response := by decide +kernel
  exact h (engineBelow "a\tb".toList) (straySession "a\tb".toList) (strayDisk "a\tb".toList)
    "SELECT * FROM t;".toList (by decide) (by decide) (opened_straySession "a\tb".toList)
    (by decide +kernel) '\t' (by decide) htab

end Engine

end FlatDb
