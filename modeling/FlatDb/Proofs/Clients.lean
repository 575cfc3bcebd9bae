import FlatDb.CommandLine
import FlatDb.Proofs.Blanks
import FlatDb.Proofs.Framing
import Mathlib.Data.List.Forall2

/-! # Console, connection and script

The same lines reach the engine in three ways.  The console trims what is typed; a connection cuts bytes
at line feeds, drops a carriage return before each of them and trims the rest; a script is cut in the
same way, and its lines are run as they are.

* `Engine.runEach` runs texts one after the other; `outcomes_eq`, `runAll_eq` and `turns_eq` say that
  a connection, a script and the console do so.
* `map_trim_lines`: lines that were put into one text are read again, up to the white space around
  them.
* `Outcome.Agrees`: outcomes that differ in nothing but which error is reported.
  `Engine.agrees_runText_trim`: **white space around a text makes no other difference**.
* `clients_agree`: **console, connection and script run the same program**. -/

namespace FlatDb

open Text

/-! ### Outcomes that agree -/

namespace Outcome

/-- The response reports success. -/
def Okay (o : Outcome) : Prop := okStatus <+: o.response

theorem okay_iff {o : Outcome} : o.Okay ↔ ∃ r, o.result = .ok r := by
  unfold Okay response
  rcases o.result with why | _ | r
  · refine iff_of_false (fun ⟨rest, h⟩ => ?_) (by simp)
    cases h
  · exact iff_of_true ⟨[], rfl⟩ ⟨none, rfl⟩
  · exact iff_of_true ⟨'\n' :: r.text, rfl⟩ ⟨some r, rfl⟩

/-- Outcomes that differ in nothing but which error is reported. -/
structure Agrees (o o' : Outcome) : Prop where
  session : o.session = o'.session
  disk : o.disk = o'.disk
  okay_iff : o.Okay ↔ o'.Okay
  response : o.Okay → o.response = o'.response

theorem Agrees.refl (o : Outcome) : o.Agrees o := ⟨rfl, rfl, Iff.rfl, fun _ => rfl⟩

/-- The turn of a console that shows an outcome. -/
def turn (o : Outcome) : Turn := ⟨.response o.response, o.session, o.disk⟩

end Outcome

namespace Engine

/-- Texts that spell the same command, or none, have outcomes that agree. -/
theorem agrees_runText (e : Engine) (session : Session) (d : Disk) {input input' : Text}
    (h : ∀ c, Command.parse input = .ok c ↔ Command.parse input' = .ok c) :
    (e.runText session d input).Agrees (e.runText session d input') := by
  unfold runText
  cases hp : Command.parse input with
  | ok c =>
      rw [(h c).mp hp]
      exact .refl _
  | error why =>
      cases hp' : Command.parse input' with
      | ok c =>
          rw [(h c).mpr hp'] at hp
          cases hp
      | error why' =>
          have hnot (why : Error) : ¬ (Outcome.mk (.error why) session d).Okay := by
            rw [Outcome.okay_iff]
            rintro ⟨r, hr⟩
            cases hr
          exact ⟨rfl, rfl, iff_of_false (hnot why) (hnot why'), fun ho => absurd ho (hnot why)⟩

/-- **White space around a text** makes no difference but to the error that is reported. -/
theorem agrees_runText_trim (e : Engine) (session : Session) (d : Disk) (input : Text) :
    (e.runText session d input.trim).Agrees (e.runText session d input) :=
  e.agrees_runText session d (Command.parse_trim input)

/-! ### Texts one after the other -/

/-- The outcomes of texts that are run one after the other. -/
def runEach (e : Engine) : Session → Disk → List Text → List Outcome
  | _, _, [] => []
  | session, d, input :: more =>
    let o := e.runText session d input
    o :: e.runEach o.session o.disk more

/-- Trimmed texts have outcomes that agree with those of the texts as they are, all the way: sessions
and disks are the same after each. -/
theorem agrees_runEach_trim (e : Engine) (session : Session) (d : Disk) (inputs : List Text) :
    List.Forall₂ Outcome.Agrees (e.runEach session d (inputs.map trim))
      (e.runEach session d inputs) := by
  induction inputs generalizing session d with
  | nil => exact .nil
  | cons input more ih =>
      have hfirst := e.agrees_runText_trim session d input
      rw [List.map_cons, runEach, runEach]
      refine .cons hfirst ?_
      rw [hfirst.session, hfirst.disk]
      exact ih _ _

/-- A connection runs the lines it is sent, trimmed. -/
theorem outcomes_eq (e : Engine) (session : Session) (d : Disk) (lines : List Text) :
    e.outcomes session d lines = e.runEach session d (lines.map trim) := by
  induction lines generalizing session d with
  | nil => rfl
  | cons line more ih => exact congrArg (_ :: ·) (ih _ _)

/-- A script shows each response on lines of its own and leaves the last disk. -/
theorem runAll_eq (e : Engine) (session : Session) (d : Disk) (inputs : List Text) :
    e.runAll session d inputs =
      (((e.runEach session d inputs).map fun o => o.response ++ ['\n']).flatten,
        ((e.runEach session d inputs).map Outcome.disk).getLastD d) := by
  induction inputs generalizing session d with
  | nil => rfl
  | cons input more ih =>
      rw [runAll, ih, runEach]
      simp only [List.map_cons, List.flatten_cons, List.getLastD_cons, List.append_assoc,
        List.cons_append, List.nil_append]

/-- The turns of a console for lines typed one after the other. -/
def turns (e : Engine) : Session → Disk → List Text → List Turn
  | _, _, [] => []
  | session, d, line :: more =>
    let turn := e.handle session d line
    turn :: e.turns turn.session turn.disk more

/-- A line that is not blank and asks nothing of the console itself is run, trimmed. -/
theorem handle_eq (e : Engine) (session : Session) (d : Disk) {line : Text} (hne : line.trim ≠ [])
    (hdot : line.trim.head? ≠ some '.') :
    e.handle session d line = (e.runText session d line.trim).turn := by
  have hentry : Entry.ofLine line = .command line.trim := by
    unfold Entry.ofLine
    dsimp only
    rw [if_neg hne, if_neg hdot]
  unfold handle
  rw [hentry]
  rfl

theorem turns_eq (e : Engine) (session : Session) (d : Disk) {lines : List Text}
    (h : ∀ line ∈ lines, line.trim ≠ [] ∧ line.trim.head? ≠ some '.') :
    e.turns session d lines = (e.runEach session d (lines.map trim)).map Outcome.turn := by
  induction lines generalizing session d with
  | nil => rfl
  | cons line more ih =>
      obtain ⟨⟨hne, hdot⟩, hmore⟩ := List.forall_mem_cons.mp h
      rw [turns, e.handle_eq session d hne hdot, List.map_cons, runEach]
      exact congrArg (_ :: ·) (ih _ _ hmore)

end Engine

/-! ### Lines in one text -/

/-- A text that consists of lines, with line feeds between them and perhaps one at the end. -/
def Text.Consists (contents : Text) (lines : List Text) : Prop :=
  contents = join '\n' lines ∨ contents = (lines.map (· ++ ['\n'])).flatten

theorem map_trim_linesOfPieces {first : Text} {more : List Text} (hfirst : first ≠ [])
    (h : ∀ line ∈ more, line ≠ []) :
    (linesOfPieces '\r' first more).map trim = (first :: more).map trim := by
  induction more generalizing first with
  | nil => rw [linesOfPieces, if_neg hfirst]
  | cons next more ih =>
      obtain ⟨hnext, hmore⟩ := List.forall_mem_cons.mp h
      rw [linesOfPieces, List.map_cons, trim_dropReturn, ih hnext hmore]
      rfl

/-- **Lines that were put into one text** are read again, up to the white space around them. -/
theorem map_trim_lines {contents : Text} {lines : List Text} (hc : contents.Consists lines)
    (h : ∀ line ∈ lines, '\n' ∉ line ∧ line ≠ []) : contents.lines.map trim = lines.map trim := by
  rcases hc with rfl | rfl
  · cases lines with
    | nil => rfl
    | cons line more =>
        have hsplit : splitOn '\n' (join '\n' (line :: more)) = line :: more :=
          splitOn_join (List.cons_ne_nil line more) fun l hl => (h l hl).1
        obtain ⟨hhead, htail⟩ := List.cons.inj hsplit
        obtain ⟨hline, hmore⟩ := List.forall_mem_cons.mp h
        rw [Text.lines, linesBy, hhead, htail]
        exact map_trim_linesOfPieces hline.2 fun l hl => (hmore l hl).2
  · rw [Text.lines, linesBy_flatten_dropReturn fun l hl => (h l hl).1, List.map_map]
    exact List.map_congr_left fun l _ => trim_dropReturn l

/-- A script is run line by line when none of its lines is blank. -/
theorem scriptCommands_eq {contents : Text} (h : ∀ line ∈ contents.lines, line.trim ≠ []) :
    scriptCommands contents = contents.lines := by
  refine List.filter_eq_self.mpr fun line hl => ?_
  rw [Bool.not_eq_true', Bool.eq_false_iff]
  intro hblank
  exact h line hl (trim_eq_nil_iff.mpr (blanks_iff.mpr hblank))

/-! ### The three clients -/

/-- **Console, connection and script run the same program.**  Lines that are not blank and ask nothing of
the console itself are typed one after the other, sent over a connection, and run as a script.  There
is one turn, one outcome on the connection and one outcome of the script for each line.  The console
shows exactly what is sent over the connection, with the same sessions and disks after each line; the
script agrees with both on sessions, disks, on what succeeds and on the response then. -/
theorem clients_agree (e : Engine) (d : Disk) {lines : List Text} {contents : Text}
    (hc : contents.Consists lines)
    (h : ∀ line ∈ lines, '\n' ∉ line ∧ line.trim ≠ [] ∧ line.trim.head? ≠ some '.') :
    let typed := e.turns .new d lines
    let served := e.outcomes .new d contents.lines
    let scripted := e.runEach .new d (scriptCommands contents)
    e.serve d contents.toBytes =
        ⟨(served.map Outcome.response).flatMap reply, false, (served.map Outcome.disk).getLastD d⟩ ∧
      e.runAll .new d (scriptCommands contents) =
        ((scripted.map fun o => o.response ++ ['\n']).flatten,
          (scripted.map Outcome.disk).getLastD d) ∧
      served.length = lines.length ∧ typed = served.map Outcome.turn ∧
      List.Forall₂ Outcome.Agrees served scripted := by
  have hread : contents.lines.map trim = lines.map trim :=
    map_trim_lines hc fun line hl => ⟨(h line hl).1, fun hnil => (h line hl).2.1 (by rw [hnil]; rfl)⟩
  have hcommands : scriptCommands contents = contents.lines := by
    refine scriptCommands_eq fun line hl => ?_
    have hm : line.trim ∈ lines.map trim := hread ▸ List.mem_map_of_mem hl
    obtain ⟨line', hl', htrim⟩ := List.mem_map.mp hm
    rw [← htrim]
    exact (h line' hl').2.1
  refine ⟨e.serve_toBytes d contents, e.runAll_eq .new d _, ?_, ?_, ?_⟩
  · rw [Engine.length_outcomes, ← List.length_map (f := trim), hread, List.length_map]
  · rw [e.turns_eq .new d fun line hl => (h line hl).2, e.outcomes_eq, hread]
  · rw [hcommands, e.outcomes_eq]
    exact e.agrees_runEach_trim .new d contents.lines

/-- Lines with white space around them, carriage returns among it, and with a quoted text that does not
end. -/
def spacedLines : List Text :=
  ["CREATE DATABASE d;\r".toList, "\u3000USE d; \r\r".toList, "CREATE TABLE t (a);".toList,
    "\tINSERT INTO t VALUES('x');\u00A0".toList, " SELECT a FROM t WHERE a == 'x \t".toList,
    "SELECT a FROM t;\r".toList]

/-- The lines in one text, with a line feed between them. -/
def spacedText : Text := join '\n' spacedLines

theorem clients_agree_spacedLines :
    dataEngine.turns .new exampleDisk spacedLines =
        (dataEngine.outcomes .new exampleDisk spacedText.lines).map Outcome.turn ∧
      List.Forall₂ Outcome.Agrees (dataEngine.outcomes .new exampleDisk spacedText.lines)
        (dataEngine.runEach .new exampleDisk (scriptCommands spacedText)) := by
  have hlines : ∀ line ∈ spacedLines,
      '\n' ∉ line ∧ line.trim ≠ [] ∧ line.trim.head? ≠ some '.' := by
    decide +kernel
  have hconsists : spacedText.Consists spacedLines := .inl rfl
  obtain ⟨-, -, -, hturns, hscript⟩ := clients_agree dataEngine exampleDisk hconsists hlines
  exact ⟨hturns, hscript⟩

end FlatDb
