import FlatDb.Drawing
import FlatDb.Engine

/-! # The console

A client types lines at a prompt.  A line is a command, or a request to the console itself, which
begins with a dot and is understood in any case.  White space around a line does not count, and a
line of nothing else is passed over. -/

namespace FlatDb

/-- What a line asks for. -/
inductive Entry where
  | blank
  | exit
  | help
  | unknown
  | command (input : Text)
deriving DecidableEq, Repr

namespace Entry

/-- The spellings of the request to leave. -/
def exitWords : List Text := [".exit", ".quit", ".close"].map String.toList

/-- The spellings of the request for help. -/
def helpWords : List Text := [".help", ".h", ".?"].map String.toList

/-- What a line asks for. -/
def ofLine (line : Text) : Entry :=
  let input := line.trim
  if input = [] then blank
  else if input.head? = some '.' then
    let word := input.lowercase
    if exitWords.contains word then exit
    else if helpWords.contains word then help
    else unknown
  else command input

end Entry

/-- What the console answers to a line. -/
inductive Answer where
  | nothing
  | goodbye
  | help
  | unrecognised
  | response (text : Text)
deriving DecidableEq, Repr

/-- An answer with the session and the disk after it. -/
structure Turn where
  answer : Answer
  session : Session
  disk : Disk

/-- Handles a line. -/
def Engine.handle (e : Engine) (session : Session) (d : Disk) (line : Text) : Turn :=
  match Entry.ofLine line with
  | .blank => ⟨.nothing, session, d⟩
  | .exit => ⟨.goodbye, session, d⟩
  | .help => ⟨.help, session, d⟩
  | .unknown => ⟨.unrecognised, session, d⟩
  | .command input =>
    let o := e.runText session d input
    ⟨.response o.response, o.session, o.disk⟩

/-! ### What is shown -/

/-- The prompt. -/
def prompt : Text := "> ".toList

/-- The help text. -/
def helpText : Text :=
  Text.join '\n' <|
    [ "Commands end with ';'. For example:",
      "  CREATE DATABASE markbook;",
      "  USE markbook;",
      "  CREATE TABLE marks (name, mark);",
      "  INSERT INTO marks VALUES ('Alice', 90);",
      "  SELECT * FROM marks WHERE mark > 50;",
      "Meta commands: .help, .exit" ].map String.toList

/-- What is shown for an answer. -/
def Answer.shown : Answer → Text
  | nothing => []
  | goodbye => "Goodbye.\n".toList
  | help => helpText ++ ['\n']
  | unrecognised => "Error! Command not recognised.\n".toList
  | response text => Drawing.draw text ++ ['\n']

/-- What is shown while lines are typed until the client leaves, and the disk after that.  A line
that is no text ends the conversation. -/
def Engine.converse (e : Engine) : Session → Disk → List ByteArray → Text × Disk
  | _, d, [] => (prompt, d)
  | session, d, line :: more =>
    match Text.ofBytes? line with
    | none => (prompt, d)
    | some line =>
      let turn := e.handle session d line
      let shown := prompt ++ turn.answer.shown
      if turn.answer = .goodbye then (shown, turn.disk)
      else
        let (rest, d) := e.converse turn.session turn.disk more
        (shown ++ rest, d)

end FlatDb
