import FlatDb.Engine
import FlatDb.Text.Lines

/-! # Connections

A client sends commands over a connection, one on each line, and gets one reply for each.  A
reply is the response followed by a line with nothing but the character U+0004, which marks its
end.  Each connection has a session of its own, in which no database is selected at first.  A
line that is not UTF-8 ends the connection. -/

namespace FlatDb

/-- Marks the end of a reply. -/
def endOfReply : Char := '\u0004'

/-- A response as sent to a client. -/
def reply (response : Text) : Text := response ++ ['\n', endOfReply, '\n']

/-- A connection that has ended: what was sent to the client, whether a line was not UTF-8, and
the disk. -/
structure Exchange where
  output : Text
  malformed : Bool
  disk : Disk

/-- Raw bytes as lines. -/
def byteLines (input : ByteArray) : List ByteArray :=
  (Text.linesBy 10 13 input.data.toList).map fun bytes => ⟨bytes.toArray⟩

namespace Engine

/-- Replies to lines in order. -/
def replyAll (e : Engine) : Session → Disk → List ByteArray → Exchange
  | _, d, [] => ⟨[], false, d⟩
  | session, d, line :: more =>
    match Text.ofBytes? line with
    | none => ⟨[], true, d⟩
    | some line =>
      let o := e.runText session d line.trim
      let rest := replyAll e o.session o.disk more
      { rest with output := reply o.response ++ rest.output }

/-- Serves a connection on which a client sends the given bytes. -/
def serve (e : Engine) (d : Disk) (input : ByteArray) : Exchange :=
  e.replyAll .new d (byteLines input)

end Engine

end FlatDb
