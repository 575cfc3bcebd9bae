import FlatDb.Proofs.Bytes
import FlatDb.Proofs.Reachable
import FlatDb.Proofs.Responses

/-! # Telling replies apart

A client cuts what it is sent at the lines that are nothing but the character U+0004 (`frames`).

* `frames_replies_iff`: cutting gives back the responses exactly if none of them has such a line.
* `Engine.serve_toBytes`: a text sent over a connection is answered line by line.
* `Outcome.marked_iff`: a response has such a line exactly if it shows a row that is a single cell of
  this one character.
* `frames_serve_iff`: **a client gets back the responses exactly if it is shown no such row**.  It is
  shown one as soon as somebody has stored the character in a cell (`frames_serve_markedCell`). -/

namespace FlatDb

open Text

/-! ### Cutting what was sent -/

/-- A text has a line that is nothing but the mark at the end of a reply. -/
def Text.Marked (t : Text) : Prop := [endOfReply] ∈ splitOn '\n' t

instance (t : Text) : Decidable t.Marked := inferInstanceAs (Decidable (_ ∈ _))

/-- What was sent, cut at the lines that are nothing but the mark. -/
def frames (output : Text) : List Text :=
  (splitOn [endOfReply] (splitOn '\n' output)).dropLast.map (join '\n')

/-- The frames of a single reply. -/
def replyFrames (response : Text) : List Text :=
  (splitOn [endOfReply] (splitOn '\n' response)).map (join '\n')

/-- The frames of a reply come before those of what is sent afterwards. -/
theorem frames_append (response rest : Text) :
    frames (reply response ++ rest) = replyFrames response ++ frames rest := by
  have hlines : splitOn '\n' (reply response ++ rest) =
      splitOn '\n' response ++ [endOfReply] :: splitOn '\n' rest := by
    have hsent : reply response ++ rest = response ++ '\n' :: ([endOfReply] ++ '\n' :: rest) := by
      simp [reply]
    have hmark : splitOn '\n' [endOfReply] = [[endOfReply]] := by decide
    rw [hsent, splitOn_append_sep, splitOn_append_sep, hmark]
    rfl
  have hne : splitOn [endOfReply] (splitOn '\n' rest) ≠ [] := List.cons_ne_nil _ _
  rw [frames, hlines, splitOn_append_sep, List.dropLast_append_of_ne_nil hne, List.map_append]
  rfl

theorem frames_flatMap_reply (responses : List Text) :
    frames (responses.flatMap reply) = responses.flatMap replyFrames := by
  induction responses with
  | nil => rfl
  | cons response more ih => rw [List.flatMap_cons, frames_append, ih, List.flatMap_cons]

theorem replyFrames_of_not_marked {response : Text} (h : ¬ response.Marked) :
    replyFrames response = [response] := by
  rw [replyFrames, splitOn_of_not_mem h, List.map_singleton, join_splitOn]

theorem length_replyFrames_pos (response : Text) : 0 < (replyFrames response).length := by
  simp [replyFrames, splitOn]

/-- A mark inside a response makes a frame more. -/
theorem length_replyFrames_of_marked {response : Text} (h : response.Marked) :
    1 < (replyFrames response).length := by
  obtain ⟨before, after, hsplit⟩ := List.append_of_mem h
  rw [replyFrames, List.length_map, hsplit, splitOn_append_sep, List.length_append]
  simp only [splitOn, List.length_cons]
  omega

theorem length_le_length_replyFrames (responses : List Text) :
    responses.length ≤ (responses.flatMap replyFrames).length := by
  induction responses with
  | nil => exact Nat.le_refl 0
  | cons response more ih =>
      have := length_replyFrames_pos response
      rw [List.flatMap_cons, List.length_append, List.length_cons]
      omega

/-- **Cutting gives back the responses** exactly if no response is marked. -/
theorem frames_replies_iff (responses : List Text) :
    frames (responses.flatMap reply) = responses ↔ ∀ r ∈ responses, ¬ r.Marked := by
  rw [frames_flatMap_reply]
  induction responses with
  | nil => simp
  | cons response more ih =>
      rw [List.flatMap_cons, List.forall_mem_cons, ← ih]
      constructor
      · intro h
        -- there are as many frames as responses only if the first one makes a single frame
        have hnot : ¬ response.Marked := by
          intro hm
          have hlength := congrArg List.length h
          have hone := length_replyFrames_of_marked hm
          have hmore := length_le_length_replyFrames more
          rw [List.length_append, List.length_cons] at hlength
          omega
        rw [replyFrames_of_not_marked hnot, List.singleton_append] at h
        exact ⟨hnot, List.tail_eq_of_cons_eq h⟩
      · rintro ⟨hnot, hmore⟩
        rw [replyFrames_of_not_marked hnot, hmore]
        rfl

/-! ### Connections -/

namespace Engine

/-- The outcomes of lines in order. -/
def outcomes (e : Engine) : Session → Disk → List Text → List Outcome
  | _, _, [] => []
  | session, d, line :: more =>
    let o := e.runText session d line.trim
    o :: e.outcomes o.session o.disk more

theorem length_outcomes (e : Engine) (session : Session) (d : Disk) (lines : List Text) :
    (e.outcomes session d lines).length = lines.length := by
  induction lines generalizing session d with
  | nil => rfl
  | cons line more ih => exact congrArg (· + 1) (ih _ _)

theorem replyAll_toBytes (e : Engine) (session : Session) (d : Disk) (lines : List Text) :
    e.replyAll session d (lines.map toBytes) =
      ⟨((e.outcomes session d lines).map Outcome.response).flatMap reply, false,
        ((e.outcomes session d lines).map Outcome.disk).getLastD d⟩ := by
  induction lines generalizing session d with
  | nil => rfl
  | cons line more ih =>
      rw [List.map_cons, replyAll, ofBytes?_toBytes]
      dsimp only
      rw [ih]
      simp only [outcomes, List.map_cons, List.flatMap_cons, List.getLastD_cons]

/-- **A text sent over a connection** is answered line by line. -/
theorem serve_toBytes (e : Engine) (d : Disk) (t : Text) :
    e.serve d t.toBytes =
      ⟨((e.outcomes .new d t.lines).map Outcome.response).flatMap reply, false,
        ((e.outcomes .new d t.lines).map Outcome.disk).getLastD d⟩ := by
  rw [serve, byteLines_toBytes, replyAll_toBytes]

theorem tidy_outcomes {e : Engine} {session : Session} (hs : session.Named) (d : Disk)
    (lines : List Text) : ∀ o ∈ e.outcomes session d lines, o.Tidy e.root.text := by
  induction lines generalizing session d with
  | nil => exact fun _ h => nomatch h
  | cons line more ih =>
      have ho := e.tidy_runText hs d line.trim
      exact List.forall_mem_cons.mpr ⟨ho, ih ho.session _⟩

end Engine

/-! ### Marks in a response -/

theorem not_marked_of_oneLine {t : Text} (h : t.OneLine) (hne : t ≠ [endOfReply]) : ¬ t.Marked := by
  rw [Marked, splitOn_of_not_mem h, List.mem_singleton]
  exact hne.symm

theorem join_eq_singleton_iff {sep c : Char} (hc : c ≠ sep) {pieces : List Text} :
    join sep pieces = [c] ↔ pieces = [[c]] := by
  constructor
  · intro h
    have hsep : sep ∉ join sep pieces := by
      rw [h]
      exact fun hm => hc (List.mem_singleton.mp hm).symm
    cases pieces with
    | nil => cases h
    | cons piece more =>
        cases more with
        | nil => exact congrArg (fun piece => [piece]) h
        | cons next more => exact absurd (by simp [join]) hsep
  · rintro rfl
    rfl

/-- A line of a result set is the mark exactly if it shows this one cell. -/
theorem ResultSet.line_eq_mark_iff {cells : List Text} :
    line cells = [endOfReply] ↔ cells = [[endOfReply]] := join_eq_singleton_iff (by decide)

/-- The text of a result set has a line for each row and one for the header. -/
theorem ResultSet.Tidy.splitOn_text {r : ResultSet} (h : r.Tidy) :
    splitOn '\n' r.text = (r.columns :: r.rows).map line := by
  refine splitOn_join (by simp) fun piece hp => ?_
  obtain ⟨cells, hm, rfl⟩ := List.mem_map.mp hp
  refine OneLine.join (by decide) ?_
  rcases List.mem_cons.mp hm with rfl | hm
  · exact h.header
  · exact h.cells cells hm

/-- A response with a result set has a line more, for the status. -/
theorem ResultSet.Tidy.splitOn_response {r : ResultSet} (h : r.Tidy) :
    splitOn '\n' (response (.ok (some r))) = okStatus :: (r.columns :: r.rows).map line := by
  rw [response, splitOn_append_sep, h.splitOn_text]
  rfl

namespace Outcome

/-- A row is shown that is a single cell with nothing but the mark in it. -/
def ShowsMark (o : Outcome) : Prop := ∃ r, o.result = .ok (some r) ∧ [[endOfReply]] ∈ r.rows

instance (o : Outcome) : Decidable o.ShowsMark :=
  match h : o.result with
  | .ok (some r) => decidable_of_iff ([[endOfReply]] ∈ r.rows) (by simp [ShowsMark, h])
  | .ok none => .isFalse (by simp [ShowsMark, h])
  | .error _ => .isFalse (by simp [ShowsMark, h])

/-- **A response is marked** exactly if a row is shown that is the mark. -/
theorem marked_iff {root : Text} (hroot : root.OneLine) {o : Outcome} (h : o.Tidy root) :
    o.response.Marked ↔ o.ShowsMark := by
  have hresult := h.result
  unfold ShowsMark
  rcases hr : o.result with why | _ | r <;> rw [response, hr] <;> rw [hr] at hresult
  · have hline : (FlatDb.response (.error why)).OneLine :=
      .append (by decide) (.cons (by decide) (hresult.oneLine hroot))
    refine iff_of_false (not_marked_of_oneLine hline fun he => ?_) (by simp)
    cases he
  · exact iff_of_false (by decide) (by simp)
  · have htidy := hresult r rfl
    have hheader : r.columns ≠ [[endOfReply]] := by
      intro hc
      have hname := htidy.first [endOfReply] (by rw [hc]; rfl)
      exact absurd hname (by decide)
    have hrows : [endOfReply] ∈ r.rows.map ResultSet.line ↔ [[endOfReply]] ∈ r.rows := by
      simp [ResultSet.line_eq_mark_iff]
    have hfirst : [endOfReply] ≠ ResultSet.line r.columns :=
      fun he => hheader (ResultSet.line_eq_mark_iff.mp he.symm)
    have hstatus : [endOfReply] ≠ okStatus := by decide
    rw [Marked, htidy.splitOn_response, List.map_cons, List.mem_cons, List.mem_cons, or_iff_right hstatus,
      or_iff_right hfirst, hrows]
    simp

end Outcome

/-- **A client that sends a text gets back the responses**, one for each line and in order, exactly if
it is shown no row that is the mark. -/
theorem frames_serve_iff {e : Engine} (hroot : e.root.text.OneLine) (d : Disk) (t : Text) :
    (e.serve d t.toBytes).malformed = false ∧
      ((e.outcomes .new d t.lines).map Outcome.response).length = t.lines.length ∧
      (frames (e.serve d t.toBytes).output = (e.outcomes .new d t.lines).map Outcome.response ↔
        ∀ o ∈ e.outcomes .new d t.lines, ¬ o.ShowsMark) := by
  have htidy := Engine.tidy_outcomes (e := e) Session.named_new d t.lines
  rw [Engine.serve_toBytes, List.length_map, Engine.length_outcomes]
  refine ⟨rfl, rfl, (frames_replies_iff _).trans ?_⟩
  rw [List.forall_mem_map]
  exact forall₂_congr fun o ho => not_congr (Outcome.marked_iff hroot (htidy o ho))

/-- An engine whose databases are in the directory `data`. -/
def dataEngine : Engine := ⟨.ofText "data".toList, fun _ => .kept⟩

/-- A client that selects a database and calls with something that is no command. -/
def faultyCommands : Text := "CREATE DATABASE d;\nUSE d;\r\nSELECT".toList

theorem frames_serve_faultyCommands :
    dataEngine.root.text.OneLine ∧
      frames (dataEngine.serve exampleDisk faultyCommands.toBytes).output =
        (dataEngine.outcomes .new exampleDisk faultyCommands.lines).map Outcome.response := by
  have hroot : dataEngine.root.text.OneLine := by decide
  exact ⟨hroot, (frames_serve_iff hroot exampleDisk faultyCommands).2.2.mpr (by decide +kernel)⟩

/-- A client that stores the mark in a cell and then asks for the cell. -/
def markedCell : Text :=
  "CREATE DATABASE d;\nUSE d;\nCREATE TABLE t (a);\n".toList ++
    "INSERT INTO t VALUES('\x04');\nSELECT a FROM t;\n".toList

/-- **Whoever stores the mark in a cell** is shown it as a line of its own, and gets back one frame
more than there are responses. -/
theorem frames_serve_markedCell :
    frames (dataEngine.serve exampleDisk markedCell.toBytes).output ≠
        (dataEngine.outcomes .new exampleDisk markedCell.lines).map Outcome.response ∧
      (dataEngine.outcomes .new exampleDisk markedCell.lines).map Outcome.response =
        [okStatus, okStatus, okStatus, okStatus, okStatus ++ "\na\n\x04".toList] ∧
      frames (dataEngine.serve exampleDisk markedCell.toBytes).output =
        [okStatus, okStatus, okStatus, okStatus, okStatus ++ "\na".toList, []] := by
  refine ⟨?_, ?_, ?_⟩ <;> decide +kernel

end FlatDb
