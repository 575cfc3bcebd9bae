import FlatDb.Proofs.Tiling

/-! # Texts one after the other

A text that divides into tokens keeps them when white space and any other text follow it, and a text
behind white space has the tokens, or the fault, that it has alone.

* `Token.moved`, `Lexed.moved` and `Checked.shift` are tokens, tokens as ranges, and faults a number of
  bytes further on; `furtherOn` moves all that a text holds.  `Token.scanFrom_moved`: where a text
  begins makes no other difference.
* `Token.scanFrom_append_of_tiled`: **reading goes on where white space follows.**
* `Token.scan_append`: **the tokens of two texts with white space between them** are those of the first
  and, moved, those of the second.
* `Token.Tiled.split`: a text can be cut before and behind any of its tokens. -/

namespace FlatDb

open Text

/-! ### Further on in a text -/

def Slice.moved (n : Nat) (s : Slice) : Slice := ⟨n + s.start, n + s.stop⟩

def Lexeme.moved (n : Nat) : Lexeme → Lexeme
  | .plain kind => .plain kind
  | .number s => .number (s.moved n)
  | .word s => .word (s.moved n)
  | .quoted s => .quoted (s.moved n)

def Lexed.moved (n : Nat) (x : Lexed) : Lexed := ⟨n + x.position, x.lexeme.moved n⟩

/-- What a text holds, or its fault, seen from `n` bytes before it. -/
def furtherOn {α : Type} (move : Nat → α → α) (n : Nat) (x : Except LexError (List α)) :
    Except LexError (List α) :=
  (x.map (List.map (move n))).mapError (Checked.shift n)

namespace Token

def moved (n : Nat) (token : Token) : Token := ⟨n + token.position, token.kind⟩

/-- A token carries its range along. -/
theorem lexed_moved (n : Nat) (token : Token) : (token.moved n).lexed = token.lexed.moved n := by
  obtain ⟨position, kind⟩ := token
  cases kind with
  | number s | word s | quoted s =>
      simp only [lexed, moved, Lexed.moved, Lexeme.moved, Slice.moved, Nat.add_assoc]
  | _ => rfl

theorem scanFrom_moved (n skip position : Nat) (t : Text) :
    scanFrom skip (n + position) t = furtherOn moved n (scanFrom skip position t) := by
  induction t generalizing skip position with
  | nil => cases skip <;> rfl
  | cons c cs ih =>
      cases skip with
      | succ skip => rw [scanFrom, scanFrom, Nat.add_assoc, ih]
      | zero =>
          rw [scanFrom, scanFrom]
          split
          · rw [Nat.add_assoc, ih]
          · cases readToken c cs with
            | error e =>
                dsimp only
                rw [Nat.add_assoc]
                rfl
            | ok x =>
                dsimp only
                rw [Nat.add_assoc, ih]
                cases scanFrom x.2 (position + c.utf8Size) cs <;> rfl

/-- **Reading goes on behind a text that divides into tokens**, if white space follows it. -/
theorem scanFrom_append_of_tiled {position : Nat} {t tail : Text} {tokens : List Token}
    (h : Tiled position t tokens) (htail : ∀ c, tail.head? = some c → isBlank c = true) :
    scanFrom 0 position (t ++ tail) =
      (scanFrom 0 (position + size t) tail).map (tokens ++ ·) := by
  induction h with
  | blank hblank =>
      rw [scanFrom_blanks_append hblank]
      cases scanFrom 0 _ tail <;> rfl
  | @token position gap spelling rest kind tokens hgap hspelling hmax _ ih =>
      have hsize : position + size (gap ++ (spelling ++ rest)) =
          position + size (gap ++ spelling) + size rest := by
        rw [← List.append_assoc, size_append (gap ++ spelling), Nat.add_assoc]
      rw [List.append_assoc, List.append_assoc, scanFrom_blanks_append hgap,
        scanFrom_spelling hspelling (hmax.append htail), Nat.add_assoc, ← size_append, ih, hsize]
      cases scanFrom 0 _ tail <;> rfl

theorem scan_append_tail {a tail : Text} {tokens : List Token} (ha : scan a = .ok tokens)
    (htail : ∀ c, tail.head? = some c → isBlank c = true) :
    scan (a ++ tail) = (furtherOn moved (size a) (scan tail)).map (tokens ++ ·) := by
  have hread := scanFrom_append_of_tiled (scanFrom_eq_ok_iff.mp ha) htail
  rwa [Nat.zero_add, ← Nat.add_zero (size a), scanFrom_moved] at hread

theorem scan_blanks_append {w : Text} (hw : Blanks w) (t : Text) :
    scan (w ++ t) = furtherOn moved (size w) (scan t) := by
  rw [scan, scanFrom_blanks_append hw, Nat.add_comm, scanFrom_moved]
  rfl

theorem furtherOn_furtherOn (m n : Nat) (x : Except LexError (List Token)) :
    furtherOn moved m (furtherOn moved n x) = furtherOn moved (m + n) x := by
  cases x with
  | error e => simp [furtherOn, Except.map, Except.mapError, Checked.shift, Nat.add_assoc]
  | ok tokens => simp [furtherOn, Except.map, Except.mapError, moved, Nat.add_assoc]

theorem map_lexed_furtherOn (n : Nat) (x : Except LexError (List Token)) :
    (furtherOn moved n x).map (List.map lexed) =
      furtherOn Lexed.moved n (x.map (List.map lexed)) := by
  cases x with
  | error e => rfl
  | ok tokens => simp [furtherOn, Except.map, Except.mapError, lexed_moved]

/-- **The tokens of two texts with white space between them** are those of the first, and those of the
second or its fault, as far behind as the second text begins; and so are the ranges they carry. -/
theorem scan_append {a w : Text} {tokens : List Token} (ha : scan a = .ok tokens) (hne : w ≠ [])
    (hw : Blanks w) (b : Text) :
    scan (a ++ w ++ b) = (furtherOn moved (size (a ++ w)) (scan b)).map (tokens ++ ·) ∧
      ∃ la lb, Checked.lex a = Checked.safe (.ok la) ∧ Checked.lex b = Checked.safe lb ∧
        Checked.lex (a ++ w ++ b) =
          Checked.safe ((furtherOn Lexed.moved (size (a ++ w)) lb).map (la ++ ·)) := by
  have htail : ∀ c, (w ++ b).head? = some c → isBlank c = true := by
    intro c hc
    rw [List.head?_append_of_ne_nil _ hne] at hc
    exact hw c (List.mem_of_head? hc)
  have hscan : scan (a ++ w ++ b) =
      (furtherOn moved (size (a ++ w)) (scan b)).map (tokens ++ ·) := by
    rw [List.append_assoc, scan_append_tail ha htail, scan_blanks_append hw, furtherOn_furtherOn,
      size_append]
  refine ⟨hscan, tokens.map lexed, (scan b).map (List.map lexed), ?_, Checked.lex_eq b, ?_⟩
  · rw [Checked.lex_eq, ha]
    rfl
  · rw [Checked.lex_eq, hscan, ← map_lexed_furtherOn]
    cases furtherOn moved (size (a ++ w)) (scan b) with
    | error e => rfl
    | ok tb => exact congrArg (fun l => Checked.safe (.ok l)) List.map_append

/-- A wide space keeps two signs apart, and what stands behind it is reported where it stands. -/
theorem scan_append_wide :
    scan ("a>".toList ++ "\u3000".toList ++ "=1".toList) = .ok
      [⟨0, .word "a".toList⟩, ⟨1, .operator .greater⟩, ⟨5, .assign⟩, ⟨6, .number "1".toList⟩] ∧
    scan ("a>".toList ++ "\u3000".toList ++ "=?".toList) = .error ⟨.unexpected '?', 6⟩ := by
  have ha : scan "a>".toList = .ok [⟨0, .word "a".toList⟩, ⟨1, .operator .greater⟩] := by
    decide +kernel
  have hw : Blanks "\u3000".toList := blanks_iff.mpr (by decide +kernel)
  constructor
  · exact (scan_append ha (by decide) hw _).1.trans (by decide +kernel)
  · exact (scan_append ha (by decide) hw _).1.trans (by decide +kernel)

/-! ### Cutting a text at a token -/

/-- **A text can be cut before and behind any of its tokens**, and each piece keeps the tokens before
the cut. -/
theorem Tiled.split {position : Nat} {t : Text} {used rest : List Token} {x : Token}
    (h : Tiled position t (used ++ x :: rest)) :
    ∃ before spelling after, t = before ++ (spelling ++ after) ∧
      position + size before = x.position ∧ x.kind.Spelling spelling ∧ x.kind.Maximal spelling after ∧
      Tiled position before used ∧ Tiled position (before ++ spelling) (used ++ [x]) := by
  induction used generalizing position t with
  | nil =>
      cases h with
      | @token _ gap spelling after kind _ hgap hspelling hmax _ =>
          have hlast : Tiled position (gap ++ (spelling ++ [])) [⟨position + size gap, kind⟩] :=
            .token hgap hspelling (Kind.Maximal.of_append hmax) (.blank blanks_nil)
          rw [List.append_nil] at hlast
          exact ⟨gap, spelling, after, rfl, rfl, hspelling, hmax, .blank hgap, hlast⟩
  | cons y used ih =>
      cases h with
      | @token _ gap front behind kind _ hgap hfront hmax hrest =>
          obtain ⟨before, spelling, after, rfl, hposition, hspelling, hlongest, hused, hlast⟩ := ih hrest
          have hlong : kind.Maximal front (before ++ spelling) := by
            rw [← List.append_assoc] at hmax
            exact hmax.of_append
          refine ⟨gap ++ (front ++ before), spelling, after, by simp, ?_, hspelling, hlongest,
            .token hgap hfront hmax.of_append hused, ?_⟩
          · rw [← hposition, ← List.append_assoc, size_append (gap ++ front), Nat.add_assoc]
          · have htext : gap ++ (front ++ before) ++ spelling = gap ++ (front ++ (before ++ spelling)) := by
              simp
            rw [htext]
            exact .token hgap hfront hlong hlast

end Token

end FlatDb
