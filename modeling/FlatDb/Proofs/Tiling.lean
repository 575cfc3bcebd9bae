import FlatDb.Proofs.Checked.Lexer
import FlatDb.Proofs.Longest

/-! # A text is its tokens and white space

* `Token.Tiled` lays a text out: white space, the spelling of a token, and so on, every token
  maximal before what follows it.  `Token.scanFrom_eq_ok_iff`: **this is what it means to divide into
  tokens**.
* `Token.lexed` is the range of bytes that a token carries.  `Checked.lex_eq`: **these are the ranges
  that the lexer with positions keeps**.
* `Token.exists_tiles`: **the tokens tile the text**.  Between their ranges there is nothing but white
  space, each range is spelled as its token says, and a quoted text carries exactly the inside of its
  quotes. -/

namespace FlatDb

open Text

namespace Token

/-! ### Laying out a text -/

/-- A text that begins at byte `position` is white space, a token and what is laid out behind it, until
there is only white space left. -/
inductive Tiled : Nat → Text → List Token → Prop where
  | blank {position : Nat} {t : Text} (h : Blanks t) : Tiled position t []
  | token {position : Nat} {gap spelling rest : Text} {kind : Kind} {tokens : List Token}
      (hgap : Blanks gap) (hspelling : kind.Spelling spelling) (hmax : kind.Maximal spelling rest)
      (h : Tiled (position + size (gap ++ spelling)) rest tokens) :
      Tiled position (gap ++ (spelling ++ rest)) (⟨position + size gap, kind⟩ :: tokens)

/-- A maximal spelling is read, and what follows after it. -/
theorem scanFrom_spelling {spelling rest : Text} {kind : Kind} (hspelling : kind.Spelling spelling)
    (hmax : kind.Maximal spelling rest) (position : Nat) :
    scanFrom 0 position (spelling ++ rest) =
      (scanFrom 0 (position + size spelling) rest).map (⟨position, kind⟩ :: ·) := by
  obtain ⟨c, used, rfl, hc⟩ := hspelling.head
  rw [List.cons_append, scanFrom, if_neg (by rw [hc]; exact Bool.false_ne_true),
    readToken_of_maximal hspelling hmax]
  dsimp only
  rw [scanFrom_append, size, Nat.add_assoc]

theorem scanFrom_of_tiled {position : Nat} {t : Text} {tokens : List Token}
    (h : Tiled position t tokens) : scanFrom 0 position t = .ok tokens := by
  induction h with
  | blank h => exact scanFrom_blanks h 0 _
  | token hgap hspelling hmax _ ih =>
      rw [scanFrom_blanks_append hgap, scanFrom_spelling hspelling hmax, Nat.add_assoc,
        ← size_append, ih]
      rfl

/-- The induction is on the length of the text: every token takes at least one character. -/
theorem tiled_of_scanFrom {position : Nat} {t : Text} {tokens : List Token}
    (h : scanFrom 0 position t = .ok tokens) : Tiled position t tokens := by
  generalize hn : t.length = n
  induction n using Nat.strong_induction_on generalizing position t tokens with
  | _ n ih =>
      have hgap : Blanks (t.takeWhile isBlank) := fun c hc => List.mem_takeWhile_imp hc
      have ht := (List.takeWhile_append_dropWhile (p := isBlank) (l := t)).symm
      rw [Checked.scanFrom_dropWhile] at h
      generalize hgapdef : t.takeWhile isBlank = gap at h ht hgap
      cases hrest : t.dropWhile isBlank with
      | nil =>
          rw [hrest] at h ht
          cases h
          rw [ht, List.append_nil]
          exact .blank hgap
      | cons c cs =>
          have hc : isBlank c = false := not_isBlank_of_head?_dropWhile (t := t) c (by rw [hrest]; rfl)
          rw [hrest] at h ht
          rw [scanFrom, if_neg (by rw [hc]; exact Bool.false_ne_true)] at h
          split at h
          · cases h
          · next kind more hread =>
              obtain ⟨used, rest, rfl, rfl, hspelling, hmax⟩ := readToken_eq_ok_iff.mp hread
              rw [scanFrom_append] at h
              obtain ⟨tokens, hscan, rfl⟩ := map_eq_ok_iff.mp h
              have hlen : rest.length < n := by
                rw [← hn, ht]
                simp only [List.length_append, List.length_cons]
                omega
              have hsize : position + size gap + c.utf8Size + size used =
                  position + size (gap ++ c :: used) := by
                rw [size_append, size]
                omega
              rw [hsize] at hscan
              rw [ht, ← List.cons_append]
              exact .token hgap hspelling hmax (ih _ hlen hscan rfl)

/-- **To divide into tokens** is to be laid out by them. -/
theorem scanFrom_eq_ok_iff {position : Nat} {t : Text} {tokens : List Token} :
    scanFrom 0 position t = .ok tokens ↔ Tiled position t tokens :=
  ⟨tiled_of_scanFrom, scanFrom_of_tiled⟩

theorem Tiled.position_lt {position : Nat} {t : Text} {tokens : List Token}
    (h : Tiled position t tokens) : ∀ token ∈ tokens, token.position < position + size t := by
  induction h with
  | blank _ => exact fun _ ht => absurd ht List.not_mem_nil
  | @token position gap spelling rest kind tokens _ hspelling _ _ ih =>
      obtain ⟨c, cs, rfl, -⟩ := hspelling.head
      have hpos := c.utf8Size_pos
      have hsize : size (gap ++ (c :: cs ++ rest)) = size (gap ++ c :: cs) + size rest := by
        rw [← List.append_assoc, size_append (gap ++ c :: cs)]
      intro token htoken
      rcases List.mem_cons.mp htoken with rfl | htoken
      · rw [size_append, List.cons_append, size]
        dsimp only
        omega
      · have hlt := ih token htoken
        omega

/-! ### The ranges that tokens carry -/

/-- A token with the range of the characters that it carries. -/
def lexed (token : Token) : Lexed where
  position := token.position
  lexeme :=
    match token.kind with
    | .number s => .number ⟨token.position, token.position + size s⟩
    | .word s => .word ⟨token.position, token.position + size s⟩
    | .quoted s => .quoted ⟨token.position + 1, token.position + 1 + size s⟩
    | kind => .plain kind

theorem lexed_of_fixed {kind : Kind} (h : kind.Fixed) (position : Nat) :
    lexed ⟨position, kind⟩ = ⟨position, .plain kind⟩ := by
  cases kind with
  | number _ | word _ | quoted _ => exact h.elim
  | _ => rfl

end Token

/-- The range of a lexeme begins where it is read, a quoted text's behind the quote. -/
def Lexeme.StartsAt (start : Nat) : Lexeme → Prop
  | .plain _ => True
  | .number s | .word s => s.start = start
  | .quoted s => s.start = start + 1

namespace Checked

variable {ε α β : Type}

/-- Whatever a program ends with has a property. -/
def Yields (p : α → Prop) (x : Checked ε α) : Prop := ∀ a, x = safe (.ok a) → p a

theorem yields_pure {p : α → Prop} {a : α} (h : p a) : Yields p (pure a : Checked ε α) := by
  rintro b ⟨⟩
  exact h

theorem Yields.bind {p : α → Prop} {q : β → Prop} {x : Checked ε α} {f : α → Checked ε β}
    (hx : Yields p x) (hf : ∀ a, p a → Yields q (f a)) : Yields q (x >>= f) := by
  intro b hb
  match x, hx, hb with
  | some (.ok a), hx, hb => exact hf a (hx a rfl) b hb

theorem yields_bind {q : β → Prop} {x : Checked ε α} {f : α → Checked ε β}
    (hf : ∀ a, Yields q (f a)) : Yields q (x >>= f) :=
  Yields.bind (p := fun _ => True) (fun _ _ => trivial) fun a _ => hf a

section starts
variable (t : Text) (start i : Nat)

theorem starts_lexWord : Yields (fun x => x.1.StartsAt start) (lexWord t start i) := by
  refine yields_bind fun stop => yields_bind fun spelling => ?_
  split
  · exact yields_pure trivial
  · exact yields_pure rfl

theorem starts_lexNumeric (signed : Bool) :
    Yields (fun x => x.1.StartsAt start) (lexNumeric t start i signed) := by
  refine yields_bind fun x => ?_
  obtain ⟨stop, fractional⟩ := x
  dsimp only
  split
  · exact starts_lexWord t start i
  · exact yields_pure rfl

theorem starts_lexQuoted : Yields (fun x => x.1.StartsAt start) (safe (lexQuoted t start i)) := by
  rw [lexQuoted]
  cases quoteEnd t start (i + 1) with
  | error e =>
      intro a h
      cases h
  | ok last => exact yields_pure (ε := LexError) (a := (Lexeme.quoted _, _)) rfl

theorem starts_lexToken (c : Char) :
    Yields (fun x => x.1.StartsAt start) (lexToken t start i c) := by
  unfold lexToken
  split
  · exact yields_pure trivial
  · split
    · exact starts_lexQuoted t start i
    · split
      · exact starts_lexNumeric t start i true
      · split
        · exact starts_lexNumeric t start i false
        · split
          · exact starts_lexWord t start i
          · exact fun _ h => nomatch h

theorem starts_lexFrom (fuel : Nat) :
    Yields (fun lexed => ∀ x ∈ lexed, x.lexeme.StartsAt x.position) (lexFrom t fuel i) := by
  induction fuel generalizing i with
  | zero => exact fun _ h => nomatch h
  | succ fuel ih =>
      refine yields_bind fun j => ?_
      dsimp only
      split
      · refine yields_bind fun here => (starts_lexToken t here.1 j here.2).bind fun x hx => ?_
        refine (ih x.2).bind fun lexed hall => yields_pure fun y hy => ?_
        rcases List.mem_cons.mp hy with rfl | hy
        · exact hx
        · exact hall y hy
      · exact yields_pure fun _ hm => nomatch hm

end starts

/-- A range is known from where it begins and what it takes out of a text. -/
theorem eq_lexed_of_means {t : Text} {x : Lexed} {token : Token} (h : x.Means t token)
    (hs : x.lexeme.StartsAt x.position) : x = token.lexed := by
  have range {s : Slice} {part : Text} {start : Nat} (hof : s.of? t = some part)
      (hstart : s.start = start) : s = ⟨start, start + size part⟩ := by
    obtain ⟨before, after, -, hbefore, hstop⟩ := Slice.of?_eq_some_iff.mp hof
    rw [← hstart, hbefore, ← hstop, ← hbefore]
  obtain ⟨position, lexeme⟩ := x
  obtain ⟨position', kind⟩ := token
  obtain ⟨hposition, hkind⟩ := h
  cases hposition
  cases hkind with
  | plain hfixed => rw [Token.lexed_of_fixed hfixed]
  | number hof => rw [range hof hs]; rfl
  | word hof => rw [range hof hs]; rfl
  | quoted hof => rw [range hof hs]; rfl

/-- **The ranges of bytes that the lexer keeps** are those that the tokens of the text carry. -/
theorem lex_eq (t : Text) : lex t = safe ((Token.scan t).map (List.map Token.lexed)) := by
  have hlex := refines_lex t
  cases hscan : Token.scan t with
  | error e =>
      rw [hscan] at hlex
      exact hlex.of_error
  | ok tokens =>
      rw [hscan] at hlex
      obtain ⟨lexed, hok, hmeans⟩ := hlex.of_ok
      have hstarts := starts_lexFrom t 0 (t.length + 1) lexed hok
      have heq : lexed = tokens.map Token.lexed := by
        clear hok hscan hlex
        induction hmeans with
        | nil => rfl
        | cons hx _ ih =>
            rw [List.map_cons, ← eq_lexed_of_means hx (hstarts _ List.mem_cons_self),
              ih fun y hy => hstarts y (List.mem_cons_of_mem _ hy)]
      rw [hok, heq]
      rfl

end Checked

/-! ### Tiles -/

/-- White space and the spelling of the token behind it. -/
structure Tile where
  gap : Text
  spelling : Text
deriving DecidableEq, Repr

namespace Tile

def text (x : Tile) : Text := x.gap ++ x.spelling

/-- The ranges of the spellings in a row of tiles that begins at byte `position`. -/
def spans : Nat → List Tile → List Slice
  | _, [] => []
  | position, x :: tiles =>
    ⟨position + size x.gap, position + size x.text⟩ :: spans (position + size x.text) tiles

theorem le_start_of_mem_spans {position : Nat} {tiles : List Tile} :
    ∀ s ∈ spans position tiles, position ≤ s.start := by
  induction tiles generalizing position with
  | nil => exact fun _ hs => nomatch hs
  | cons x tiles ih =>
      intro s hs
      rcases List.mem_cons.mp hs with rfl | hs
      · exact Nat.le_add_right _ _
      · exact (Nat.le_add_right _ _).trans (ih s hs)

/-- The ranges follow each other. -/
theorem pairwise_spans (position : Nat) (tiles : List Tile) :
    (spans position tiles).Pairwise fun a b => a.stop ≤ b.start := by
  induction tiles generalizing position with
  | nil => exact .nil
  | cons x tiles ih => exact .cons (fun s hs => le_start_of_mem_spans s hs) (ih _)

end Tile

/-- What a lexeme carries is a whole range, or what is between its first and its last byte. -/
def Lexeme.Fills (span : Slice) : Lexeme → Prop
  | .plain _ => True
  | .number s | .word s => s = span
  | .quoted s => s.start = span.start + 1 ∧ s.stop + 1 = span.stop

namespace Token

/-- A token is spelled in a range of bytes of a text, and carries that range. -/
structure Covers (t : Text) (span : Slice) (token : Token) : Prop where
  start : span.start = token.position
  proper : span.start < span.stop
  spelled : ∃ spelling rest, span.of? t = some spelling ∧
    (⟨span.stop, size t⟩ : Slice).of? t = some rest ∧
    token.kind.Spelling spelling ∧ token.kind.Maximal spelling rest
  carried : token.lexed.lexeme.Fills span

theorem map_start_of_covers {t : Text} {spans : List Slice} {tokens : List Token}
    (h : List.Forall₂ (Covers t) spans tokens) : spans.map Slice.start = tokens.map position := by
  induction h with
  | nil => rfl
  | cons hx _ ih => rw [List.map_cons, List.map_cons, hx.start, ih]

theorem fills_of_spelling {position : Nat} {kind : Kind} {spelling : Text}
    (h : kind.Spelling spelling) :
    (lexed ⟨position, kind⟩).lexeme.Fills ⟨position, position + size spelling⟩ := by
  have quote : '\''.utf8Size = 1 := rfl
  cases h with
  | number h => exact rfl
  | word h => exact rfl
  | quoted h =>
      refine ⟨rfl, ?_⟩
      rw [size, size_append, size, size, quote]
      dsimp only [lexed]
      omega
  | reserved hmem _ =>
      rw [lexed_of_fixed (Kind.fixed_of_reserved _ hmem)]
      trivial
  | _ => trivial

/-- A spelling covers the range in which it stands. -/
theorem covers_of_spelling (front : Text) {spelling rest : Text} {kind : Kind}
    (hspelling : kind.Spelling spelling) (hmax : kind.Maximal spelling rest) :
    Covers (front ++ (spelling ++ rest)) ⟨size front, size front + size spelling⟩
      ⟨size front, kind⟩ where
  start := rfl
  proper := by
    obtain ⟨c, cs, rfl, -⟩ := hspelling.head
    exact Nat.lt_add_of_pos_right (size_pos (List.cons_ne_nil c cs))
  spelled := by
    have hend : size (front ++ (spelling ++ rest)) = size (front ++ spelling) + size rest := by
      rw [← size_append, List.append_assoc]
    exact ⟨spelling, rest, Slice.of?_eq_some_iff.mpr ⟨front, rest, rfl, rfl, rfl⟩,
      Slice.of?_eq_some_iff.mpr ⟨front ++ spelling, [], by simp, (size_append _ _).symm, hend⟩,
      hspelling, hmax⟩
  carried := fills_of_spelling hspelling

theorem tiles_of_tiled {position : Nat} {t before : Text} {tokens : List Token}
    (h : Tiled position t tokens) (hbefore : size before = position) :
    ∃ tiles last, t = tiles.flatMap Tile.text ++ last ∧ Blanks last ∧ (∀ x ∈ tiles, Blanks x.gap) ∧
      List.Forall₂ (Covers (before ++ t)) (Tile.spans position tiles) tokens := by
  induction h generalizing before with
  | @blank position t h => exact ⟨[], t, rfl, h, nofun, .nil⟩
  | @token position gap spelling rest kind tokens hgap hspelling hmax _ ih =>
      obtain ⟨tiles, last, hrest, hlast, hgaps, hcovers⟩ := @ih (before ++ (gap ++ spelling))
        (by rw [size_append, hbefore])
      subst hbefore
      have hcover := covers_of_spelling (before ++ gap) hspelling hmax
      rw [size_append, Nat.add_assoc, ← size_append gap, List.append_assoc] at hcover
      refine ⟨⟨gap, spelling⟩ :: tiles, last, ?_, hlast, ?_, .cons hcover ?_⟩
      · simp [Tile.text, hrest]
      · rintro x (_ | ⟨_, hx⟩)
        · exact hgap
        · exact hgaps x hx
      · simpa [Tile.text] using hcovers

/-- **The tokens of a text tile it.** -/
theorem exists_tiles {t : Text} {tokens : List Token} (h : scan t = .ok tokens) :
    ∃ tiles last, t = tiles.flatMap Tile.text ++ last ∧ (∀ x ∈ tiles, Blanks x.gap) ∧ Blanks last ∧
      List.Forall₂ (Covers t) (Tile.spans 0 tiles) tokens ∧
      (Tile.spans 0 tiles).Pairwise (fun a b => a.stop ≤ b.start) ∧
      Checked.lex t = Checked.safe (.ok (tokens.map lexed)) := by
  obtain ⟨tiles, last, ht, hlast, hgaps, hcovers⟩ :=
    @tiles_of_tiled 0 t [] tokens (scanFrom_eq_ok_iff.mp h) rfl
  refine ⟨tiles, last, ht, hgaps, hlast, hcovers, Tile.pairwise_spans 0 tiles, ?_⟩
  rw [Checked.lex_eq, h]
  rfl

/-- Digits that run into a letter, a signed fraction, white space and a letter of two bytes each. -/
theorem exists_tiles_glued :
    ∃ tiles last, "1a>=-1.5\u00a0'\u00e9'".toList = tiles.flatMap Tile.text ++ last ∧
      (Tile.spans 0 tiles).map Slice.start = [0, 2, 4, 10] ∧
      Checked.lex "1a>=-1.5\u00a0'\u00e9'".toList = Checked.safe (.ok
        [⟨0, .word ⟨0, 2⟩⟩, ⟨2, .plain (.operator .greaterOrEqual)⟩, ⟨4, .number ⟨4, 8⟩⟩,
          ⟨10, .quoted ⟨11, 13⟩⟩]) := by
  have hscan : scan "1a>=-1.5\u00a0'\u00e9'".toList = .ok
      [⟨0, .word "1a".toList⟩, ⟨2, .operator .greaterOrEqual⟩, ⟨4, .number "-1.5".toList⟩,
        ⟨10, .quoted "\u00e9".toList⟩] := by decide +kernel
  obtain ⟨tiles, last, htext, -, -, hcovers, -, hlex⟩ := exists_tiles hscan
  exact ⟨tiles, last, htext, map_start_of_covers hcovers, hlex⟩

end Token

end FlatDb
