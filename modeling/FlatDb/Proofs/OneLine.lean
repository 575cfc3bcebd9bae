import FlatDb.Proofs.Operations
import FlatDb.Proofs.Pieces
import FlatDb.Proofs.Words

/-! # Errors of one line

`Text.OneLine` is said of texts without a line feed, and `Text.PlainBut` of texts that have no other
white space than spaces, but for what a given text has as well.  An error may quote the root directory,
so its text is plain but for that of the root; names and numbers are plain.

* `Returns` says of a computation that it returns values with a property, or a plain error.
* `Command.returns_parse`: a text spells a well-formed command, or is refused in one line.
* A table is `Tidy` when its first column has a name and its cells are of one line.  Commands on tidy
  tables give tidy result sets (`Table.returns_select`, `Table.returns_join`). -/

namespace FlatDb

open Text

/-! ### Texts of one line -/

/-- A text without a line feed. -/
def Text.OneLine (t : Text) : Prop := '\n' ∉ t

instance (t : Text) : Decidable t.OneLine := inferInstanceAs (Decidable (_ ∉ _))

namespace Text.OneLine

theorem append {a b : Text} (ha : a.OneLine) (hb : b.OneLine) : OneLine (a ++ b) := by
  unfold OneLine at *
  rw [List.mem_append, not_or]
  exact ⟨ha, hb⟩

theorem cons {c : Char} {t : Text} (hc : c ≠ '\n') (h : t.OneLine) : OneLine (c :: t) := by
  unfold OneLine at *
  rw [List.mem_cons, not_or]
  exact ⟨hc.symm, h⟩

theorem ofNat (n : Nat) : (Text.ofNat n).OneLine :=
  fun h => absurd (isDigit_of_mem_ofNat h) (by decide)

theorem of_isName {t : Text} (h : IsName t) : t.OneLine := h.not_mem (by decide)

theorem join {sep : Char} {pieces : List Text} (hs : sep ≠ '\n')
    (h : ∀ piece ∈ pieces, OneLine piece) : OneLine (Text.join sep pieces) := by
  intro hm
  rcases mem_join hm with rfl | ⟨piece, hp, hm⟩
  · exact hs rfl
  · exact h piece hp hm

end Text.OneLine

/-- The white space of a text is spaces, but for what another text has as well. -/
def Text.PlainBut (t root : Text) : Prop := ∀ c ∈ t, c ∈ root ∨ c = ' ' ∨ isBlank c = false

instance (t root : Text) : Decidable (t.PlainBut root) :=
  decidable_of_iff (t.all (fun c => root.contains c || c == ' ' || !isBlank c) = true)
    (by simp [Text.PlainBut, or_assoc])

namespace Text.PlainBut

variable {t root : Text}

theorem self : root.PlainBut root := fun _ hc => .inl hc

/-- A text that is plain is plain whatever the root is. -/
theorem of_nil (h : t.PlainBut []) : t.PlainBut root := fun c hc => .inr ((h c hc).resolve_left nofun)

theorem append {a b : Text} (ha : a.PlainBut root) (hb : b.PlainBut root) : PlainBut (a ++ b) root :=
  fun c hc => (List.mem_append.mp hc).elim (ha c) (hb c)

theorem cons {c : Char} (hc : isBlank c = false) (h : t.PlainBut root) : PlainBut (c :: t) root :=
  List.forall_mem_cons.mpr ⟨.inr (.inr hc), h⟩

theorem of_isName (h : IsName t) : t.PlainBut root :=
  fun _ hc => .inr (.inr (isBlank_of_isAlphanum (h.2 _ hc)))

theorem ofNat (n : Nat) : (Text.ofNat n).PlainBut root :=
  fun _ hc => .inr (.inr (isBlank_of_isAlphanum (isAlphanum_of_isDigit (isDigit_of_mem_ofNat hc))))

theorem child {p : Path} {name : Text} (hp : p.text.PlainBut root) (hn : name.PlainBut root) :
    (p.child name).text.PlainBut root := by
  rw [Path.text_child]
  intro c hc
  rcases Path.mem_joinText hc with hc | rfl | hc
  · exact hp c hc
  · exact .inr (.inr (by decide))
  · exact hn c hc

theorem oneLine (h : t.PlainBut root) (hroot : root.OneLine) : t.OneLine := by
  intro hc
  rcases h _ hc with hc | hc | hc
  · exact hroot hc
  · cases hc
  · cases hc

end Text.PlainBut

/-! ### Errors -/

section errors
variable {root : Text}

theorem plainBut_cause (cause : Cause) : cause.text.PlainBut root :=
  .of_nil (by cases cause <;> decide)

theorem plainBut_production (p : Production) : p.text.PlainBut root := by
  refine .of_nil ?_
  cases p
  case keyword k => cases k <;> decide
  all_goals decide

theorem plainBut_corruption (what : Corruption) : what.text.PlainBut root := by
  cases what with
  | missingHeader | firstColumn => exact .of_nil (by decide)
  | cellCount row found expected =>
      refine .append (.append (.append (.append (.append ?_ (.ofNat _)) ?_) (.ofNat _)) ?_) (.ofNat _)
      all_goals exact .of_nil (by decide)
  | badId row => exact .append (.append (.of_nil (by decide)) (.ofNat _)) (.of_nil (by decide))
  | counterLine line => exact .append (.of_nil (by decide)) (.ofNat _)

theorem plainBut_io (cause : Cause) : (Error.storage (.io cause)).text.PlainBut root :=
  .append (.of_nil (by decide)) (plainBut_cause cause)

theorem plainBut_file {path : Text} (h : path.PlainBut root) (cause : Cause) :
    (Error.storage (.file path cause)).text.PlainBut root :=
  .append (.of_nil (by decide)) (.append (.append h (.of_nil (by decide))) (plainBut_cause cause))

theorem plainBut_corrupt {path : Text} (h : path.PlainBut root) (what : Corruption) :
    (Error.storage (.corrupt path what)).text.PlainBut root :=
  .append (.of_nil (by decide)) (.append (.append h (.of_nil (by decide))) (plainBut_corruption what))

theorem plainBut_valueCount (expected found : Nat) :
    (Error.valueCount expected found).text.PlainBut root :=
  .append (.append (.append (.of_nil (by decide)) (.ofNat _)) (.of_nil (by decide))) (.ofNat _)

/-- An error about a name. -/
theorem plainBut_about {about name : Text} (ha : about.PlainBut []) (h : IsName name) :
    PlainBut (about ++ name) root := .append (.of_nil ha) (.of_isName h)

end errors

/-! ### Guarded computations -/

section gives
variable {α β : Type} {p : α → Prop} {q : β → Prop} {x : Except Error α} {root : Text}

/-- A computation returns values with a property, or an error that is plain but for the root. -/
def Returns (root : Text) (p : α → Prop) : Except Error α → Prop
  | .ok a => p a
  | .error why => why.text.PlainBut root

theorem Returns.bind {f : α → Except Error β} (h : Returns root p x)
    (hf : ∀ a, p a → Returns root q (f a)) : Returns root q (x >>= f) := by
  cases x with
  | error why => exact h
  | ok a => exact hf a h

theorem Returns.map {f : α → β} (h : Returns root p x) (hf : ∀ a, p a → q (f a)) :
    Returns root q (x.map f) := by
  cases x with
  | error why => exact h
  | ok a => exact hf a h

theorem Returns.mono {p' : α → Prop} (h : Returns root p x) (hp : ∀ a, p a → p' a) :
    Returns root p' x := by
  cases x with
  | error why => exact h
  | ok a => exact hp a h

end gives

/-! ### Parsing -/

namespace Token

theorem plainBut_of_quotedBody {offset : Nat} {cs : Text} {e : LexError}
    (h : quotedBody offset cs = .error e) : e.fault.text.PlainBut [] := by
  induction cs generalizing offset e with
  | nil =>
      cases h
      decide
  | cons c cs ih =>
      rw [quotedBody] at h
      split at h
      · cases h
      · split at h
        · cases h
          exact (by decide : LexFault.tabInText.text.PlainBut [])
        · split at h
          · cases h
            exact (by decide : LexFault.lineBreakInText.text.PlainBut [])
          · cases hq : quotedBody (offset + c.utf8Size) cs with
            | ok body =>
                rw [hq] at h
                cases h
            | error e' =>
                rw [hq] at h
                cases h
                exact ih hq

theorem plainBut_of_readToken {c : Char} {cs : Text} {e : LexError} (hc : isBlank c = false)
    (h : readToken c cs = .error e) : e.fault.text.PlainBut [] := by
  unfold readToken at h
  split at h
  case h_13 =>
    cases hq : quotedBody 1 cs with
    | ok body =>
        rw [hq] at h
        cases h
    | error e' =>
        rw [hq] at h
        cases h
        exact plainBut_of_quotedBody hq
  case h_14 =>
    repeat' split at h
    all_goals cases h
    exact .append (by decide) (.cons hc (by decide))
  all_goals cases h

/-- White space is passed over, so it is never reported. -/
theorem plainBut_of_scanFrom {skip position : Nat} {t : Text} {e : LexError}
    (h : scanFrom skip position t = .error e) : e.fault.text.PlainBut [] := by
  induction t generalizing skip position e with
  | nil =>
      cases skip <;> cases h
  | cons c cs ih =>
      cases skip with
      | succ skip => exact ih h
      | zero =>
          rw [scanFrom] at h
          split at h
          · exact ih h
          · next hb =>
              rw [Bool.not_eq_true] at hb
              cases hr : readToken c cs with
              | error e' =>
                  rw [hr] at h
                  cases h
                  exact plainBut_of_readToken (e := e') hb hr
              | ok x =>
                  obtain ⟨kind, more⟩ := x
                  rw [hr] at h
                  dsimp only at h
                  cases hm : scanFrom more (position + c.utf8Size) cs with
                  | ok tokens =>
                      rw [hm] at h
                      cases h
                  | error e' =>
                      rw [hm] at h
                      cases h
                      exact ih hm

end Token

/-- A text spells a well-formed command or is refused in one line. -/
theorem Command.returns_parse {root : Text} (t : Text) : Returns root Command.WellFormed (parse t) := by
  cases hp : parse t with
  | ok c => exact wellFormed_of_parse hp
  | error why =>
      unfold parse at hp
      split at hp
      · next e hs =>
          cases hp
          exact .append (.append (.append (.of_nil (by decide)) (.of_nil (Token.plainBut_of_scanFrom hs)))
            (.of_nil (by decide))) (.ofNat _)
      · split at hp
        · cases hp
          exact .append (.append (.append (.of_nil (by decide)) (plainBut_production _))
            (.of_nil (by decide))) (.ofNat _)
        · cases hp

/-! ### Tables -/

/-- A name in the first place of a header, and cells of one line. -/
structure Table.Tidy (t : Table) : Prop where
  first : ∀ column, t.columns.head? = some column → IsName column
  header : ∀ column ∈ t.columns, column.OneLine
  cells : ∀ r ∈ t.rows, ∀ cell ∈ r.cells, cell.OneLine

/-- A name in the first place of a header, and cells of one line. -/
structure ResultSet.Tidy (r : ResultSet) : Prop where
  first : ∀ column, r.columns.head? = some column → IsName column
  header : ∀ column ∈ r.columns, column.OneLine
  cells : ∀ cells ∈ r.rows, ∀ cell ∈ cells, cell.OneLine

section tables
variable {t : Table} {root : Text}

theorem oneLine_cellAt {cells : List Text} (h : ∀ cell ∈ cells, cell.OneLine) (i : Nat) :
    (cellAt cells i).OneLine := by
  unfold cellAt
  cases hi : cells[i]? with
  | none => exact (by decide : OneLine [])
  | some cell => exact h cell (List.mem_of_getElem? hi)

theorem oneLine_project {cells : List Text} (h : ∀ cell ∈ cells, cell.OneLine) (positions : List Nat) :
    ∀ cell ∈ Table.project positions cells, cell.OneLine := by
  intro cell hm
  obtain ⟨i, -, rfl⟩ := List.mem_map.mp hm
  exact oneLine_cellAt h i

theorem returns_requireColumn {columns : List Text} {name : Text} (hn : IsName name) :
    Returns root (fun i => IsName (cellAt columns i)) (requireColumn columns name) := by
  unfold requireColumn
  cases hi : columnIndex? columns name with
  | none => exact plainBut_about (by decide) hn
  | some i =>
      obtain ⟨hlt, hs, -⟩ := List.findIdx?_eq_some_iff_getElem.mp hi
      change IsName (cellAt columns i)
      rw [cellAt, List.getElem?_eq_getElem hlt]
      exact isName_of_sameName hn (sameName_comm _ _ ▸ hs)

theorem returns_requireColumns {columns names : List Text} (hn : ∀ name ∈ names, IsName name) :
    Returns root (fun positions => ∀ i ∈ positions, IsName (cellAt columns i))
      (requireColumns columns names) := by
  induction names with
  | nil => exact fun _ h => nomatch h
  | cons name more ih =>
      refine (returns_requireColumn (hn name List.mem_cons_self)).bind fun i hi => ?_
      refine (ih fun n hm => hn n (List.mem_cons_of_mem _ hm)).bind fun positions hp => ?_
      exact List.forall_mem_cons.mpr ⟨hi, hp⟩

theorem returns_refuseId {column : Text} (hn : IsName column) :
    Returns root (fun _ => True) (refuseId column) := by
  unfold refuseId
  split
  · exact plainBut_about (by decide) hn
  · trivial

namespace Condition

theorem isName_columns {c : Condition} (h : c.WellFormed) : ∀ n ∈ c.columns, IsName n := by
  induction c with
  | compare column op value =>
      intro n hn
      rw [List.mem_singleton.mp hn]
      exact h.1.isName
  | both left right ihl ihr | either left right ihl ihr =>
      intro n hn
      rcases List.mem_append.mp hn with hn | hn
      · exact ihl h.1 n hn
      · exact ihr h.2 n hn

theorem returns_holds {header cells : List Text} {c : Condition} (h : c.WellFormed) :
    Returns root (fun _ => True) (c.holds header cells) := by
  induction c with
  | compare column op value => exact (returns_requireColumn h.1.isName).bind fun i _ => trivial
  | both left right ihl ihr =>
      refine (ihl h.1).bind fun holds _ => ?_
      cases holds
      · trivial
      · exact ihr h.2
  | either left right ihl ihr =>
      refine (ihl h.1).bind fun holds _ => ?_
      cases holds
      · exact ihr h.2
      · trivial

theorem returns_check {header : List Text} {c : Condition} (h : c.WellFormed) :
    Returns root (fun _ => True) (c.check header) :=
  (returns_requireColumns (isName_columns h)).map fun _ _ => trivial

theorem returns_matching {header : List Text} {c : Condition} (h : c.WellFormed) (rows : List Row) :
    Returns root (· ⊆ rows) (c.matching header rows) := by
  induction rows with
  | nil => exact List.Subset.refl []
  | cons r rows ih =>
      refine (returns_holds h).bind fun keep _ => ih.bind fun rest hr => ?_
      cases keep
      · exact List.subset_cons_of_subset r hr
      · exact List.cons_subset_cons r hr

end Condition

namespace Table

theorem returns_checkColumns {seen columns : List Text} (hn : ∀ column ∈ columns, IsName column) :
    Returns root (fun _ => True) (checkColumns seen columns) := by
  induction columns generalizing seen with
  | nil => trivial
  | cons column more ih =>
      have hcolumn := hn column List.mem_cons_self
      refine (returns_refuseId hcolumn).bind fun _ _ => ?_
      split
      · exact plainBut_about (by decide) hcolumn
      · exact ih fun c hm => hn c (List.mem_cons_of_mem _ hm)

theorem returns_create {columns : List Text} (hn : ∀ column ∈ columns, IsName column) :
    Returns root (fun _ => True) (create columns) := (returns_checkColumns hn).bind fun _ _ => trivial

theorem returns_alter {alteration : Alteration} {column : Text} (hn : IsName column) :
    Returns root (fun _ => True) (t.alter alteration column) := by
  refine (returns_refuseId hn).bind fun _ _ => ?_
  cases alteration with
  | add =>
      dsimp only
      split
      · exact plainBut_about (by decide) hn
      · trivial
  | drop => exact (returns_requireColumn hn).bind fun _ _ => trivial

theorem returns_checkValues (values : List Literal) :
    Returns root (fun _ => True) (t.checkValues values) := by
  unfold checkValues
  dsimp only
  split
  · trivial
  · exact plainBut_valueCount _ _

theorem returns_assigned {columns : List Text} {assignments : List Assignment}
    (h : ∀ a ∈ assignments, a.WellFormed) :
    Returns root (fun _ => True) (assigned columns assignments) := by
  induction assignments with
  | nil => trivial
  | cons a more ih =>
      have ha := (h a List.mem_cons_self).1.isName
      refine (returns_refuseId ha).bind fun _ _ => (returns_requireColumn ha).bind fun _ _ => ?_
      exact (ih fun b hb => h b (List.mem_cons_of_mem _ hb)).bind fun _ _ => trivial

theorem returns_matchingIds {filter : Condition} (h : filter.WellFormed) :
    Returns root (fun _ => True) (t.matchingIds filter) :=
  (Condition.returns_check h).bind fun _ _ => (Condition.returns_matching h _).bind fun _ _ => trivial

theorem returns_update {assignments : List Assignment} {filter : Condition}
    (ha : ∀ a ∈ assignments, a.WellFormed) (hf : filter.WellFormed) :
    Returns root (fun _ => True) (t.update assignments filter) := by
  refine (returns_assigned ha).bind fun _ _ => (returns_matchingIds hf).bind fun ids _ => ?_
  split <;> trivial

theorem returns_delete {filter : Condition} (hf : filter.WellFormed) :
    Returns root (fun _ => True) (t.delete filter) := by
  refine (returns_matchingIds hf).bind fun ids _ => ?_
  split <;> trivial

/-! ### Result sets -/

/-- The first column that is shown has a name. -/
theorem returns_positions (h : t.Tidy) {items : Items} (hi : items.WellFormed) :
    Returns root
      (fun positions => ∀ column, (project positions t.columns).head? = some column → IsName column)
      (t.positions items) := by
  cases items with
  | all =>
      intro column hc
      cases hcolumns : t.columns with
      | nil =>
          rw [hcolumns] at hc
          cases hc
      | cons first more =>
          rw [hcolumns, List.length_cons, project, List.range_succ_eq_map] at hc
          obtain rfl : first = column := Option.some.inj hc
          exact h.first first (by rw [hcolumns]; rfl)
  | listed columns =>
      refine (returns_requireColumns fun n hn => (hi.2 n hn).isName).mono fun positions hp column hc => ?_
      obtain ⟨i, hm, rfl⟩ := List.mem_map.mp (List.mem_of_head? hc)
      exact hp i hm

theorem returns_selectedRows {filter : Option Condition}
    (hf : ∀ c, filter = some c → c.WellFormed) :
    Returns root (· ⊆ t.rows) (t.selectedRows filter) := by
  cases filter with
  | none => exact List.Subset.refl t.rows
  | some c =>
      exact (Condition.returns_check (hf c rfl)).bind fun _ _ => Condition.returns_matching (hf c rfl) _

theorem returns_select (h : t.Tidy) {items : Items} (hi : items.WellFormed) {filter : Option Condition}
    (hf : ∀ c, filter = some c → c.WellFormed) :
    Returns root ResultSet.Tidy (t.select items filter) := by
  refine (returns_positions h hi).bind fun positions hp => (returns_selectedRows hf).bind fun rows hr => ?_
  refine ⟨hp, oneLine_project h.header positions, fun cells hm => ?_⟩
  obtain ⟨r, hr', rfl⟩ := List.mem_map.mp hm
  exact oneLine_project (h.cells r (hr hr')) positions

theorem oneLine_carriedColumns (h : t.Tidy) {name : Text} (hn : IsName name) (key : Nat) :
    ∀ column ∈ t.carriedColumns name key, column.OneLine := by
  intro column hm
  obtain ⟨c, hc, rfl⟩ := List.mem_map.mp hm
  exact .append (.of_isName hn) (.cons (by decide) (oneLine_project h.header _ c hc))

theorem oneLine_joinedCells {left right : Table} (hl : left.Tidy) (hr : right.Tidy)
    (leftKey rightKey : Nat) :
    ∀ cells ∈ joinedCells left right leftKey rightKey, ∀ cell ∈ cells, cell.OneLine := by
  intro cells hm cell hc
  obtain ⟨l, hlm, hm⟩ := List.mem_flatMap.mp hm
  obtain ⟨r, hrm, rfl⟩ := List.mem_map.mp hm
  rcases List.mem_append.mp hc with hc | hc
  · exact oneLine_project (hl.cells l hlm) _ cell hc
  · exact oneLine_project (hr.cells r (List.mem_filter.mp hrm).1) _ cell hc

theorem returns_join {left right : Table} (hl : left.Tidy) (hr : right.Tidy)
    {leftName rightName leftColumn rightColumn : Text} (hln : IsName leftName) (hrn : IsName rightName)
    (hlc : IsName leftColumn) (hrc : IsName rightColumn) :
    Returns root ResultSet.Tidy (join leftName left rightName right leftColumn rightColumn) := by
  refine (returns_requireColumn hlc).bind fun leftKey _ => ?_
  refine (returns_requireColumn hrc).bind fun rightKey _ => ⟨fun column hc => ?_, fun column hc => ?_,
    fun cells hm => ?_⟩
  · obtain rfl : idColumn = column := Option.some.inj hc
    exact isName_idColumn
  · rcases List.mem_cons.mp hc with rfl | hc
    · exact .of_isName isName_idColumn
    · rcases List.mem_append.mp hc with hc | hc
      · exact oneLine_carriedColumns hl hln _ column hc
      · exact oneLine_carriedColumns hr hrn _ column hc
  · obtain ⟨⟨joined, n⟩, hx, rfl⟩ := List.mem_map.mp hm
    obtain ⟨-, -, hj⟩ := List.mem_zipIdx hx
    refine List.forall_mem_cons.mpr ⟨.ofNat n, oneLine_joinedCells hl hr leftKey rightKey joined ?_⟩
    rw [hj]
    exact List.getElem_mem _

end Table

end tables

end FlatDb
