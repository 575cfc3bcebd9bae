import FlatDb.Proofs.Updating

/-! # Columns that come and go

A column that a command does not name makes no difference to what the command does to the rest of a table.

* `closeUp` is where a position is after another one was taken away.
* `Table.Without`: a table is another one without a column.  `parallel_of_revision`: **a command that
  revises a table and does not name the column** does the same to both, and one of the results is again
  the other without the column.
* `World.Holds`: a world is another one but for the table that a file holds.  `World.Holds.replies_alike` is
  the induction over the calls that two such worlds answer.
* `replies_add_drop`: commands between adding a column and dropping it are **answered as if it had not been
  there, and nothing is left of it on the disk**. -/

namespace FlatDb

open Text

/-! ### Positions -/

/-- Where a position is after the position `i` was taken away. -/
def closeUp (i j : Nat) : Nat := if j < i then j else j - 1

section positions
variable {α : Type} {i j : Nat}

theorem getElem?_eraseIdx_closeUp (xs : List α) (h : j ≠ i) :
    (xs.eraseIdx i)[closeUp i j]? = xs[j]? := by
  rw [List.getElem?_eraseIdx, closeUp]
  split
  · rfl
  · next hge =>
      rw [if_neg (by omega)]
      congr 1
      omega

theorem set_eraseIdx_closeUp (xs : List α) (a : α) (h : j ≠ i) :
    (xs.eraseIdx i).set (closeUp i j) a = (xs.set j a).eraseIdx i := by
  rw [List.eraseIdx_set, closeUp]
  rcases Nat.lt_or_gt_of_ne h with hlt | hgt
  · rw [if_pos hlt, if_neg (by omega), if_neg (by omega)]
  · rw [if_neg (by omega), if_pos hgt]

/-- Two positions can be taken away in either order. -/
theorem eraseIdx_eraseIdx_closeUp (xs : List α) (h : j ≠ i) :
    (xs.eraseIdx i).eraseIdx (closeUp i j) = (xs.eraseIdx j).eraseIdx (closeUp j i) := by
  refine List.ext_getElem? fun n => ?_
  simp only [List.getElem?_eraseIdx, closeUp]
  grind

/-- A search passes over what does not pass the test. -/
theorem findIdx?_eraseIdx {p : α → Bool} {xs : List α} {x : α} (hx : xs[i]? = some x)
    (hp : p x = false) : (xs.eraseIdx i).findIdx? p = (xs.findIdx? p).map (closeUp i) := by
  induction xs generalizing i with
  | nil => cases hx
  | cons y more ih =>
      cases i with
      | zero =>
          obtain rfl : y = x := Option.some.inj hx
          simp [List.findIdx?_cons, hp, Function.comp_def, closeUp]
      | succ i =>
          rw [List.eraseIdx_cons_succ, List.findIdx?_cons, List.findIdx?_cons, ih hx]
          split
          · rfl
          · rw [Option.map_map, Option.map_map]
            refine Option.map_congr fun k hk => ?_
            have hne : k ≠ i := by
              rintro rfl
              obtain ⟨_, hk, -⟩ := List.findIdx?_eq_some_iff_getElem.mp hk
              obtain ⟨_, rfl⟩ := List.getElem?_eq_some_iff.mp hx
              exact absurd hk (by simpa using hp)
            simp only [Function.comp_apply, closeUp]
            split <;> split <;> omega

end positions

/-! ### A header with a column and without it -/

section columns
variable {columns cells : List Text} {c name : Text} {i j : Nat}

theorem columnIndex?_congr (columns : List Text) (h : sameName name c = true) :
    columnIndex? columns name = columnIndex? columns c := by
  unfold columnIndex? sameName
  rw [sameName_iff.mp h]

theorem ne_of_columnIndex? (hi : columnIndex? columns c = some i) (hne : sameName name c = false)
    (hj : columnIndex? columns name = some j) : j ≠ i := by
  rintro rfl
  obtain ⟨_, hc, -⟩ := List.findIdx?_eq_some_iff_getElem.mp hi
  obtain ⟨_, hname, -⟩ := List.findIdx?_eq_some_iff_getElem.mp hj
  rw [sameName_comm] at hname
  rw [sameName_trans hname hc] at hne
  cases hne

/-- Other columns are found where they are left. -/
theorem columnIndex?_eraseIdx (hi : columnIndex? columns c = some i) (hne : sameName name c = false) :
    columnIndex? (columns.eraseIdx i) name = (columnIndex? columns name).map (closeUp i) := by
  obtain ⟨hlt, hc, -⟩ := List.findIdx?_eq_some_iff_getElem.mp hi
  refine findIdx?_eraseIdx (List.getElem?_eq_getElem hlt) (Bool.eq_false_iff.mpr fun hname => ?_)
  rw [sameName_comm] at hname
  rw [sameName_trans hname hc] at hne
  cases hne

theorem requireColumn_eraseIdx (hi : columnIndex? columns c = some i) (hne : sameName name c = false) :
    requireColumn (columns.eraseIdx i) name = (requireColumn columns name).map (closeUp i) := by
  rw [requireColumn, requireColumn, columnIndex?_eraseIdx hi hne]
  cases columnIndex? columns name <;> rfl

theorem cellAt_eraseIdx (cells : List Text) (h : j ≠ i) :
    cellAt (cells.eraseIdx i) (closeUp i j) = cellAt cells j := by
  rw [cellAt, cellAt, getElem?_eraseIdx_closeUp cells h]

theorem requireColumns_eraseIdx (hi : columnIndex? columns c = some i) {names : List Text}
    (hne : ∀ name ∈ names, sameName name c = false) :
    requireColumns (columns.eraseIdx i) names =
      (requireColumns columns names).map (List.map (closeUp i)) := by
  induction names with
  | nil => rfl
  | cons name more ih =>
      obtain ⟨hname, hmore⟩ := List.forall_mem_cons.mp hne
      rw [requireColumns, requireColumns, requireColumn_eraseIdx hi hname, ih hmore]
      refine bind_map_congr fun j _ => ?_
      cases requireColumns columns more <;> rfl

namespace Condition

variable {filter : Condition}

/-- A condition that does not name the column is checked alike. -/
theorem check_eraseIdx (hi : columnIndex? columns c = some i)
    (hne : ∀ name ∈ filter.columns, sameName name c = false) :
    filter.check (columns.eraseIdx i) = filter.check columns := by
  rw [check, check, requireColumns_eraseIdx hi hne]
  cases requireColumns columns filter.columns <;> rfl

/-- A condition that does not name the column means the same without it. -/
theorem meaning_eraseIdx (hi : columnIndex? columns c = some i) (cells : List Text)
    (hne : ∀ name ∈ filter.columns, sameName name c = false) :
    filter.meaning (columns.eraseIdx i) (cells.eraseIdx i) = filter.meaning columns cells := by
  induction filter with
  | compare name op value =>
      have hname : sameName name c = false := hne name List.mem_cons_self
      rw [meaning, meaning, columnIndex?_eraseIdx hi hname]
      cases hj : columnIndex? columns name with
      | none => rfl
      | some j =>
          have hcell := cellAt_eraseIdx cells (ne_of_columnIndex? hi hname hj)
          simp only [Option.map_some, hcell]
  | both left right ihl ihr =>
      obtain ⟨hl, hr⟩ := List.forall_mem_append.mp hne
      rw [meaning, meaning, ihl hl, ihr hr]
  | either left right ihl ihr =>
      obtain ⟨hl, hr⟩ := List.forall_mem_append.mp hne
      rw [meaning, meaning, ihl hl, ihr hr]

end Condition

end columns

namespace Table

variable {t u : Table} {c : Text} {i : Nat} {filter : Condition} {assignments : List Assignment}

/-! ### Revisions -/

section revisions
variable (hi : columnIndex? t.columns c = some i)
include hi

/-- The same rows are picked without the column. -/
theorem matchingIds_dropColumn (hne : ∀ name ∈ filter.columns, sameName name c = false) :
    (t.dropColumn i).matchingIds filter = t.matchingIds filter := by
  unfold matchingIds
  rw [dropColumn, Condition.check_eraseIdx hi hne]
  cases hcheck : filter.check t.columns with
  | error why => rfl
  | ok _ =>
      have hsuits := Condition.check_eq_ok_iff.mp hcheck
      have hsuits' : filter.Suits (t.columns.eraseIdx i) :=
        Condition.check_eq_ok_iff.mp ((Condition.check_eraseIdx hi hne).trans hcheck)
      change filter.matching _ _ >>= _ = filter.matching _ _ >>= _
      rw [Condition.matching_eq_filter hsuits, Condition.matching_eq_filter hsuits', List.filter_map]
      have hmeaning (r : Row) := Condition.meaning_eraseIdx hi r.cells hne
      simp only [Function.comp_def, hmeaning]
      change Except.ok _ = Except.ok _
      rw [List.map_map]
      rfl

/-- Deleting rows and dropping the column can change places. -/
theorem delete_dropColumn (hne : ∀ name ∈ filter.columns, sameName name c = false) :
    (t.dropColumn i).delete filter = (t.delete filter).map (Option.map (dropColumn · i)) := by
  unfold delete
  rw [matchingIds_dropColumn hi hne]
  refine bind_congr_map fun ids _ => ?_
  split
  · rfl
  · change Except.ok (some (Table.mk _ (List.filter _ (List.map _ _)))) = _
    rw [List.filter_map]
    rfl

/-- The positions that are assigned, without the column. -/
theorem assigned_eraseIdx (hne : ∀ a ∈ assignments, sameName a.column c = false) :
    assigned (t.columns.eraseIdx i) assignments =
      (assigned t.columns assignments).map (List.map fun x => (closeUp i x.1, x.2)) := by
  induction assignments with
  | nil => rfl
  | cons a more ih =>
      obtain ⟨ha, hmore⟩ := List.forall_mem_cons.mp hne
      rw [assigned, assigned]
      refine bind_congr_map fun _ _ => ?_
      rw [requireColumn_eraseIdx hi ha, ih hmore]
      refine bind_map_congr fun j _ => ?_
      cases assigned t.columns more <;> rfl

theorem ne_of_assigned (hne : ∀ a ∈ assignments, sameName a.column c = false)
    {changes : List (Nat × Text)} (h : assigned t.columns assignments = .ok changes) :
    ∀ x ∈ changes, x.1 ≠ i := by
  induction assignments generalizing changes with
  | nil =>
      cases h
      exact fun _ hx => nomatch hx
  | cons a more ih =>
      obtain ⟨ha, hmore⟩ := List.forall_mem_cons.mp hne
      obtain ⟨⟨⟩, -, h⟩ := bind_eq_ok_iff.mp h
      obtain ⟨j, hj, h⟩ := bind_eq_ok_iff.mp h
      obtain ⟨rest, hrest, h⟩ := bind_eq_ok_iff.mp h
      cases h
      exact List.forall_mem_cons.mpr
        ⟨ne_of_columnIndex? hi ha (requireColumn_eq_ok_iff.mp hj), ih hmore hrest⟩

omit hi in
/-- Assigning to other cells and dropping a cell can change places. -/
theorem assign_eraseIdx {changes : List (Nat × Text)} (hne : ∀ x ∈ changes, x.1 ≠ i)
    (cells : List Text) :
    assign (changes.map fun x => (closeUp i x.1, x.2)) (cells.eraseIdx i) =
      (assign changes cells).eraseIdx i := by
  induction changes generalizing cells with
  | nil => rfl
  | cons x more ih =>
      obtain ⟨hx, hmore⟩ := List.forall_mem_cons.mp hne
      change assign _ ((cells.eraseIdx i).set (closeUp i x.1) x.2) =
        (assign more (cells.set x.1 x.2)).eraseIdx i
      rw [set_eraseIdx_closeUp cells x.2 hx, ih hmore]

omit hi in
/-- Overwriting other cells and dropping the column can change places. -/
theorem overwrite_dropColumn {changes : List (Nat × Text)} (hne : ∀ x ∈ changes, x.1 ≠ i) (t : Table)
    (ids : List Nat) :
    (t.dropColumn i).overwrite (changes.map fun x => (closeUp i x.1, x.2)) ids =
      (t.overwrite changes ids).dropColumn i := by
  refine congrArg (Table.mk _) ?_
  change List.map _ (List.map _ _) = List.map _ (List.map _ _)
  rw [List.map_map, List.map_map]
  refine List.map_congr_left fun r _ => ?_
  by_cases hid : r.id ∈ ids <;> simp [hid, assign_eraseIdx hne]

/-- Updating rows and dropping the column can change places. -/
theorem update_dropColumn (ha : ∀ a ∈ assignments, sameName a.column c = false)
    (hne : ∀ name ∈ filter.columns, sameName name c = false) :
    (t.dropColumn i).update assignments filter =
      (t.update assignments filter).map (Option.map (dropColumn · i)) := by
  unfold update
  rw [matchingIds_dropColumn hi hne]
  change assigned (t.columns.eraseIdx i) assignments >>= _ = _
  rw [assigned_eraseIdx hi ha]
  refine bind_map_congr fun changes hchanges => bind_congr_map fun ids _ => ?_
  split
  · rfl
  · have hoverwrite := overwrite_dropColumn (ne_of_assigned hi ha hchanges) t ids
    exact congrArg (fun t' => Except.ok (some t')) hoverwrite

/-- Another column can be added before or after the column is dropped. -/
theorem addColumn_dropColumn (hw : ∀ r ∈ t.rows, r.cells.length = t.columns.length) (name : Text) :
    (t.dropColumn i).addColumn name = (t.addColumn name).dropColumn i := by
  obtain ⟨hlt, -⟩ := List.findIdx?_eq_some_iff_getElem.mp hi
  have hrows : ((t.dropColumn i).addColumn name).rows = ((t.addColumn name).dropColumn i).rows := by
    change (List.map _ (List.map _ _)) = List.map _ (List.map _ _)
    rw [List.map_map, List.map_map]
    refine List.map_congr_left fun r hr => ?_
    have hlt' : i < r.cells.length := by rw [hw r hr]; exact hlt
    simp [List.eraseIdx_append_of_lt_length hlt']
  have hcolumns : ((t.dropColumn i).addColumn name).columns = ((t.addColumn name).dropColumn i).columns := by
    simp [addColumn, dropColumn, List.eraseIdx_append_of_lt_length hlt]
  exact congrArg₂ Table.mk hcolumns hrows

omit hi in
/-- Two columns can be dropped in either order. -/
theorem dropColumn_dropColumn {j : Nat} (h : j ≠ i) :
    (t.dropColumn i).dropColumn (closeUp i j) = (t.dropColumn j).dropColumn (closeUp j i) := by
  have hrows : ((t.dropColumn i).dropColumn (closeUp i j)).rows =
      ((t.dropColumn j).dropColumn (closeUp j i)).rows := by
    change (List.map _ (List.map _ _)) = List.map _ (List.map _ _)
    rw [List.map_map, List.map_map]
    refine List.map_congr_left fun r _ => ?_
    simp [eraseIdx_eraseIdx_closeUp r.cells h]
  exact congrArg₂ Table.mk (eraseIdx_eraseIdx_closeUp t.columns h) hrows

end revisions

/-! ### Two tables side by side -/

/-- The second table is the first one without a column. -/
def Without (c : Text) (t u : Table) : Prop := ∃ i, columnIndex? t.columns c = some i ∧ u = t.dropColumn i

/-- The same error, no new version of either table, or new versions of which the second one is the first
without a column. -/
inductive Parallel (c : Text) : Except Error (Option Table) → Except Error (Option Table) → Prop where
  | error (why : Error) : Parallel c (.error why) (.error why)
  | nothing : Parallel c (.ok none) (.ok none)
  | revised {t u : Table} (h : Without c t u) : Parallel c (.ok (some t)) (.ok (some u))

theorem parallel_map {revised : Except Error (Option Table)}
    (h : ∀ t', revised = .ok (some t') → columnIndex? t'.columns c = some i) :
    Parallel c revised (revised.map (Option.map (dropColumn · i))) := by
  rcases revised with why | _ | t'
  · exact .error why
  · exact .nothing
  · exact .revised ⟨i, h t' rfl, rfl⟩

theorem parallel_delete (h : Without c t u) (hne : ∀ name ∈ filter.columns, sameName name c = false) :
    Parallel c (t.delete filter) (u.delete filter) := by
  obtain ⟨i, hi, rfl⟩ := h
  rw [delete_dropColumn hi hne]
  refine parallel_map fun t' ht' => ?_
  obtain ⟨-, hresult⟩ := delete_eq_ok_iff.mp ht'
  split at hresult
  · cases hresult
  · cases hresult
    exact hi

theorem parallel_update (h : Without c t u) (ha : ∀ a ∈ assignments, sameName a.column c = false)
    (hne : ∀ name ∈ filter.columns, sameName name c = false) :
    Parallel c (t.update assignments filter) (u.update assignments filter) := by
  obtain ⟨i, hi, rfl⟩ := h
  rw [update_dropColumn hi ha hne]
  refine parallel_map fun t' ht' => ?_
  rw [(ids_of_update ht').1.symm] at hi
  exact hi

/-- Adding or dropping another column keeps the tables side by side. -/
theorem parallel_alter (hw : ∀ r ∈ t.rows, r.cells.length = t.columns.length) (h : Without c t u)
    {alteration : Alteration} {name : Text} (hne : sameName name c = false) :
    Parallel c ((t.alter alteration name).map some) ((u.alter alteration name).map some) := by
  obtain ⟨i, hi, rfl⟩ := h
  unfold alter
  cases refuseId name with
  | error why => exact .error why
  | ok _ =>
      have hindex : columnIndex? (t.dropColumn i).columns name =
          (columnIndex? t.columns name).map (closeUp i) := columnIndex?_eraseIdx hi hne
      cases alteration with
      | add =>
          cases hj : columnIndex? t.columns name with
          | some j =>
              rw [hj] at hindex
              simp only [hindex]
              exact .error _
          | none =>
              rw [hj] at hindex
              simp only [hindex]
              refine .revised ⟨i, ?_, addColumn_dropColumn hi hw name⟩
              exact List.findIdx?_append.trans (by rw [show List.findIdx? _ t.columns = some i from hi]; rfl)
      | drop =>
          cases hj : columnIndex? t.columns name with
          | none =>
              rw [hj] at hindex
              simp only [requireColumn, hj, hindex]
              exact .error _
          | some j =>
              rw [hj] at hindex
              simp only [requireColumn, hj, hindex]
              have hji : j ≠ i := ne_of_columnIndex? hi hne hj
              refine .revised ⟨closeUp j i, ?_, dropColumn_dropColumn hji⟩
              have hc : sameName c name = false := by rw [sameName_comm, hne]
              exact (columnIndex?_eraseIdx hj hc).trans (by rw [hi]; rfl)

/-! ### The column itself -/

section column
variable {name : Text}

theorem alter_drop (hid : sameName c idColumn = false) (hi : columnIndex? t.columns c = some i)
    (hname : sameName name c = true) : t.alter .drop name = .ok (t.dropColumn i) := by
  have hid' : sameName name idColumn = false := by
    refine Bool.eq_false_iff.mpr fun h => ?_
    rw [sameName_comm] at hname
    rw [sameName_trans hname h] at hid
    cases hid
  have hrequire : requireColumn t.columns name = .ok i := by
    rw [requireColumn, columnIndex?_congr t.columns hname, hi]
  unfold alter
  rw [refuseId_eq_ok_iff.mpr hid']
  change (requireColumn t.columns name >>= _) = _
  rw [hrequire]
  rfl

variable (hw : t.WellFormed) (hc : ∀ column ∈ t.columns, sameName column c = false)
include hw hc

/-- A column that a table lacks is not the id. -/
theorem ne_idColumn : sameName c idColumn = false := by
  rw [sameName_comm]
  exact hc _ (List.mem_of_head? hw.idFirst)

theorem alter_add : t.alter .add c = .ok (t.addColumn c) := by
  unfold alter
  rw [refuseId_eq_ok_iff.mpr (ne_idColumn hw hc), columnIndex?_eq_none_iff.mpr hc]
  rfl

theorem without_addColumn : Without c (t.addColumn c) t := by
  refine ⟨t.columns.length, ?_, ?_⟩
  · refine List.findIdx?_append.trans ?_
    rw [show List.findIdx? _ t.columns = none from columnIndex?_eq_none_iff.mpr hc]
    simp [sameName_refl]
  · have hrows : t.rows = ((t.addColumn c).dropColumn t.columns.length).rows := by
      change t.rows = List.map _ (List.map _ t.rows)
      rw [List.map_map]
      refine (List.map_id t.rows).symm.trans (List.map_congr_left fun r hr => ?_)
      simp [← hw.width r hr, List.eraseIdx_append_of_length_le]
    refine congrArg₂ Table.mk ?_ hrows
    simp [addColumn, List.eraseIdx_append_of_length_le]

end column

end Table

/-- The columns that a command names by which a table is revised. -/
def Command.revisedColumns : Command → List Text
  | alter _ _ column => [column]
  | update _ assignments filter => assignments.map Assignment.column ++ filter.columns
  | delete _ filter => filter.columns
  | _ => []

/-- **A command that does not name a column** does the same to a table with the column and to the table
without it. -/
theorem Table.parallel_of_revision {t u : Table} {c name : Text} {command : Command}
    {f : Table → Except Error (Option Table)} (hf : command.revision? = some (name, f))
    (hw : ∀ r ∈ t.rows, r.cells.length = t.columns.length) (h : Without c t u)
    (hne : ∀ column ∈ command.revisedColumns, sameName column c = false) :
    Parallel c (f t) (f u) := by
  cases command with
  | alter table alteration column =>
      cases hf
      exact parallel_alter hw h (hne column List.mem_cons_self)
  | update table assignments filter =>
      cases hf
      obtain ⟨hassigned, hfilter⟩ := List.forall_mem_append.mp hne
      exact parallel_update h (fun a ha => hassigned _ (List.mem_map_of_mem ha)) hfilter
  | delete table filter =>
      cases hf
      exact parallel_delete h hne
  | _ => cases hf

/-! ### Worlds side by side -/

/-- The table after a revision: the new version if there is one. -/
def Table.following (t : Table) : Except Error (Option Table) → Table
  | .ok (some t') => t'
  | _ => t

/-- A call of a command by which a table is revised, whoever calls and whichever name is used. -/
structure Call.Revises (root : Text) (w : World Disk) (stored : Stored Path) (t : Table) (call : Call)
    (command : Command) : Prop where
  parse_eq : Command.parse call.input = .ok command
  opens : ∃ name f, command.revision? = some (name, f) ∧
    (call.engine root).openTable (w.sessions call.client) w.store name = .ok (stored, t)

/-- A world in which a file holds a table, and which is otherwise the first one. -/
structure World.Holds (w₀ : World Disk) (p : Path) (t : Table) (w : World Disk) : Prop where
  sessions_eq : w.sessions = w₀.sessions
  store_eq : w₀.store.storeTable p t = (.ok (), w.store)
  wellFormed : t.WellFormed

namespace Table

variable {t u : Table} {c : Text} {revised revised' : Except Error (Option Table)}

theorem Parallel.without (h : Parallel c revised revised') (hw : Without c t u) :
    Without c (t.following revised) (u.following revised') := by
  cases h with
  | error why => exact hw
  | nothing => exact hw
  | revised h => exact h

theorem Parallel.map_eq {α : Type} (h : Parallel c revised revised') (a : α) :
    revised.map (fun _ => a) = revised'.map fun _ => a := by
  cases h <;> rfl

/-- A command that was parsed leaves tables well-formed. -/
theorem WellFormed.following (h : t.WellFormed) {command : Command} (hc : command.Proper) {name : Text}
    {f : Table → Except Error (Option Table)} (hf : command.revision? = some (name, f)) :
    (t.following (f t)).WellFormed := by
  rcases hresult : f t with why | _ | t'
  · exact h
  · exact h
  · exact (wellFormed_of_revises h hc (Command.revises_of_revision hf hresult)).1

end Table

/-- Where a table was stored, the version that follows it is. -/
theorem Disk.IsFile.revise_following {d₀ d : Disk} {p : Path} {t : Table} (h : d₀.IsFile p)
    (hs : d₀.storeTable p t = (.ok (), d)) (session : Session) (revised : Except Error (Option Table)) :
    (d.revise session p revised).result = (revised.map fun _ => none) ∧
      d₀.storeTable p (t.following revised) = (.ok (), (d.revise session p revised).disk) := by
  rcases revised with why | _ | t'
  · exact ⟨rfl, hs⟩
  · exact ⟨rfl, hs⟩
  · obtain ⟨d', hs', hagain⟩ := h.storeTable_again hs t'
    rw [Disk.revise_of_ok hagain]
    exact ⟨rfl, hs'⟩

section runs
variable {root : Text} {w₀ w a b : World Disk} {stored : Stored Path} {t u v : Table} {c : Text}
  {call : Call} {command : Command}

theorem World.sessions_receive {client : Nat} {r : Reply Disk} (h : r.session = w.sessions client) :
    (w.receive client r).sessions = w.sessions := by
  funext n
  by_cases hn : n = client <;> simp [receive, hn, h]

/-- A world in which the table was not revised holds it. -/
theorem World.Holds.refl (hm : w.store.Mirrored root) (hc : call.Revises root w stored t command)
    {d : Disk} (hs : w.store.storeTable stored.key u = (.ok (), d)) : w.Holds stored.key t w := by
  obtain ⟨name, f, -, ho⟩ := hc.opens
  obtain ⟨d', hs', -⟩ := (Disk.isFile_of_openTable ho).storeTable_again hs t
  exact ⟨rfl, by rw [hs', hm.storeTable_self ho hs'], hm.wellFormed ho⟩

/-- **What a call makes of a world** in which the table was revised before: the new version of the table
that is there is put in its place. -/
theorem Call.Revises.following (hm : w₀.store.Mirrored root)
    (hc : call.Revises root w₀ stored t command) :
    ∃ name f, command.revision? = some (name, f) ∧ ∀ {u w}, w₀.Holds stored.key u w →
      (call.onDisk root (w.sessions call.client) w.store).response =
          response ((f u).map fun _ => none) ∧
        (call.onDisk root (w.sessions call.client) w.store).session = w.sessions call.client ∧
        w₀.Holds stored.key (u.following (f u)) (w.step root (.call call)) := by
  obtain ⟨name, f, hf, ho⟩ := hc.opens
  refine ⟨name, f, hf, fun {u w} hw => ?_⟩
  have hopen : (Engine.below root call.listings).openTable (w.sessions call.client) w.store name =
      .ok (stored, u) := by
    rw [hw.sessions_eq]
    exact (hm.of_storeTable ho hw.wellFormed hw.store_eq).2 call.listings
  have hrun := (Call.runText_of_parse hc.parse_eq root (w.sessions call.client) w.store).trans
    (Engine.run_of_openTable hf hopen)
  obtain ⟨hresult, hstore⟩ := (Disk.isFile_of_openTable ho).revise_following hw.store_eq
    (w.sessions call.client) (f u)
  rw [← hrun] at hresult hstore
  have hsession : ((call.engine root).runText (w.sessions call.client) w.store call.input).session =
      w.sessions call.client := by
    rw [hrun]
    exact Disk.session_revise _
  refine ⟨congrArg response hresult, hsession, ?_, hstore, ?_⟩
  · exact (World.sessions_receive hsession).trans hw.sessions_eq
  · exact hw.wellFormed.following (Command.proper_of_parse hc.parse_eq) hf

theorem Call.Revises.holds_of_alter {name column : Text} {alteration : Alteration}
    (hm : w₀.store.Mirrored root) (hc : call.Revises root w₀ stored t (.alter name alteration column))
    (hw : w₀.Holds stored.key u w) (ha : u.alter alteration column = .ok v) :
    w₀.Holds stored.key v (w.step root (.call call)) := by
  obtain ⟨_, f, hf, hstep⟩ := hc.following hm
  cases hf
  obtain ⟨-, -, hholds⟩ := hstep hw
  dsimp only at hholds
  rw [ha] at hholds
  exact hholds

theorem World.Holds.unique (ha : w₀.Holds stored.key u a) (hb : w₀.Holds stored.key u b) : a = b := by
  obtain ⟨sessions, store⟩ := a
  obtain ⟨sessions', store'⟩ := b
  obtain ⟨rfl, hstore, -⟩ := ha
  obtain ⟨rfl, hstore', -⟩ := hb
  cases hstore.symm.trans hstore'
  rfl

/-- **Two worlds side by side** stay so in calls that do not name the column, which are answered alike. -/
theorem World.Holds.replies_alike (hm : w₀.store.Mirrored root) {calls : List Call}
    (hcalls : ∀ call ∈ calls, ∃ command, call.Revises root w₀ stored t command ∧
      ∀ column ∈ command.revisedColumns, sameName column c = false)
    (ha : w₀.Holds stored.key u a) (hb : w₀.Holds stored.key v b) (huv : Table.Without c u v) :
    a.replies (Call.onDisk root) calls = b.replies (Call.onDisk root) calls ∧
      ∃ u' v', w₀.Holds stored.key u' (a.after root (calls.map .call)) ∧
        w₀.Holds stored.key v' (b.after root (calls.map .call)) ∧ Table.Without c u' v' := by
  -- the two tables change from call to call, and that one is the other without the column is kept
  induction calls generalizing a b u v with
  | nil => exact ⟨rfl, u, v, ha, hb, huv⟩
  | cons call more ih =>
      obtain ⟨⟨command, hcall, hne⟩, hmore⟩ := List.forall_mem_cons.mp hcalls
      obtain ⟨name, f, hf, hstep⟩ := hcall.following hm
      obtain ⟨hresponse, hsession, ha'⟩ := hstep ha
      obtain ⟨hresponse', hsession', hb'⟩ := hstep hb
      have hparallel := Table.parallel_of_revision hf ha.wellFormed.width huv hne
      obtain ⟨hreplies, hend⟩ := ih hmore ha' hb' (hparallel.without huv)
      refine ⟨congrArg₂ List.cons (Prod.ext ?_ ?_) hreplies, hend⟩
      · rw [hresponse, hresponse', hparallel.map_eq]
      · rw [hsession, hsession', ha.sessions_eq, hb.sessions_eq]

/-- Where no table can be stored, a call that revises one changes nothing. -/
theorem Call.Revises.step_eq (hc : call.Revises root w stored t command)
    (hfull : ∀ t, ∃ e, w.store.storeTable stored.key t = (.error e, w.store)) :
    w.step root (.call call) = w := by
  obtain ⟨name, f, hf, ho⟩ := hc.opens
  have hrun := (Call.runText_of_parse hc.parse_eq root (w.sessions call.client) w.store).trans
    (Engine.run_of_openTable hf ho)
  have hrevise : (w.store.revise (w.sessions call.client) stored.key (f t)).disk = w.store := by
    rcases f t with why | _ | t'
    · rfl
    · rfl
    · obtain ⟨why, hs⟩ := hfull t'
      rw [Disk.revise_of_error hs]
  have hstore : (w.step root (.call call)).store = w.store := by
    change ((call.engine root).runText _ _ _).disk = _
    rw [hrun, hrevise]
  have hsessions : (w.step root (.call call)).sessions = w.sessions := by
    refine World.sessions_receive ?_
    change ((call.engine root).runText _ _ _).session = _
    rw [hrun]
    exact Disk.session_revise _
  exact congrArg₂ World.mk hsessions hstore

theorem World.after_eq_of_full {calls : List Call}
    (hcalls : ∀ call ∈ calls, ∃ command, call.Revises root w stored t command)
    (hfull : ∀ t, ∃ e, w.store.storeTable stored.key t = (.error e, w.store)) :
    w.after root (calls.map .call) = w := by
  induction calls with
  | nil => rfl
  | cons call more ih =>
      obtain ⟨⟨command, hcall⟩, hmore⟩ := List.forall_mem_cons.mp hcalls
      change (w.step root (.call call)).after root (more.map .call) = w
      rw [hcall.step_eq hfull, ih hmore]

theorem World.replies_append (root : Text) (w : World Disk) (calls more : List Call) :
    w.replies (Call.onDisk root) (calls ++ more) =
      w.replies (Call.onDisk root) calls ++
        (w.after root (calls.map .call)).replies (Call.onDisk root) more := by
  induction calls generalizing w with
  | nil => rfl
  | cons call calls ih => exact congrArg _ (ih _)

/-- **An added column that is dropped again leaves no trace.**  In every state that a run from an empty
root reaches, let a column be added that a table lacks, let any calls follow that revise the table and do
not name the column, and let it be dropped.  The calls in between have the replies that they have without
the column, and in the end the world is the one that they alone lead to. -/
theorem replies_add_drop {d : Disk} (h : d.list (.ofText root) = .ok []) {events : List Event}
    (hw : (World.start d).after root events = w) {add drop : Call} {others : List Call}
    {name name' c' : Text} (hadd : add.Revises root w stored t (.alter name .add c))
    (hothers : ∀ call ∈ others, ∃ command, call.Revises root w stored t command ∧
      ∀ column ∈ command.revisedColumns, sameName column c = false)
    (hdrop : drop.Revises root w stored t (.alter name' .drop c'))
    (hc : ∀ column ∈ t.columns, sameName column c = false) (hc' : sameName c' c = true) :
    (∃ first last, w.replies (Call.onDisk root) (add :: (others ++ [drop])) =
        first :: (w.replies (Call.onDisk root) others ++ [last])) ∧
      w.after root ((add :: (others ++ [drop])).map .call) = w.after root (others.map .call) := by
  have hm : w.store.Mirrored root := hw ▸ Disk.Mirrored.after h events
  -- it is enough to compare the calls in between, and where the last call leads
  suffices hsuff : (w.step root (.call add)).replies (Call.onDisk root) others =
        w.replies (Call.onDisk root) others ∧
      ((w.step root (.call add)).after root (others.map .call)).step root (.call drop) =
        w.after root (others.map .call) by
    obtain ⟨hreplies, hafter⟩ := hsuff
    have happend := World.replies_append root (w.step root (.call add)) others [drop]
    rw [hreplies] at happend
    refine ⟨⟨_, _, congrArg _ happend⟩, ?_⟩
    rw [List.map_cons, List.map_append]
    exact List.foldl_append.trans hafter
  obtain ⟨addName, f, hf, ho⟩ := hadd.opens
  cases hf
  rcases (Disk.isFile_of_openTable ho).storeTable_cases with hfull | hroom
  · -- nothing is changed by any of the calls
    have hothers' := World.after_eq_of_full (fun call hcall => (hothers call hcall).imp fun _ h => h.1) hfull
    rw [hadd.step_eq hfull, hothers', hdrop.step_eq hfull]
    exact ⟨rfl, rfl⟩
  · obtain ⟨_, hs, -⟩ := hroom t
    have hstart : w.Holds stored.key t w := .refl hm hadd hs
    have hfirst := hadd.holds_of_alter hm hstart (Table.alter_add hstart.wellFormed hc)
    obtain ⟨hreplies, u, v, hu, hv, i, hi, rfl⟩ := hfirst.replies_alike hm hothers hstart
      (Table.without_addColumn hstart.wellFormed hc)
    have hid := Table.ne_idColumn hstart.wellFormed hc
    exact ⟨hreplies, (hdrop.holds_of_alter hm hu (Table.alter_drop hid hi hc')).unique hv⟩

end runs

/-- Adds a column. -/
def addNote : Call := .of 0 "ALTER TABLE t ADD note;"

/-- Drops it. -/
def dropNote : Call := .of 0 "ALTER TABLE T DROP NOTE;"

/-- Columns come and go on both sides of it; the last but one of the calls fails. -/
def otherRevisions : List Call :=
  [.of 0 "ALTER TABLE T ADD y;", .of 0 "UPDATE t SET Y = 'c', N = 7 WHERE n > 1;",
    .of 0 "ALTER TABLE t DROP x;", .of 0 "DELETE FROM t WHERE x == 'a';",
    .of 0 "DELETE FROM t WHERE (n == 1) OR (y == 'b');"]

theorem replies_add_drop_note :
    (∃ first last,
      filledWorld.replies (Call.onDisk "data".toList) (addNote :: (otherRevisions ++ [dropNote])) =
        first :: (filledWorld.replies (Call.onDisk "data".toList) otherRevisions ++ [last])) ∧
      filledWorld.after "data".toList ((addNote :: (otherRevisions ++ [dropNote])).map .call) =
        filledWorld.after "data".toList (otherRevisions.map .call) ∧
      (filledWorld.after "data".toList (otherRevisions.map .call)).store.look
          ["data".toList, "shop".toList, "t.tab".toList] =
        some (some (Text.toBytes "id\tn\ty\n2\t7\tc\n3\t7\tc\n".toList)) := by
  have hsession : filledWorld.sessions 0 = ⟨some "shop".toList⟩ := by decide +kernel
  have hopen {name : Text} (hn : sameName "t".toList name = true) :
      keptEngine.openTable (filledWorld.sessions 0) filledWorld.store name =
        .ok (filledStored, filledTable) := by
    rw [hsession]
    exact openTable_filledWorld hn
  have hadd : addNote.Revises "data".toList filledWorld filledStored filledTable
      (.alter "t".toList .add "note".toList) :=
    ⟨by decide +kernel, _, _, rfl, hopen (by decide)⟩
  have hdrop : dropNote.Revises "data".toList filledWorld filledStored filledTable
      (.alter "T".toList .drop "NOTE".toList) :=
    ⟨by decide +kernel, _, _, rfl, hopen (by decide)⟩
  have hothers : ∀ call ∈ otherRevisions, ∃ command,
      call.Revises "data".toList filledWorld filledStored filledTable command ∧
        ∀ column ∈ command.revisedColumns, sameName column "note".toList = false := by
    intro call hcall
    unfold otherRevisions at hcall
    simp only [List.mem_cons, List.not_mem_nil, or_false] at hcall
    rcases hcall with rfl | rfl | rfl | rfl | rfl
    · exact ⟨.alter "T".toList .add "y".toList, ⟨by decide +kernel, _, _, rfl, hopen (by decide)⟩, by decide⟩
    · exact ⟨.update "t".toList
        [⟨"Y".toList, .quoted "c".toList⟩, ⟨"N".toList, .number "7".toList⟩]
        (.compare "n".toList .greater (.number "1".toList)),
        ⟨by decide +kernel, _, _, rfl, hopen (by decide)⟩, by decide⟩
    · exact ⟨.alter "t".toList .drop "x".toList, ⟨by decide +kernel, _, _, rfl, hopen (by decide)⟩, by decide⟩
    · exact ⟨.delete "t".toList (.compare "x".toList .equal (.quoted "a".toList)),
        ⟨by decide +kernel, _, _, rfl, hopen (by decide)⟩, by decide⟩
    · exact ⟨.delete "t".toList (.either (.compare "n".toList .equal (.number "1".toList))
        (.compare "y".toList .equal (.quoted "b".toList))),
        ⟨by decide +kernel, _, _, rfl, hopen (by decide)⟩, by decide⟩
  have hempty : exampleDisk.list (.ofText "data".toList) = .ok [] := rfl
  have hw : (World.start exampleDisk).after "data".toList fillingRun = filledWorld := rfl
  obtain ⟨hreplies, hafter⟩ := replies_add_drop hempty hw hadd hothers hdrop (by decide) (by decide)
  exact ⟨hreplies, hafter, by decide +kernel⟩

end FlatDb
