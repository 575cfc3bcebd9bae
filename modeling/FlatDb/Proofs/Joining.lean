import FlatDb.Proofs.Selecting
import Mathlib.Algebra.BigOperators.Group.Finset.Basic
import Mathlib.Data.Multiset.Bind

/-! # Joining tables

A `JOIN` opens two tables, which may be the same, and compares the cells of a column of each.

* `Table.pairs` are the pairs of rows with equal keys, in lexicographic order.  Their number is counted key
  by key (`length_pairs`), and from the other side they are the same pairs (`pairs_swap`).
* `beside` is what a header or a row holds beside the id and the key.
* `outcome_join`: **a join answers with one row for each pair**, numbered from 1, under headers that are
  put together in the same way as the rows. -/

namespace FlatDb

open Text

/-! ### Pairs with equal keys -/

section pairs
variable {α β κ : Type} [DecidableEq κ] {f : α → κ} {g : β → κ}

/-- Equal keys are counted key by key. -/
theorem length_filter_product [BEq κ] [LawfulBEq κ] (as : List α) (bs : List β) :
    ((as ×ˢ bs).filter fun x => f x.1 = g x.2).length =
      ∑ v ∈ (as.map f).toFinset, (as.map f).count v * (bs.map g).count v := by
  have hrow (a : α) : ((bs.map (Prod.mk a)).filter fun x => f x.1 = g x.2).length =
      (bs.map g).count (f a) := by
    rw [← List.countP_eq_length_filter, List.countP_map, List.count, List.countP_map]
    refine List.countP_congr fun b _ => ?_
    simp only [Function.comp_apply, decide_eq_true_eq, beq_iff_eq]
    exact eq_comm
  have hsum : ((as ×ˢ bs).filter fun x => f x.1 = g x.2).length =
      ((as.map f).map fun v => (bs.map g).count v).sum := by
    induction as with
    | nil => rfl
    | cons a more ih =>
        rw [List.product_cons, List.filter_append, List.length_append, hrow, ih]
        rfl
  rw [hsum, Finset.sum_list_map_count]
  refine Finset.sum_congr rfl fun v _ => ?_
  -- the sum counts with the equality that is decided, the keys with their own
  have hcount : @List.count κ instBEqOfDecidableEq v (as.map f) = (as.map f).count v :=
    List.countP_congr fun _ _ => by simp only [beq_iff_eq]
  rw [hcount]
  rfl

/-- The pairs with equal keys are the same from either side. -/
theorem filter_product_swap (as : List α) (bs : List β) :
    (((bs ×ˢ as).filter fun x => g x.1 = f x.2).map Prod.swap).Perm
      ((as ×ˢ bs).filter fun x => f x.1 = g x.2) := by
  have hswap : ((bs ×ˢ as).map Prod.swap).Perm (as ×ˢ bs) := by
    rw [← Multiset.coe_eq_coe, ← Multiset.map_coe, ← Multiset.coe_product, ← Multiset.coe_product]
    exact Multiset.map_swap_product _ _
  have hkeys : ((bs ×ˢ as).filter fun x => g x.1 = f x.2).map Prod.swap =
      ((bs ×ˢ as).map Prod.swap).filter fun x => f x.1 = g x.2 := by
    rw [List.filter_map]
    refine congrArg (List.map Prod.swap) (List.filter_congr fun x _ => ?_)
    simp only [Function.comp_apply, Prod.fst_swap, Prod.snd_swap, decide_eq_decide]
    exact eq_comm
  rw [hkeys]
  exact hswap.filter _

end pairs

namespace Table

variable {l r t : Table} {i j : Nat}

/-- The pairs of rows with equal keys, in lexicographic order. -/
def pairs (l r : Table) (i j : Nat) : List (Row × Row) :=
  (l.rows ×ˢ r.rows).filter fun x => cellAt x.1.cells i = cellAt x.2.cells j

/-- The keys of all rows. -/
def keys (t : Table) (i : Nat) : List Text := t.rows.map fun r => cellAt r.cells i

theorem length_pairs (l r : Table) (i j : Nat) :
    (l.pairs r i j).length = ∑ v ∈ (l.keys i).toFinset, (l.keys i).count v * (r.keys j).count v :=
  length_filter_product (f := fun x : Row => cellAt x.cells i) (g := fun y : Row => cellAt y.cells j)
    l.rows r.rows

theorem pairs_swap (l r : Table) (i j : Nat) : ((r.pairs l j i).map Prod.swap).Perm (l.pairs r i j) :=
  filter_product_swap (f := fun x : Row => cellAt x.cells i) (g := fun y : Row => cellAt y.cells j)
    l.rows r.rows

/-! ### Cells beside the key -/

/-- What stands at the positions other than the first one and the key. -/
def beside (key : Nat) (cells : List Text) : List Text :=
  (cells.zipIdx.filter fun x => x.2 ≠ 0 ∧ x.2 ≠ key).map Prod.fst

theorem zipIdx_eq_map_range (cells : List Text) :
    cells.zipIdx = (List.range cells.length).map fun n => (cellAt cells n, n) := by
  refine List.ext_getElem (by simp) fun n hn _ => ?_
  have hlt : n < cells.length := by simpa using hn
  simp [cellAt, hlt]

theorem project_carried (key : Nat) {cells : List Text} (h : cells.length = t.columns.length) :
    project (t.carried key) cells = beside key cells := by
  rw [beside, zipIdx_eq_map_range, List.filter_map, List.map_map, h]
  rfl

/-- The number of cells beside the key depends on nothing but the number of cells. -/
theorem length_beside (key : Nat) {cells columns : List Text} (h : cells.length = columns.length) :
    (beside key cells).length = (beside key columns).length := by
  rw [beside, beside, zipIdx_eq_map_range, zipIdx_eq_map_range, List.filter_map, List.filter_map, h]
  simp [Function.comp_def]

theorem joinedCells_eq_map (hl : l.Readable) (hr : r.Readable) (i j : Nat) :
    joinedCells l r i j = (l.pairs r i j).map fun x => beside i x.1.cells ++ beside j x.2.cells := by
  have hproduct : l.rows ×ˢ r.rows = l.rows.flatMap fun x => r.rows.map (Prod.mk x) := rfl
  rw [joinedCells, pairs, hproduct, List.filter_flatMap, List.map_flatMap]
  refine List.flatMap_congr fun x hx => ?_
  rw [List.filter_map, List.map_map]
  refine List.map_congr_left fun y hy => ?_
  rw [project_carried i (hl.width x hx), project_carried j (hr.width y (List.mem_filter.mp hy).1)]
  rfl

/-! ### Result sets -/

/-- The name of a column in a result set of two tables. -/
def qualified (table column : Text) : Text := table ++ '.' :: column

/-- What two tables are joined to. -/
def joined (leftName : Text) (l : Table) (rightName : Text) (r : Table) (i j : Nat) : ResultSet where
  columns := idColumn ::
    ((beside i l.columns).map (qualified leftName) ++ (beside j r.columns).map (qualified rightName))
  rows := ((l.pairs r i j).zipIdx 1).map fun (x, n) =>
    .ofNat n :: (beside i x.1.cells ++ beside j x.2.cells)

/-- **Joining** two tables with key columns. -/
theorem join_eq_joined (hl : l.Readable) (hr : r.Readable) {leftName rightName a b : Text}
    (hi : columnIndex? l.columns a = some i) (hj : columnIndex? r.columns b = some j) :
    join leftName l rightName r a b = .ok (joined leftName l rightName r i j) := by
  unfold join
  rw [requireColumn_eq_ok_iff.mpr hi, requireColumn_eq_ok_iff.mpr hj]
  change Except.ok _ = Except.ok _
  rw [joinedCells_eq_map hl hr, List.zipIdx_map, List.map_map, carriedColumns, carriedColumns,
    project_carried i rfl, project_carried j rfl]
  rfl

/-- The cells of each row stand under a header of their own. -/
theorem length_of_mem_joined (hl : l.Readable) (hr : r.Readable) {leftName rightName : Text}
    {row : List Text} (h : row ∈ (joined leftName l rightName r i j).rows) :
    row.length = (joined leftName l rightName r i j).columns.length := by
  obtain ⟨⟨x, n⟩, hx, rfl⟩ := List.mem_map.mp h
  have hpair := (List.mem_filter.mp (List.fst_mem_of_mem_zipIdx hx)).1
  obtain ⟨hleft, hright⟩ := List.mem_product.mp hpair
  simp [joined, length_beside i (hl.width x.1 hleft), length_beside j (hr.width x.2 hright)]

/-- The rows of a join fall apart into what they carry from the left and from the right. -/
theorem map_splitAt_joined (hl : l.Readable) (leftName rightName : Text) (r : Table) (i j : Nat) :
    (joined leftName l rightName r i j).rows.map
        (fun row => row.tail.splitAt (beside i l.columns).length) =
      (l.pairs r i j).map fun x => (beside i x.1.cells, beside j x.2.cells) := by
  have hrow : ∀ x ∈ (l.pairs r i j).zipIdx 1,
      (beside i x.1.1.cells ++ beside j x.1.2.cells).splitAt (beside i l.columns).length =
        (beside i x.1.1.cells, beside j x.1.2.cells) := by
    intro x hx
    have hpair := (List.mem_filter.mp (List.fst_mem_of_mem_zipIdx hx)).1
    rw [← length_beside i (hl.width x.1.1 (List.mem_product.mp hpair).1), List.splitAt_eq,
      List.take_left, List.drop_left]
  have hfst : (l.pairs r i j).map (fun x => (beside i x.1.cells, beside j x.2.cells)) =
      ((l.pairs r i j).zipIdx 1).map fun x => (beside i x.1.1.cells, beside j x.1.2.cells) := by
    conv_lhs => rw [← List.zipIdx_map_fst 1 (l.pairs r i j), List.map_map]
    rfl
  rw [hfst, joined, List.map_map]
  exact List.map_congr_left hrow

end Table

/-! ### Any disk -/

/-- The tables of two names in the selected database, with what they hold. -/
def Catalog.openTables {κ : Type} (catalog : Catalog κ) (selected : Option Text) (left right : Text) :
    Except Error ((Stored κ × Table) × (Stored κ × Table)) := do
  let database ← catalog.selected selected
  let l ← catalog.loadTable 0 database left
  let r ← catalog.loadTable 1 database right
  return (l, r)

/-- A join is planned by opening both tables first. -/
theorem Command.planJoin_eq_openTables {κ : Type} (catalog : Catalog κ) (session : Session)
    (left right a b : Text) :
    planJoin catalog session left right a b =
      catalog.openTables session.database left right >>= fun x =>
        (Table.join x.1.1.name x.1.2 x.2.1.name x.2.2 a b).map (Plan.answer session) := by
  unfold planJoin Catalog.openTables
  cases catalog.selected session.database with
  | error why => rfl
  | ok database =>
      cases hl : catalog.loadTable 0 database left with
      | error why => simp only [hl, bind, Except.bind]
      | ok x =>
          cases hr : catalog.loadTable 1 database right with
          | error why => simp only [hl, hr, bind, Except.bind]
          | ok y =>
              simp only [hl, hr, bind, Except.bind, pure, Except.pure]
              cases Table.join x.1.name x.2 y.1.name y.2 a b <;> rfl

section join
variable {e : Engine} {session : Session} {d : Disk} {left right a b : Text}
  {leftStored rightStored : Stored Path} {l r : Table} {i j : Nat}

/-- The tables that a session means by two names, with what they hold. -/
def Engine.openTables (e : Engine) (session : Session) (d : Disk) (left right : Text) :
    Except Error ((Stored Path × Table) × (Stored Path × Table)) :=
  (d.catalog e.order e.root).openTables session.database left right

/-- What is opened is readable. -/
theorem Engine.readable_of_openTables
    (ho : e.openTables session d left right = .ok ((leftStored, l), (rightStored, r))) :
    l.Readable ∧ r.Readable := by
  obtain ⟨database, -, ho⟩ := bind_eq_ok_iff.mp ho
  obtain ⟨x, hx, ho⟩ := bind_eq_ok_iff.mp ho
  obtain ⟨y, hy, ho⟩ := bind_eq_ok_iff.mp ho
  cases ho
  exact ⟨Disk.readable_of_readTable (Catalog.loadTable_eq_ok_iff.mp hx).2,
    Disk.readable_of_readTable (Catalog.loadTable_eq_ok_iff.mp hy).2⟩

/-- A join of tables that can be opened changes nothing. -/
theorem Engine.run_join (ho : e.openTables session d left right = .ok ((leftStored, l), (rightStored, r)))
    (hi : columnIndex? l.columns a = some i) (hj : columnIndex? r.columns b = some j) :
    e.run session d (.join left right a b) =
      ⟨.ok (some (Table.joined leftStored.name l rightStored.name r i j)), session, d⟩ := by
  obtain ⟨hl, hr⟩ := readable_of_openTables ho
  have hplan : (Command.join left right a b).plan (d.catalog e.order e.root) session =
      .ok (.answer session (Table.joined leftStored.name l rightStored.name r i j)) := by
    change Command.planJoin _ _ _ _ _ _ = _
    rw [Command.planJoin_eq_openTables]
    change e.openTables session d left right >>= _ = _
    rw [ho]
    change (Table.join leftStored.name l rightStored.name r a b).map _ = _
    rw [Table.join_eq_joined hl hr hi hj]
    rfl
  unfold run
  rw [hplan]
  rfl

/-- **What a join answers**, whatever wrote the files.  There is one row for each pair of rows with equal
keys, in lexicographic order, so their number is counted key by key.  The rows are numbered from 1, and
carry what stands beside the ids and the keys, as does the header.  Joined the other way round, the tables
have the same pairs of cells from the left and from the right, each as often as before. -/
theorem outcome_join
    (ho : e.openTables session d left right = .ok ((leftStored, l), (rightStored, r)))
    (hi : columnIndex? l.columns a = some i) (hj : columnIndex? r.columns b = some j) :
    ∃ result, e.run session d (.join left right a b) = ⟨.ok (some result), session, d⟩ ∧
      result.columns = idColumn :: ((Table.beside i l.columns).map (Table.qualified leftStored.name) ++
        (Table.beside j r.columns).map (Table.qualified rightStored.name)) ∧
      result.rows = ((l.pairs r i j).zipIdx 1).map (fun (x, n) =>
        ofNat n :: (Table.beside i x.1.cells ++ Table.beside j x.2.cells)) ∧
      (∀ row ∈ result.rows, row.length = result.columns.length) ∧
      result.rows.length = ∑ v ∈ (l.keys i).toFinset, (l.keys i).count v * (r.keys j).count v ∧
      ∀ (e' : Engine) (session' : Session) (d' : Disk) (left' right' : Text) (leftStored' rightStored'),
        e'.openTables session' d' right' left' = .ok ((rightStored', r), (leftStored', l)) →
        ∃ swapped, e'.run session' d' (.join right' left' b a) = ⟨.ok (some swapped), session', d'⟩ ∧
          (swapped.rows.map fun row =>
              (row.tail.splitAt (Table.beside j r.columns).length).swap).Perm
            (result.rows.map fun row => row.tail.splitAt (Table.beside i l.columns).length) := by
  obtain ⟨hl, hr⟩ := Engine.readable_of_openTables ho
  refine ⟨_, Engine.run_join ho hi hj, rfl, rfl, fun row hrow => ?_, ?_, ?_⟩
  · exact Table.length_of_mem_joined hl hr hrow
  · rw [← Table.length_pairs]
    simp [Table.joined]
  · intro e' session' d' left' right' leftStored' rightStored' ho'
    refine ⟨_, Engine.run_join ho' hj hi, ?_⟩
    have hright := Table.map_splitAt_joined hr rightStored'.name leftStored'.name l j i
    have hswapped := congrArg (List.map Prod.swap) hright
    rw [List.map_map, List.map_map] at hswapped
    rw [Table.map_splitAt_joined hl]
    refine (List.Perm.of_eq hswapped).trans ?_
    have hpairs := (l.pairs_swap r i j).map fun x => (Table.beside i x.1.cells, Table.beside j x.2.cells)
    rwa [List.map_map] at hpairs

end join

/-- A disk with two tables.  In one of them the key comes before another column, and a key of two rows is
a key of two rows of the other table. -/
def ordersDisk : Disk :=
  .directory [("data".toList, .directory [("d".toList, .directory
    [("people.tab".toList, .file (Text.toBytes "id\tname\tage\n1\ta\t30\n2\tb\t31\n3\ta\t32\n".toList)),
      ("orders.tab".toList, .file (Text.toBytes "id\titem\twho\n1\tx\ta\n4\ty\tc\n5\tz\ta\n".toList))])])]

theorem outcome_join_ordersDisk :
    ∃ people orders l r,
      keptEngine.openTables ⟨some "d".toList⟩ ordersDisk "People".toList "orders".toList =
          .ok ((people, l), (orders, r)) ∧
        keptEngine.openTables ⟨some "d".toList⟩ ordersDisk "orders".toList "People".toList =
          .ok ((orders, r), (people, l)) ∧
        columnIndex? l.columns "NAME".toList = some 1 ∧ columnIndex? r.columns "who".toList = some 2 ∧
        ∃ result swapped,
          (keptEngine.run ⟨some "d".toList⟩ ordersDisk
            (.join "People".toList "orders".toList "NAME".toList "who".toList)).result =
              .ok (some result) ∧
          result.columns = ["id".toList, "people.age".toList, "orders.item".toList] ∧
          result.rows = [["1".toList, "30".toList, "x".toList], ["2".toList, "30".toList, "z".toList],
            ["3".toList, "32".toList, "x".toList], ["4".toList, "32".toList, "z".toList]] ∧
          (keptEngine.run ⟨some "d".toList⟩ ordersDisk
            (.join "orders".toList "People".toList "who".toList "NAME".toList)).result =
              .ok (some swapped) ∧
          (swapped.rows.map fun row => (row.tail.splitAt 1).swap).Perm
            (result.rows.map fun row => row.tail.splitAt 1) := by
  let people : Stored Path := ⟨"people".toList, ⟨"data".toList, ["d".toList, "people.tab".toList]⟩⟩
  let orders : Stored Path := ⟨"orders".toList, ⟨"data".toList, ["d".toList, "orders.tab".toList]⟩⟩
  let l : Table := ⟨["id".toList, "name".toList, "age".toList],
    [⟨1, ["1".toList, "a".toList, "30".toList]⟩, ⟨2, ["2".toList, "b".toList, "31".toList]⟩,
      ⟨3, ["3".toList, "a".toList, "32".toList]⟩]⟩
  let r : Table := ⟨["id".toList, "item".toList, "who".toList],
    [⟨1, ["1".toList, "x".toList, "a".toList]⟩, ⟨4, ["4".toList, "y".toList, "c".toList]⟩,
      ⟨5, ["5".toList, "z".toList, "a".toList]⟩]⟩
  have ho : keptEngine.openTables ⟨some "d".toList⟩ ordersDisk "People".toList "orders".toList =
      .ok ((people, l), (orders, r)) := by
    decide +kernel
  have ho' : keptEngine.openTables ⟨some "d".toList⟩ ordersDisk "orders".toList "People".toList =
      .ok ((orders, r), (people, l)) := by
    decide +kernel
  have hi : columnIndex? l.columns "NAME".toList = some 1 := by decide
  have hj : columnIndex? r.columns "who".toList = some 2 := by decide
  obtain ⟨result, hrun, hcolumns, hrows, -, -, hswap⟩ := outcome_join ho hi hj
  obtain ⟨swapped, hswapped, hperm⟩ := hswap _ _ _ _ _ _ _ ho'
  refine ⟨people, orders, l, r, ho, ho', hi, hj, result, swapped, ?_, ?_, ?_, ?_, hperm⟩
  · rw [hrun]
  · rw [hcolumns]
    decide +kernel
  · rw [hrows]
    decide +kernel
  · rw [hswapped]

end FlatDb
