import FlatDb.Disk.Tree

/-! # Places in a tree

What stands at a place of a disk, before and after the entries of a directory are altered.

* `Node.look` says what a reader sees at a place: nothing, a directory, or a file with its bytes.
* `alter_alter`, `alter_congr` and `alter_child` reduce any change to one change of the entries of
  one directory, and `entriesAt_alter` says what that directory holds afterwards.
* `look_alter`: **where a change of one entry is not seen**, that is everywhere but at the entry and
  below it. -/

namespace FlatDb.Node

/-! ### Looking -/

/-- What a reader sees at a place: nothing, a directory, or a file with its bytes. -/
def look (d : Disk) (place : Place) : Option (Option ByteArray) :=
  match d.find place with
  | .ok (.file bytes) => some (some bytes)
  | .ok (.directory _) => some none
  | .error _ => none

theorem entriesAt_eq_ok_iff {d : Disk} {place : Place} {entries : List (Text × Node)} :
    d.entriesAt place = .ok entries ↔ d.find place = .ok (.directory entries) := by
  unfold entriesAt
  split <;> simp_all

theorem look_eq_directory_iff {d : Disk} {place : Place} :
    d.look place = some none ↔ ∃ entries, d.entriesAt place = .ok entries := by
  unfold look entriesAt
  split <;> simp_all

theorem find_directory_cons (entries : List (Text × Node)) (name : Text) (more : Place) :
    (directory entries).find (name :: more) =
      if maxNameSize < name.size then .error .nameTooLong
      else match entries.lookup name with
        | none => .error .missing
        | some node => node.find more := by
  cases h : entries.lookup name <;> simp only [find, h]

theorem look_directory_cons (entries : List (Text × Node)) (name : Text) (more : Place) :
    (directory entries).look (name :: more) =
      if maxNameSize < name.size then none
      else match entries.lookup name with
        | none => none
        | some node => node.look more := by
  unfold look
  rw [find_directory_cons]
  by_cases hn : maxNameSize < name.size
  · simp [hn]
  · cases entries.lookup name <;> simp [hn]

theorem find_append (d : Disk) (p q : Place) :
    d.find (p ++ q) = (d.find p).bind fun node => node.find q := by
  induction p generalizing d with
  | nil =>
      cases d <;> simp [find, Except.bind]
  | cons name more ih =>
      cases d with
      | file bytes => simp [find, Except.bind]
      | directory entries =>
          rw [List.cons_append, find_directory_cons, find_directory_cons]
          split
          · rfl
          · cases entries.lookup name with
            | none => rfl
            | some node => exact ih node

/-- An entry of a directory. -/
theorem find_child {d : Disk} {dir : Place} {entries : List (Text × Node)}
    (h : d.entriesAt dir = .ok entries) (name : Text) :
    d.find (dir ++ [name]) =
      if maxNameSize < name.size then .error .nameTooLong
      else match entries.lookup name with
        | none => .error .missing
        | some node => .ok node := by
  rw [find_append, entriesAt_eq_ok_iff.mp h]
  change (directory entries).find [name] = _
  rw [find_directory_cons]
  cases entries.lookup name <;> simp [find]

theorem entriesAt_child_iff {d : Disk} {dir : Place} {entries below : List (Text × Node)}
    {name : Text} (h : d.entriesAt dir = .ok entries) :
    d.entriesAt (dir ++ [name]) = .ok below ↔
      name.size ≤ maxNameSize ∧ entries.lookup name = some (.directory below) := by
  rw [entriesAt_eq_ok_iff, find_child h]
  by_cases hn : maxNameSize < name.size
  · simp [hn, Nat.not_le.mpr hn]
  · cases entries.lookup name <;> simp [hn, Nat.le_of_not_lt hn]

/-! ### Altering -/

variable {f g : List (Text × Node) → List (Text × Node)}

theorem find_alter_self (f : List (Text × Node) → List (Text × Node)) (dir : Place) (d : Disk) :
    (alter f dir d).find dir = (d.find dir).map (alter f []) := by
  induction dir generalizing d with
  | nil => cases d <;> simp [alter, find, Except.map]
  | cons name more ih =>
      cases d with
      | file bytes => simp [alter, find, Except.map]
      | directory entries =>
          rw [find_directory_cons]
          cases hl : entries.lookup name with
          | none =>
              rw [alter, hl, find_directory_cons, hl]
              split <;> rfl
          | some node =>
              rw [alter, hl, find_directory_cons, Entries.lookup_set, if_pos rfl]
              split
              · rfl
              · exact ih node

/-- The entries of an altered directory. -/
theorem entriesAt_alter {d : Disk} {dir : Place} {entries : List (Text × Node)}
    (h : d.entriesAt dir = .ok entries) : (alter f dir d).entriesAt dir = .ok (f entries) := by
  rw [entriesAt_eq_ok_iff, find_alter_self, entriesAt_eq_ok_iff.mp h]
  rfl

theorem alter_alter (f g : List (Text × Node) → List (Text × Node)) (dir : Place) (d : Disk) :
    alter g dir (alter f dir d) = alter (g ∘ f) dir d := by
  induction dir generalizing d with
  | nil => cases d <;> simp [alter]
  | cons name more ih =>
      cases d with
      | file bytes => simp [alter]
      | directory entries =>
          cases hl : entries.lookup name with
          | none => simp [alter, hl]
          | some node => simp [alter, hl, Entries.lookup_set, Entries.set_set, ih]

/-- An alteration depends on the entries that are there. -/
theorem alter_congr {d : Disk} {dir : Place} {entries : List (Text × Node)}
    (h : d.entriesAt dir = .ok entries) (hf : f entries = g entries) :
    alter f dir d = alter g dir d := by
  rw [entriesAt_eq_ok_iff] at h
  induction dir generalizing d with
  | nil =>
      cases d with
      | file bytes => rfl
      | directory es =>
          rw [find, Except.ok.injEq, directory.injEq] at h
          simp [alter, h, hf]
  | cons name more ih =>
      cases d with
      | file bytes => rfl
      | directory es =>
          rw [find_directory_cons] at h
          split at h
          · cases h
          · cases hl : es.lookup name with
            | none => simp [alter, hl]
            | some node =>
                rw [hl] at h
                simp [alter, hl, ih h]

theorem alter_id (dir : Place) (d : Disk) : alter id dir d = d := by
  induction dir generalizing d with
  | nil => cases d <;> simp [alter]
  | cons name more ih =>
      cases d with
      | file bytes => simp [alter]
      | directory entries =>
          cases hl : entries.lookup name with
          | none => simp [alter, hl]
          | some node => simp [alter, hl, ih, Entries.set_self hl]

theorem alter_of_eq {d : Disk} {dir : Place} {entries : List (Text × Node)}
    (h : d.entriesAt dir = .ok entries) (hf : f entries = entries) : alter f dir d = d := by
  rw [alter_congr (g := id) h hf, alter_id]

/-- Where nothing is, nothing is altered. -/
theorem alter_of_missing {d : Disk} {dir : Place} (h : d.find dir = .error .missing) :
    alter f dir d = d := by
  induction dir generalizing d with
  | nil => cases d <;> cases h
  | cons name more ih =>
      cases d with
      | file bytes => rfl
      | directory es =>
          rw [find_directory_cons] at h
          split at h
          · cases h
          · cases hl : es.lookup name with
            | none => simp [alter, hl]
            | some node =>
                rw [hl] at h
                simp [alter, hl, ih h, Entries.set_self hl]

/-- Entries with an alteration of the directory under a name. -/
def alterIn (f : List (Text × Node) → List (Text × Node)) (name : Text)
    (entries : List (Text × Node)) : List (Text × Node) :=
  match entries.lookup name with
  | none => entries
  | some node => Entries.set name (alter f [] node) entries

/-- An alteration of a directory is one of the directory above it. -/
theorem alter_child (f : List (Text × Node) → List (Text × Node)) (dir : Place) (name : Text)
    (d : Disk) : alter f (dir ++ [name]) d = alter (alterIn f name) dir d := by
  induction dir generalizing d with
  | nil =>
      cases d with
      | file bytes => simp [alter]
      | directory entries =>
          cases hl : entries.lookup name <;> simp [alter, alterIn, hl]
  | cons a more ih =>
      cases d with
      | file bytes => simp [alter]
      | directory entries =>
          cases hl : entries.lookup a <;> simp [alter, hl, ih]

/-! ### What is not seen of a change -/

/-- A change of a list of entries that leaves all entries but one as they are. -/
def ChangesOnly (name : Text) (f : List (Text × Node) → List (Text × Node)) : Prop :=
  ∀ entries n, n ≠ name → (f entries).lookup n = entries.lookup n

theorem changesOnly_set (name : Text) (node : Node) :
    ChangesOnly name (Entries.set name node) := by
  intro entries n hn
  rw [Entries.lookup_set, if_neg hn]

theorem changesOnly_erase (name : Text) : ChangesOnly name (Entries.erase name) := by
  intro entries n hn
  rw [Entries.lookup_erase, if_neg hn]

theorem changesOnly_alterIn (f : List (Text × Node) → List (Text × Node)) (name : Text) :
    ChangesOnly name (alterIn f name) := by
  intro entries n hn
  unfold alterIn
  split
  · rfl
  · rw [Entries.lookup_set, if_neg hn]

/-- **Where a change of one entry is not seen**: everywhere but at the entry and below it. -/
theorem look_alter {name : Text} (hf : ChangesOnly name f) {dir place : Place}
    (hp : ¬ dir ++ [name] <+: place) (d : Disk) : (alter f dir d).look place = d.look place := by
  induction dir generalizing d place with
  | nil =>
      cases d with
      | file bytes => rfl
      | directory entries =>
          cases place with
          | nil => rfl
          | cons n more =>
              have hn : n ≠ name := by
                rintro rfl
                exact hp (by simp)
              rw [alter, look_directory_cons, look_directory_cons, hf entries n hn]
  | cons a rest ih =>
      cases d with
      | file bytes => rfl
      | directory entries =>
          cases hl : entries.lookup a with
          | none => rw [alter, hl]
          | some node =>
              rw [alter, hl]
              cases place with
              | nil => rfl
              | cons n more =>
                  rw [look_directory_cons, look_directory_cons, Entries.lookup_set]
                  by_cases hn : n = a
                  · subst hn
                    have hm : ¬ rest ++ [name] <+: more := fun h => hp (by simpa using h)
                    rw [if_pos rfl, hl]
                    simp only [ih hm]
                  · rw [if_neg hn]

/-- Where a change of one entry is not seen, there are the same nodes as before, unless the change
lies below. -/
theorem find_alter {f : List (Text × Node) → List (Text × Node)} {name : Text}
    (hf : ChangesOnly name f) {dir : Place} {n : Text} (hn : n ≠ name) (more : Place) (d : Disk) :
    (alter f dir d).find (dir ++ n :: more) = d.find (dir ++ n :: more) := by
  induction dir generalizing d with
  | nil =>
      cases d with
      | file bytes => rfl
      | directory entries =>
          rw [alter, List.nil_append, find_directory_cons, find_directory_cons, hf entries n hn]
  | cons a rest ih =>
      cases d with
      | file bytes => rfl
      | directory entries =>
          cases hl : entries.lookup a with
          | none => rw [alter, hl]
          | some node =>
              rw [alter, hl, List.cons_append, find_directory_cons, find_directory_cons,
                Entries.lookup_set, if_pos rfl, hl]
              simp only [ih]

/-- A directory beside an entry that is changed. -/
theorem entriesAt_put_of_ne {name n : Text} (hn : n ≠ name) (dir : Place) (d : Disk)
    (node : Node) : (d.put dir name node).entriesAt (dir ++ [n]) = d.entriesAt (dir ++ [n]) := by
  unfold entriesAt put
  rw [find_alter (changesOnly_set _ _) hn]

end FlatDb.Node
