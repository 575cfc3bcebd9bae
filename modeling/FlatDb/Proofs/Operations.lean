import FlatDb.Engine
import FlatDb.Proofs.Paths

/-! # Operations on a disk

What making a directory, removing an entry and replacing a file do to a disk, when the directory
above is known to be there.  Each either fails and leaves the disk as it was, or it alters one
entry of that directory.

* `makeDirectories_child` and `remove_of_resolve` say this for directories and for removals.
* `replaceAt_eq`: **replacing a file** is putting it there in one step; the temporary file is gone
  afterwards, also when the replacement fails.
* `replace_child` says the same about a path.  A file that can be read is replaced exactly when there
  is room for the temporary file beside it (`Cramped`, `replace_child_eq`).
* `replace_cases`: **a file can be replaced any number of times or never**. -/

namespace FlatDb

open Text

/-! ### Temporary names -/

theorem size_temporaryName (target : Text) (n : Nat) :
    (temporaryName target n).size =
      target.size + 6 + size (List.replicate (36 - (ofNat n).length) '0' ++ ofNat n) := by
  have hd : ('.' : Char).utf8Size = 1 := by decide
  have ht : size ".tmp".toList = 4 := by decide
  simp only [temporaryName, size_append, size, List.cons_append, hd, ht]
  omega

theorem size_lt_size_temporaryName (target : Text) (n : Nat) :
    target.size < (temporaryName target n).size := by
  rw [size_temporaryName]
  omega

/-- The name that is chosen is the temporary name with some number. -/
theorem exists_freshNameFrom_eq (target : Text) (tries n : Nat) (taken : List Text) :
    ∃ k, freshNameFrom target tries n taken = temporaryName target k := by
  induction tries generalizing n taken with
  | zero => exact ⟨n, rfl⟩
  | succ tries ih =>
      rw [freshNameFrom]
      split
      · exact ih _ _
      · exact ⟨n, rfl⟩

theorem size_lt_size_freshName (target : Text) (taken : List Text) :
    target.size < (freshName target taken).size := by
  obtain ⟨k, hk⟩ := exists_freshNameFrom_eq target taken.length 0 taken
  rw [freshName, hk]
  exact size_lt_size_temporaryName target k

theorem size_temporaryName_zero (target : Text) :
    (temporaryName target 0).size = target.size + 42 := by
  rw [size_temporaryName]
  rfl

theorem temporaryName_ne (target : Text) (n : Nat) : temporaryName target n ≠ target := by
  intro h
  have := size_lt_size_temporaryName target n
  rw [h] at this
  omega

/-- A name that is no temporary name does not make a difference to the one that is chosen. -/
theorem freshNameFrom_append {target other : Text} (h : ∀ n, temporaryName target n ≠ other)
    {tries n : Nat} {taken : List Text} (enough : taken.length ≤ tries) :
    freshNameFrom target (tries + 1) n (taken ++ [other]) = freshNameFrom target tries n taken := by
  induction tries generalizing n taken with
  | zero =>
      obtain rfl := List.eq_nil_of_length_eq_zero (Nat.le_zero.mp enough)
      have hn : temporaryName target n ∉ ([] ++ [other] : List Text) := by simpa using h n
      exact if_neg hn
  | succ tries ih =>
      unfold freshNameFrom
      by_cases hn : temporaryName target n ∈ taken
      · rw [if_pos (List.mem_append_left _ hn), if_pos hn, List.erase_append_left _ hn]
        refine ih ?_
        rw [List.length_erase_of_mem hn]
        omega
      · rw [if_neg (by simpa [hn] using h n), if_neg hn]

theorem freshName_append_self (target : Text) (taken : List Text) :
    freshName target (taken ++ [target]) = freshName target taken := by
  unfold freshName
  rw [List.length_append]
  exact freshNameFrom_append (temporaryName_ne target) (Nat.le_refl _)

/-- The first temporary name is used unless an entry begins with a dot. -/
theorem freshName_eq {target : Text} {taken : List Text}
    (h : ∀ name ∈ taken, name.head? ≠ some '.') : freshName target taken = temporaryName target 0 := by
  have hn : temporaryName target 0 ∉ taken := fun hm => h _ hm rfl
  unfold freshName
  cases taken with
  | nil => rfl
  | cons name more =>
      rw [List.length_cons, freshNameFrom, if_neg hn]

namespace Node

variable {d : Disk} {dir : Place} {entries : List (Text × Node)}

theorem namesAt_eq (h : d.entriesAt dir = .ok entries) : d.namesAt dir = entries.map Prod.fst := by
  rw [namesAt, h]

/-! ### Seeing a file that was put somewhere -/

theorem look_put_self (h : d.entriesAt dir = .ok entries) {name : Text}
    (hs : name.size ≤ maxNameSize) (bytes : ByteArray) :
    (d.put dir name (.file bytes)).look (dir ++ [name]) = some (some bytes) := by
  have he : (d.put dir name (.file bytes)).entriesAt dir = .ok _ := entriesAt_alter h
  unfold look
  rw [find_child he, if_neg (Nat.not_lt.mpr hs), Entries.lookup_set, if_pos rfl]

/-- A file that takes the place of no directory is seen at its own place only. -/
theorem look_put_of_ne (h : d.entriesAt dir = .ok entries) {name : Text}
    (hd : ∀ below, entries.lookup name ≠ some (.directory below)) (bytes : ByteArray) {q : Place}
    (hq : q ≠ dir ++ [name]) : (d.put dir name (.file bytes)).look q = d.look q := by
  have he : (d.put dir name (.file bytes)).entriesAt dir = .ok _ := entriesAt_alter h
  have hd' : ∀ below,
      (Entries.set name (.file bytes) entries).lookup name ≠ some (.directory below) := by
    intro below
    rw [Entries.lookup_set, if_pos rfl]
    simp
  by_cases hp : dir ++ [name] <+: q
  · obtain ⟨more, rfl⟩ := hp
    cases more with
    | nil => exact absurd (List.append_nil _) hq
    | cons n more => rw [look_below h hd, look_below he hd']
  · exact look_alter (changesOnly_set _ _) hp d

/-! ### Steps of a replacement -/

theorem run_create (h : d.entriesAt dir = .ok entries) {temp : Text}
    (ht : temp ∉ entries.map Prod.fst) :
    (Step.create temp).run dir d =
      if maxNameSize < temp.size then .error .nameTooLong else .ok (d.put dir temp (.file .empty)) := by
  have hl : entries.lookup temp = none := Entries.lookup_eq_none_iff.mpr ht
  simp only [Step.run, h, Bind.bind, Except.bind, hl]
  by_cases hs : maxNameSize < temp.size
  · rw [if_pos hs, if_pos hs]
    rfl
  · rw [if_neg hs, if_neg hs]
    rfl

theorem run_rename (h : d.entriesAt dir = .ok entries) {temp target : Text} {node : Node}
    (ht : entries.lookup temp = some node) (hs : target.size ≤ maxNameSize) :
    (Step.rename temp target).run dir d =
      match entries.lookup target with
      | some (.directory _) => .error .isDirectory
      | _ => .ok ((d.erase dir temp).put dir target node) := by
  have hlong : ¬ maxNameSize < target.size := Nat.not_lt.mpr hs
  simp only [Step.run, h, Bind.bind, Except.bind, ht, if_neg hlong]
  cases entries.lookup target with
  | none => rfl
  | some other => cases other <;> rfl

/-- The directory while a temporary file lies in it. -/
theorem entriesAt_written (h : d.entriesAt dir = .ok entries) (temp : Text) (bytes : ByteArray) :
    ((d.put dir temp (.file .empty)).put dir temp (.file bytes)).entriesAt dir =
      .ok (Entries.set temp (.file bytes) entries) := by
  rw [put, put, alter_alter, entriesAt_alter h, Function.comp_apply, Entries.set_set]

theorem erase_set_of_not_mem {temp : Text} (ht : temp ∉ entries.map Prod.fst) (node : Node) :
    Entries.erase temp (Entries.set temp node entries) = entries := by
  rw [Entries.erase_set, Entries.erase_of_not_mem ht]

/-- Removing the temporary file brings the disk back that was there before. -/
theorem erase_written (h : d.entriesAt dir = .ok entries) {temp : Text}
    (ht : temp ∉ entries.map Prod.fst) (bytes : ByteArray) :
    ((d.put dir temp (.file .empty)).put dir temp (.file bytes)).erase dir temp = d := by
  rw [put, put, erase, alter_alter, alter_alter]
  refine alter_of_eq h ?_
  rw [Function.comp_apply, Function.comp_apply, Entries.set_set, erase_set_of_not_mem ht]

/-- **Replacing a file** is putting it there in one step, unless a name is too long or a directory
is in the way. -/
theorem replaceAt_eq (h : d.entriesAt dir = .ok entries) (target : Text) (bytes : ByteArray) :
    d.replaceAt dir target bytes =
      if maxNameSize < (freshName target (entries.map Prod.fst)).size then (.error .nameTooLong, d)
      else match entries.lookup target with
        | some (.directory _) => (.error .isDirectory, d)
        | _ => (.ok (), d.put dir target (.file bytes)) := by
  have ht := freshName_not_mem target (entries.map Prod.fst)
  have hsize := size_lt_size_freshName target (entries.map Prod.fst)
  unfold replaceAt
  rw [namesAt_eq h]
  generalize freshName target (entries.map Prod.fst) = temp at ht hsize
  dsimp only
  rw [replaceSteps, Step.runAll, run_create h ht]
  by_cases hl : maxNameSize < temp.size
  · rw [if_pos hl, if_pos hl]
    simp only [erase]
    rw [alter_of_eq h (Entries.erase_of_not_mem ht)]
  · have hne : target ≠ temp := by
      rintro rfl
      omega
    have hw := entriesAt_written h temp bytes
    have hlt : (Entries.set temp (.file bytes) entries).lookup temp = some (.file bytes) := by
      rw [Entries.lookup_set, if_pos rfl]
    have hlo : (Entries.set temp (.file bytes) entries).lookup target = entries.lookup target := by
      rw [Entries.lookup_set, if_neg hne]
    have hs : target.size ≤ maxNameSize := by omega
    have hrun := run_rename hw hlt hs
    rw [hlo, erase_written h ht] at hrun
    rw [if_neg hl, if_neg hl]
    simp only [Step.runAll, Step.run.eq_2, Step.run.eq_3]
    rw [hrun]
    rcases entries.lookup target with _ | _ | _
    · rfl
    · rfl
    · simp only [erase_written h ht]

/-- A replacement fails and leaves the disk as it was, or it puts the file there. -/
theorem replaceAt_cases (h : d.entriesAt dir = .ok entries) (target : Text) (bytes : ByteArray) :
    (∃ cause, d.replaceAt dir target bytes = (.error cause, d)) ∨
      d.replaceAt dir target bytes = (.ok (), d.put dir target (.file bytes)) ∧
        target.size ≤ maxNameSize ∧ ∀ below, entries.lookup target ≠ some (.directory below) := by
  have hs := size_lt_size_freshName target (entries.map Prod.fst)
  rw [replaceAt_eq h]
  split
  · exact Or.inl ⟨_, rfl⟩
  · split
    · exact Or.inl ⟨_, rfl⟩
    · next hd => exact Or.inr ⟨rfl, by omega, fun below hb => hd below hb⟩

/-! ### Replacing by path -/

/-- A replacement by path fails and leaves the disk as it was, or it puts the file there; then the
path is in order and no directory was in the way. -/
theorem replace_child {p : Path} (hl : d.locate p = .ok dir) (h : d.entriesAt dir = .ok entries)
    (name : Text) (bytes : ByteArray) :
    (∃ cause, d.replace (p.child name) bytes = (.error cause, d)) ∨
      d.replace (p.child name) bytes = (.ok (), d.put dir name (.file bytes)) ∧
        (p.child name).fault? = none ∧ name.size ≤ maxNameSize ∧
        ∀ below, entries.lookup name ≠ some (.directory below) := by
  have hn : (p.child name).names ≠ [] := by simp [Path.child]
  unfold replace strayCause?
  rw [Path.split?_child]
  dsimp only
  rw [hl, if_pos hn]
  split
  · exact Or.inl ⟨_, rfl⟩
  · rcases replaceAt_cases h name bytes with ⟨cause, hr⟩ | ⟨hr, hs, hd⟩
    · refine Or.inl ?_
      dsimp only
      rw [hr]
      cases (p.child name).fault? <;> cases cause <;> exact ⟨_, rfl⟩
    · dsimp only
      rw [hr]
      cases hf : (p.child name).fault? with
      | some cause => exact Or.inl ⟨cause, rfl⟩
      | none => exact Or.inr ⟨rfl, rfl, hs, hd⟩

/-- Nothing is put into a directory that is missing. -/
theorem replaceAt_of_missing (h : d.find dir = .error .missing) (name : Text) (bytes : ByteArray) :
    d.replaceAt dir name bytes = (.error .missing, d) := by
  have he : d.entriesAt dir = .error .missing := by
    unfold entriesAt
    rw [h]
  have hcreate (temp : Text) : (Step.create temp).run dir d = .error .missing := by
    simp [Step.run, he, Bind.bind, Except.bind]
  unfold replaceAt
  dsimp only
  rw [replaceSteps, Step.runAll, hcreate]
  dsimp only
  rw [erase, alter_of_missing h]

/-- Nothing is put where no directory is. -/
theorem replace_child_of_missing {p : Path} (hl : ∀ dir, d.locate p = .ok dir → d.find dir = .error .missing)
    {name : Text} (hf : (p.child name).fault? = none) (bytes : ByteArray) :
    ∃ cause, d.replace (p.child name) bytes = (.error cause, d) := by
  have hn : (p.child name).names ≠ [] := by simp [Path.child]
  unfold replace strayCause?
  rw [Path.split?_child, hf, if_pos hn]
  dsimp only
  split
  · exact ⟨_, rfl⟩
  · cases hp : d.locate p with
    | error cause => exact ⟨cause, rfl⟩
    | ok place =>
        dsimp only
        rw [replaceAt_of_missing (hl place hp)]
        exact ⟨_, rfl⟩

/-- There is no room for a temporary file beside the file a path leads to: the path of the temporary
file is too long, or its name is. -/
def Cramped (d : Disk) (p : Path) : Prop :=
  Path.textFault? (temporaryText p) ≠ none ∨
    ∃ dir name place, p.split? = some (dir, name) ∧ d.locate dir = .ok place ∧
      maxNameSize < (freshName name (d.namesAt place)).size

theorem cramped_child_iff {p : Path} (hl : d.locate p = .ok dir) (h : d.entriesAt dir = .ok entries)
    (name : Text) :
    d.Cramped (p.child name) ↔ Path.textFault? (temporaryText (p.child name)) ≠ none ∨
      maxNameSize < (freshName name (entries.map Prod.fst)).size := by
  unfold Cramped
  rw [Path.split?_child]
  refine or_congr_right ⟨?_, fun hs => ⟨p, name, dir, rfl, hl, ?_⟩⟩
  · rintro ⟨_, _, place, ⟨⟩, hp, hs⟩
    rw [hl] at hp
    cases hp
    rwa [namesAt_eq h] at hs
  · rwa [namesAt_eq h]

/-- A file that can be read is replaced exactly when there is room beside it. -/
theorem replace_child_eq {p : Path} (hl : d.locate p = .ok dir) (h : d.entriesAt dir = .ok entries)
    {name : Text} (hf : (p.child name).fault? = none)
    (hd : ∀ below, entries.lookup name ≠ some (.directory below)) (bytes : ByteArray) :
    d.Cramped (p.child name) ∧ (∃ cause, d.replace (p.child name) bytes = (.error cause, d)) ∨
      ¬ d.Cramped (p.child name) ∧ name.size ≤ maxNameSize ∧
        d.replace (p.child name) bytes = (.ok (), d.put dir name (.file bytes)) := by
  have hn : (p.child name).names ≠ [] := by simp [Path.child]
  have hsize := size_lt_size_freshName name (entries.map Prod.fst)
  rw [cramped_child_iff hl h]
  unfold replace strayCause?
  rw [Path.split?_child]
  dsimp only
  rw [hl, hf, if_pos hn]
  dsimp only
  rw [replaceAt_eq h]
  cases ht : Path.textFault? (temporaryText (p.child name)) with
  | some cause => exact .inl ⟨.inl (Option.some_ne_none _), cause, rfl⟩
  | none =>
      by_cases hs : maxNameSize < (freshName name (entries.map Prod.fst)).size
      · rw [if_pos hs]
        exact .inl ⟨.inr hs, _, rfl⟩
      · rw [if_neg hs]
        refine .inr ⟨not_or.mpr ⟨fun hne => hne rfl, hs⟩, by omega, ?_⟩
        dsimp only
        split
        · next below hb => exact absurd hb (hd below)
        · rfl

/-- A replacement that has room succeeds. -/
theorem replace_child_of_room {p : Path} (hl : d.locate p = .ok dir)
    (h : d.entriesAt dir = .ok entries) {name : Text} (bytes : ByteArray)
    (htemp : Path.textFault? (Path.joinText (Path.trimEnd p.text) (temporaryName name 0)) = none)
    (hf : (p.child name).fault? = none) (hsize : name.size + 42 ≤ maxNameSize)
    (hdot : ∀ n ∈ entries.map Prod.fst, n.head? ≠ some '.')
    (hd : ∀ below, entries.lookup name ≠ some (.directory below)) :
    d.replace (p.child name) bytes = (.ok (), d.put dir name (.file bytes)) := by
  have hroom : ¬ d.Cramped (p.child name) := by
    rw [cramped_child_iff hl h, temporaryText, Path.split?_child, freshName_eq hdot,
      size_temporaryName_zero]
    exact not_or.mpr ⟨fun hne => hne htemp, by omega⟩
  rcases replace_child_eq hl h hf hd bytes with ⟨hc, -⟩ | ⟨-, -, hr⟩
  · exact absurd hc hroom
  · exact hr

/-! ### Replacing a file again -/

/-- What is put in the place of something else replaces it. -/
theorem put_put (d : Disk) (dir : Place) (name : Text) (node node' : Node) :
    (d.put dir name node).put dir name node' = d.put dir name node' := by
  unfold Node.put
  rw [alter_alter]
  congr 1
  funext entries
  exact Entries.set_set name node node' entries

section again
variable {p : Path} {name : Text} (hl : d.locate p = .ok dir) (h : d.entriesAt dir = .ok entries)
  (hd : ∀ below, entries.lookup name ≠ some (.directory below))
include hl h hd

theorem locate_put_file (bytes : ByteArray) :
    (d.put dir name (.file bytes)).locate p = .ok dir := by
  have hkeeps : KeepsDirectories d (d.put dir name (.file bytes)) :=
    (KeepsDirectories.refl d).alter (changesOnly_set _ _) fun q hq => look_ne_directory h hd hq
  exact locate_mono hkeeps hl

/-- A file leaves as much room for its successor as there was for itself. -/
theorem cramped_put_file (bytes : ByteArray) :
    (d.put dir name (.file bytes)).Cramped (p.child name) ↔ d.Cramped (p.child name) := by
  rw [cramped_child_iff (locate_put_file hl h hd bytes) (entriesAt_alter h), Entries.names_set,
    cramped_child_iff hl h]
  split
  · rfl
  · rw [freshName_append_self]

/-- A file that was put somewhere is read from there. -/
theorem readText_put_file (hf : (p.child name).fault? = none) (hs : name.size ≤ maxNameSize)
    (t : Text) : (d.put dir name (.file t.toBytes)).readText (p.child name) = .ok t := by
  have he : (d.put dir name (.file t.toBytes)).entriesAt dir = .ok _ := entriesAt_alter h
  refine readText_of_find (resolve_child (locate_put_file hl h hd _) hf) ?_
  rw [find_child he, if_neg (by omega), Entries.lookup_set, if_pos rfl]

/-- **Replacing a file again and again.**  Either there is no room beside the file and nothing can be put
there; or anything can, and what is put there later might as well have been put there at once. -/
theorem replace_cases (hf : (p.child name).fault? = none) :
    d.Cramped (p.child name) ∧
        (∀ bytes, ∃ cause, d.replace (p.child name) bytes = (.error cause, d)) ∨
      ¬ d.Cramped (p.child name) ∧ name.size ≤ maxNameSize ∧ ∀ bytes,
        d.replace (p.child name) bytes = (.ok (), d.put dir name (.file bytes)) ∧
        ∀ bytes', (d.put dir name (.file bytes)).replace (p.child name) bytes' =
          d.replace (p.child name) bytes' := by
  by_cases hc : d.Cramped (p.child name)
  · refine .inl ⟨hc, fun bytes => ?_⟩
    rcases replace_child_eq hl h hf hd bytes with ⟨-, hr⟩ | ⟨hroom, -⟩
    · exact hr
    · exact absurd hc hroom
  · have hreplace (bytes : ByteArray) : name.size ≤ maxNameSize ∧
        d.replace (p.child name) bytes = (.ok (), d.put dir name (.file bytes)) := by
      rcases replace_child_eq hl h hf hd bytes with ⟨hcramped, -⟩ | ⟨-, hr⟩
      · exact absurd hcramped hc
      · exact hr
    refine .inr ⟨hc, (hreplace .empty).1, fun bytes => ⟨(hreplace bytes).2, fun bytes' => ?_⟩⟩
    -- the second file meets the same directory, with the first one in its place
    have he : (d.put dir name (.file bytes)).entriesAt dir = .ok _ := entriesAt_alter h
    have hd' : ∀ below,
        (Entries.set name (.file bytes) entries).lookup name ≠ some (.directory below) := by
      simp [Entries.lookup_set]
    rcases replace_child_eq (locate_put_file hl h hd bytes) he hf hd' bytes' with
      ⟨hcramped, -⟩ | ⟨-, -, hr⟩
    · exact absurd ((cramped_put_file hl h hd bytes).mp hcramped) hc
    · rw [hr, put_put, (hreplace bytes').2]

end again

/-! ### Removing and making directories -/

theorem remove_of_resolve {p : Path} {name : Text} (hr : d.resolve p = .ok (dir ++ [name])) :
    d.remove p = (d.find (dir ++ [name])).map fun _ => d.erase dir name := by
  unfold remove
  rw [hr]
  change (d.find (dir ++ [name])).bind _ = _
  cases d.find (dir ++ [name]) with
  | error cause => rfl
  | ok node => simp [Except.bind, Except.map, pure, Except.pure]

theorem makeDirectories_child {root name : Text} (hl : d.locate (.ofText root) = .ok dir)
    (h : d.entriesAt dir = .ok entries) (hn : IsName name) :
    d.makeDirectories ((Path.ofText root).child name) =
      match ((Path.ofText root).child name).fault? with
      | some cause => (.error cause, d)
      | none =>
        if maxNameSize < name.size then (.error .nameTooLong, d)
        else match entries.lookup name with
          | some (.directory _) => (.ok (), d)
          | some (.file _) => (.error .exists, d)
          | none => (.ok (), d.put dir name (.directory [])) := by
  have h1 : name ≠ ['.'] := hn.ne (c := '.') (by decide) (by decide)
  have h2 : name ≠ ['.', '.'] := hn.ne (c := '.') (by decide) (by decide)
  unfold makeDirectories
  cases ((Path.ofText root).child name).fault? with
  | some cause => rfl
  | none =>
      change d.makeSteps (start root) (parts root ++ [name]) = _
      rw [makeSteps_walk (walk_parts hl) h, makeSteps, h]
      dsimp only
      rw [if_neg h1, if_neg h2]
      by_cases hs : maxNameSize < name.size
      · rw [if_pos hs, if_pos hs]
      · rw [if_neg hs, if_neg hs]
        rcases entries.lookup name with _ | _ | _ <;> simp [makeSteps]

/-! ### Seeing an entry come and go -/

/-- Where there is no entry, nothing is seen, nor below. -/
theorem look_of_lookup_none (h : d.entriesAt dir = .ok entries) {name : Text}
    (hn : entries.lookup name = none) {q : Place} (hq : dir ++ [name] <+: q) : d.look q = none := by
  obtain ⟨more, rfl⟩ := hq
  cases more with
  | nil =>
      rw [List.append_nil]
      unfold look
      rw [find_child h, hn]
      by_cases hs : maxNameSize < name.size
      · rw [if_pos hs]
      · rw [if_neg hs]
  | cons n more => exact look_below h (by simp [hn]) n more

/-- An entry that was taken away is not seen any more, nor what was below it. -/
theorem look_erase_self (h : d.entriesAt dir = .ok entries) {name : Text} {q : Place}
    (hq : dir ++ [name] <+: q) : (d.erase dir name).look q = none := by
  have he : (d.erase dir name).entriesAt dir = .ok (Entries.erase name entries) := entriesAt_alter h
  refine look_of_lookup_none he ?_ hq
  rw [Entries.lookup_erase, if_pos rfl]

/-- A file that was taken away is missed at its own place only. -/
theorem look_erase_of_ne (h : d.entriesAt dir = .ok entries) {name : Text}
    (hd : ∀ below, entries.lookup name ≠ some (.directory below)) {q : Place}
    (hq : q ≠ dir ++ [name]) : (d.erase dir name).look q = d.look q := by
  by_cases hp : dir ++ [name] <+: q
  · rw [look_erase_self h hp]
    obtain ⟨more, rfl⟩ := hp
    cases more with
    | nil => exact absurd (List.append_nil _) hq
    | cons n more => exact (look_below h hd n more).symm
  · exact look_alter (changesOnly_erase _) hp d

/-- A new directory is empty. -/
theorem entriesAt_put_directory (h : d.entriesAt dir = .ok entries) {name : Text}
    (hs : name.size ≤ maxNameSize) :
    (d.put dir name (.directory [])).entriesAt (dir ++ [name]) = .ok [] := by
  have he : (d.put dir name (.directory [])).entriesAt dir = .ok _ := entriesAt_alter h
  refine (entriesAt_child_iff he).mpr ⟨hs, ?_⟩
  rw [Entries.lookup_set, if_pos rfl]

/-- A new directory is seen at its own place only. -/
theorem look_put_directory_of_ne (h : d.entriesAt dir = .ok entries) {name : Text}
    (hs : name.size ≤ maxNameSize) (hn : entries.lookup name = none) {q : Place}
    (hq : q ≠ dir ++ [name]) : (d.put dir name (.directory [])).look q = d.look q := by
  by_cases hp : dir ++ [name] <+: q
  · rw [look_of_lookup_none h hn hp]
    obtain ⟨more, rfl⟩ := hp
    cases more with
    | nil => exact absurd (List.append_nil _) hq
    | cons n more =>
        have hnil : ([] : List (Text × Node)).lookup n = none := rfl
        exact look_of_lookup_none (entriesAt_put_directory h hs) hnil
          ⟨more, List.append_assoc _ [n] more⟩
  · exact look_alter (changesOnly_set _ _) hp d

end Node

/-! ### Storing -/

theorem StorageError.snd_ofDisk (x : Except Cause Unit × Disk) : (ofDisk x).2 = x.2 := by
  obtain ⟨_ | _, _⟩ := x <;> rfl

namespace Disk

open Node

variable {d : Disk} {dir : Place} {entries : List (Text × Node)}

theorem snd_storeTable (d : Disk) (p : Path) (t : Table) :
    (d.storeTable p t).2 = (d.replace p t.encode.toBytes).2 := by
  unfold storeTable
  split <;> simp_all

theorem snd_storeRegistry (d : Disk) (root : Path) (r : Registry) :
    (d.storeRegistry root r).2 = (d.replace (registryPath root) r.encode.toBytes).2 := by
  unfold storeRegistry
  split <;> simp_all

/-- Storing a table fails and leaves the disk as it was, or it puts the file there. -/
theorem storeTable_child {p : Path} (hl : d.locate p = .ok dir) (h : d.entriesAt dir = .ok entries)
    (name : Text) (t : Table) :
    (∃ e, d.storeTable (p.child name) t = (.error e, d)) ∨
      d.storeTable (p.child name) t = (.ok (), d.put dir name (.file t.encode.toBytes)) ∧
        (p.child name).fault? = none ∧ name.size ≤ maxNameSize ∧
        ∀ below, entries.lookup name ≠ some (.directory below) := by
  unfold storeTable
  rcases replace_child hl h name t.encode.toBytes with ⟨cause, hc⟩ | ⟨hc, hrest⟩
  · rw [hc]
    exact Or.inl ⟨_, rfl⟩
  · rw [hc]
    exact Or.inr ⟨rfl, hrest⟩

/-- Storing the counters fails and leaves the disk as it was, or it puts the registry there. -/
theorem storeRegistry_child {root : Path} (hl : d.locate root = .ok dir)
    (h : d.entriesAt dir = .ok entries) (r : Registry) :
    (∃ e, d.storeRegistry root r = (.error e, d)) ∨
      d.storeRegistry root r = (.ok (), d.put dir registryName (.file r.encode.toBytes)) ∧
        (registryPath root).fault? = none ∧
        ∀ below, entries.lookup registryName ≠ some (.directory below) := by
  unfold storeRegistry
  rcases replace_child hl h registryName r.encode.toBytes with ⟨cause, hc⟩ | ⟨hc, hf, -, hd⟩
  · rw [registryPath, hc]
    exact Or.inl ⟨_, rfl⟩
  · rw [registryPath, hc]
    exact Or.inr ⟨rfl, hf, hd⟩

end Disk

end FlatDb
