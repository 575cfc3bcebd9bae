import FlatDb.Disk.Tree
import FlatDb.Text.Natural

/-! # Replacing a file

A file is never written in place.  Its new contents go to a temporary file in the same directory,
which is then renamed over the target, so that whoever reads the target sees either the old or
the new contents.  When a step fails, the temporary file is removed and the failure reported.

The temporary name is built from the target's and 36 further characters; it is the first of a
numbered sequence that no entry of the directory has (`freshName`).  It is 42 bytes longer than
the target's name, so a file can be read though its name or its path is too long for replacing
it. -/

namespace FlatDb

/-- A single step of a replacement, in one directory. -/
inductive Step where
  | create (temp : Text)
  | write (temp : Text) (bytes : ByteArray)
  | sync (temp : Text)
  | rename (temp target : Text)

namespace Step

/-- Carries out a step in the directory at a place. -/
def run (dir : Place) (d : Disk) : Step → Except Cause Disk
  | create temp => do
    let entries ← d.entriesAt dir
    if maxNameSize < temp.size then throw .nameTooLong
    match entries.lookup temp with
    | some (.directory _) => throw .isDirectory
    | _ => return d.put dir temp (.file .empty)
  | write temp bytes => .ok (d.put dir temp (.file bytes))
  | sync _ => .ok d
  | rename temp target => do
    let entries ← d.entriesAt dir
    if maxNameSize < target.size then throw .nameTooLong
    match entries.lookup temp, entries.lookup target with
    | none, _ => throw .missing
    | some _, some (.directory _) => throw .isDirectory
    | some node, _ => return (d.erase dir temp).put dir target node

/-- Carries out steps in order up to the first that fails. -/
def runAll (dir : Place) : Disk → List Step → Except Cause Unit × Disk
  | d, [] => (.ok (), d)
  | d, step :: more =>
    match step.run dir d with
    | .ok d => runAll dir d more
    | .error cause => (.error cause, d)

end Step

/-! ### Temporary names -/

/-- The name of the temporary file with a number, beside a target. -/
def temporaryName (target : Text) (n : Nat) : Text :=
  let digits := Text.ofNat n
  '.' :: target ++ '.' :: List.replicate (36 - digits.length) '0' ++ digits ++ ".tmp".toList

/-- Different numbers give different names. -/
theorem temporaryName_inj {target : Text} {m n : Nat}
    (h : temporaryName target m = temporaryName target n) : m = n := by
  simp only [temporaryName, List.append_assoc, List.cons_append, List.cons.injEq, true_and,
    List.append_cancel_left_eq] at h
  simp only [← List.append_assoc, List.append_cancel_right_eq] at h
  rw [← Text.ofDigitChars_zeros (36 - (Text.ofNat m).length) m, h, Text.ofDigitChars_zeros]

/-- The first temporary name from a number on that is not taken.  Each collision leaves one taken
name less to collide with, so as many tries as there are taken names are enough. -/
def freshNameFrom (target : Text) : Nat → Nat → List Text → Text
  | 0, n, _ => temporaryName target n
  | tries + 1, n, taken =>
    if temporaryName target n ∈ taken then
      freshNameFrom target tries (n + 1) (taken.erase (temporaryName target n))
    else temporaryName target n

/-- A temporary name that is not taken. -/
def freshName (target : Text) (taken : List Text) : Text :=
  freshNameFrom target taken.length 0 taken

/-- A name that is not taken is none of all names, if those left out are names of smaller
numbers. -/
theorem temporaryName_not_mem {target : Text} {n : Nat} {all taken : List Text}
    (left : ∀ x ∈ all, x ∈ taken ∨ ∃ m < n, x = temporaryName target m)
    (h : temporaryName target n ∉ taken) : temporaryName target n ∉ all := by
  intro hall
  obtain h' | ⟨m, hm, h'⟩ := left _ hall
  · exact h h'
  · have := temporaryName_inj h'
    omega

/-- The tries are enough: only names that were tried are ever left out of the taken ones, one in
each try. -/
theorem freshNameFrom_not_mem {target : Text} {tries n : Nat} {all taken : List Text}
    (enough : taken.length ≤ tries)
    (left : ∀ x ∈ all, x ∈ taken ∨ ∃ m < n, x = temporaryName target m) :
    freshNameFrom target tries n taken ∉ all := by
  induction tries generalizing n taken with
  | zero =>
    obtain rfl := List.eq_nil_of_length_eq_zero (Nat.le_zero.1 enough)
    exact temporaryName_not_mem left (by simp)
  | succ tries ih =>
    rw [freshNameFrom]
    split
    case isFalse h => exact temporaryName_not_mem left h
    case isTrue h =>
      refine ih ?_ ?_
      · rw [List.length_erase_of_mem h]
        omega
      · intro x hx
        by_cases e : x = temporaryName target n
        · exact Or.inr ⟨n, by omega, e⟩
        · obtain h' | ⟨m, hm, h'⟩ := left x hx
          · exact Or.inl ((List.mem_erase_of_ne e).2 h')
          · exact Or.inr ⟨m, by omega, h'⟩

/-- The temporary name is free. -/
theorem freshName_not_mem (target : Text) (taken : List Text) :
    freshName target taken ∉ taken :=
  freshNameFrom_not_mem (Nat.le_refl _) fun _ hx => Or.inl hx

/-! ### The replacement -/

/-- The steps that replace a target. -/
def replaceSteps (temp target : Text) (bytes : ByteArray) : List Step :=
  [.create temp, .write temp bytes, .sync temp, .rename temp target]

namespace Node

/-- The names in the directory at a place. -/
def namesAt (d : Disk) (dir : Place) : List Text :=
  match d.entriesAt dir with
  | .ok entries => entries.map Prod.fst
  | .error _ => []

/-- Puts bytes into the file of a given name in the directory at a place, by way of a temporary
file that is gone afterwards. -/
def replaceAt (d : Disk) (dir : Place) (target : Text) (bytes : ByteArray) :
    Except Cause Unit × Disk :=
  let temp := freshName target (d.namesAt dir)
  match Step.runAll dir d (replaceSteps temp target bytes) with
  | (.ok (), d) => (.ok (), d)
  | (.error cause, d) => (.error cause, d.erase dir temp)

/-- The text of the path of a temporary file.  The file lies beside the one a path leads to; if the
path does not end in a file name, it lies below the path. -/
def temporaryText (p : Path) : Text :=
  match p.split? with
  | some (dir, target) => Path.joinText (Path.trimEnd dir.text) (temporaryName target 0)
  | none => Path.joinText p.text (temporaryName [] 0)

/-- Why nothing can be renamed to a path, whatever the entry of its file name is.  A path that ends
in a single dot leads to a directory in use, if anywhere; one that ends in a slash can name a
directory only. -/
def strayCause? (d : Disk) (p : Path) : Option Cause :=
  match p.fault? with
  | some cause => some cause
  | none =>
    if p.names ≠ [] then none
    else if (parts p.base).getLast? = some ['.'] then
      match d.locate p with
      | .error cause => some cause
      | .ok _ => some .busy
    else if p.base.getLast? = some '/' then some .notDirectory
    else none

/-- Puts bytes into the file a path leads to.  The steps before the last one do not depend on how
the path ends. -/
def replace (d : Disk) (p : Path) (bytes : ByteArray) : Except Cause Unit × Disk :=
  match Path.textFault? (temporaryText p) with
  | some cause => (.error cause, d)
  | none =>
    match p.split? with
    | none =>
      match d.list p with
      | .error cause => (.error cause, d)
      | .ok _ => (.error .busy, d)
    | some (dir, target) =>
      match d.locate dir with
      | .error cause => (.error cause, d)
      | .ok place =>
        match d.strayCause? p, d.replaceAt place target bytes with
        | none, outcome => outcome
        | some cause, (.ok (), _) | some cause, (.error .isDirectory, _) => (.error cause, d)
        | some _, failed => failed

end Node

end FlatDb
