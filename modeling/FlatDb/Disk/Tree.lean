import FlatDb.Disk.Cause
import FlatDb.Disk.Path
import FlatDb.Entries
import FlatDb.Text.Bytes

/-! # Disks

A disk is a tree of named entries: files with their bytes, and directories.  The tree is a value,
so an operation that changes a disk gives a new one.

* A `Place` is the list of names that leads from the top of the disk to an entry; `Node.find`
  follows it and says why it leads nowhere.
* `Node.resolve` turns a `Path` into a place.  Every part of a path but the last has to be a
  directory.  Paths begin at the top of the disk.  Those with a leading slash begin at the entry
  `/` there, a name that no part of a path can spell; it also stands for the directory above the
  top.  Nothing outside the disk can be reached.
* A name has at most 255 bytes. -/

namespace FlatDb

/-- A file or a directory. -/
inductive Node where
  | file (bytes : ByteArray)
  | directory (entries : List (Text × Node))
deriving BEq

/-- A disk is its top directory. -/
abbrev Disk := Node

/-- Names from the top of a disk downwards. -/
abbrev Place := List Text

/-- The most bytes a name may have. -/
def maxNameSize : Nat := 255

namespace Node

/-! ### Looking up -/

/-- The entry at a place. -/
def find : Node → Place → Except Cause Node
  | node, [] => .ok node
  | .file _, _ :: _ => .error .notDirectory
  | .directory entries, name :: more =>
    if maxNameSize < name.size then .error .nameTooLong
    else
      match entries.lookup name with
      | none => .error .missing
      | some node => node.find more

/-- The entries of the directory at a place. -/
def entriesAt (d : Disk) (place : Place) : Except Cause (List (Text × Node)) :=
  match d.find place with
  | .ok (.directory entries) => .ok entries
  | .ok (.file _) => .error .notDirectory
  | .error cause => .error cause

/-- The parts of a path text between slashes. -/
def parts (t : Text) : List Text := (Text.splitOn '/' t).filter (· ≠ [])

/-- The parts of a path text that leads somewhere; a slash at the end counts as a single dot. -/
def steps (t : Text) : List Text :=
  if t.getLast? = some '/' then parts t ++ [['.']] else parts t

/-- The name of the entry at the top of a disk where paths with a leading slash begin. -/
def absolute : Text := ['/']

/-- The place where a path text begins. -/
def start (t : Text) : Place := if t.head? = some '/' then [absolute] else []

/-- The place above a place.  Above the top are the paths with a leading slash, and above them is
nothing. -/
def above (place : Place) : Place :=
  if place = [] ∨ place = [absolute] then [absolute] else place.dropLast

/-- A disk with nothing on it. -/
def blank : Disk := .directory [(absolute, .directory [])]

/-- Follows the parts of a path text from a place on. -/
def walk (d : Disk) : Place → List Text → Except Cause Place
  | here, [] => .ok here
  | here, step :: more =>
    match d.entriesAt here with
    | .error cause => .error cause
    | .ok _ =>
      if step = ['.'] then d.walk here more
      else if step = ['.', '.'] then d.walk (above here) more
      else d.walk (here ++ [step]) more

/-- The place the parts of a path lead to, whether or not there is an entry. -/
def locate (d : Disk) (p : Path) : Except Cause Place :=
  if p.base = [] then
    if p.names = [] then .error .missing else .ok p.names
  else (d.walk (start p.base) (steps p.base)).map (· ++ p.names)

/-- The place a path leads to, whether or not there is an entry.  A path that is at fault itself
leads nowhere, whatever its parts are. -/
def resolve (d : Disk) (p : Path) : Except Cause Place :=
  match p.fault? with
  | some cause => .error cause
  | none => d.locate p

/-- The entry a path leads to. -/
def findPath (d : Disk) (p : Path) : Except Cause Node := do
  let place ← d.resolve p
  d.find place

/-- A path leads to a directory. -/
def isDirectory (d : Disk) (p : Path) : Bool :=
  match d.findPath p with
  | .ok (.directory _) => true
  | _ => false

/-- The entries of the directory a path leads to.  The entry `/` is not among them. -/
def list (d : Disk) (p : Path) : Except Cause (List (Text × Node)) := do
  let place ← d.resolve p
  let entries ← d.entriesAt place
  return entries.filter fun (name, _) => name ≠ absolute

/-- The bytes of the file a path leads to. -/
def read (d : Disk) (p : Path) : Except Cause ByteArray :=
  match d.findPath p with
  | .ok (.file bytes) => .ok bytes
  | .ok (.directory _) => .error .isDirectory
  | .error cause => .error cause

/-- The text of the file a path leads to. -/
def readText (d : Disk) (p : Path) : Except Cause Text :=
  match d.read p with
  | .error cause => .error cause
  | .ok bytes =>
    match Text.ofBytes? bytes with
    | some t => .ok t
    | none => .error .notText

/-! ### Changing -/

/-- The tree with other entries in the directory at a place, if there is a directory. -/
def alter (f : List (Text × Node) → List (Text × Node)) : Place → Node → Node
  | _, .file bytes => .file bytes
  | [], .directory entries => .directory (f entries)
  | name :: more, .directory entries =>
    match entries.lookup name with
    | none => .directory entries
    | some node => .directory (Entries.set name (alter f more node) entries)

/-- The disk with a node under a name in the directory at a place. -/
def put (d : Disk) (dir : Place) (name : Text) (node : Node) : Disk :=
  alter (Entries.set name node) dir d

/-- The disk without a name in the directory at a place. -/
def erase (d : Disk) (dir : Place) (name : Text) : Disk := alter (Entries.erase name) dir d

/-- Removes what a path leads to, with all that lies below it. -/
def remove (d : Disk) (p : Path) : Except Cause Disk := do
  let place ← d.resolve p
  let _ ← d.find place
  match place.getLast? with
  | some name => return d.erase place.dropLast name
  | none => throw .isDirectory

/-- Follows parts of a path from a place on and makes the directories that are missing.  What was
made before a failure stays.  A directory is not made when nothing but single dots follows, because
a path that ends in a dot leads nowhere unless the directory before the dot is there. -/
def makeSteps (d : Disk) : Place → List Text → Except Cause Unit × Disk
  | _, [] => (.ok (), d)
  | here, step :: more =>
    match d.entriesAt here with
    | .error cause => (.error cause, d)
    | .ok entries =>
      if step = ['.'] then d.makeSteps here more
      else if step = ['.', '.'] then d.makeSteps (above here) more
      else if maxNameSize < step.size then (.error .nameTooLong, d)
      else
        match entries.lookup step with
        | some (.directory _) => d.makeSteps (here ++ [step]) more
        | some (.file _) => (.error (if more = [] then .exists else .notDirectory), d)
        | none =>
          if more ≠ [] ∧ more.all (· = ['.']) then (.error .missing, d)
          else (d.put here step (.directory [])).makeSteps (here ++ [step]) more

/-- Makes the directory of a path and those above it, as far as they are missing. -/
def makeDirectories (d : Disk) (p : Path) : Except Cause Unit × Disk :=
  match p.fault? with
  | some cause => (.error cause, d)
  | none => d.makeSteps (start p.base) (parts p.base ++ p.names)

/-! ### Everything on a disk -/

mutual

/-- Every place with an entry, the top included, with the bytes of a file. -/
def places : Node → List (Place × Option ByteArray)
  | .file bytes => [([], some bytes)]
  | .directory entries => ([], none) :: placesBelow entries

/-- Every place with an entry below a directory. -/
def placesBelow : List (Text × Node) → List (Place × Option ByteArray)
  | [] => []
  | (name, node) :: more =>
    (places node).map (fun (place, bytes) => (name :: place, bytes)) ++ placesBelow more

end

end Node

end FlatDb
