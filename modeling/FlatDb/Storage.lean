import FlatDb.Catalog
import FlatDb.Disk.Replace
import FlatDb.Table.Codec

/-! # Databases on a disk

All databases lie below one directory, the root.

* A database is a directory right below the root.
* A table is a file in the directory of its database; its name is the stem of the file name, the
  extension is `tab` in any case.
* The registry of ids is the file `sequences.reg` right below the root.  A registry that is
  missing counts as empty.
* Every file is written by replacing it, so a failure leaves it as it was.

Directories are searched in the order of an `Order`: the first entry that fits is found. -/

namespace FlatDb

/-- An order in which the entries of a directory are listed. -/
abbrev Order := List (Text × Node) → List (Text × Node)

/-- The order in which the entries are kept. -/
def Order.kept : Order := fun entries => entries

/-- The name of the file that holds the registry. -/
def registryName : Text := "sequences.reg".toList

namespace Disk

/-! ### Finding -/

/-- An entry of the root that is the database of a name. -/
def isDatabase (name : Text) : Text × Node → Bool
  | (entry, .directory _) => Text.sameName entry name
  | (_, .file _) => false

/-- An entry of a directory that is the table of a name.  A file out of reach is no table. -/
def isTable (dir : Path) (name : Text) : Text × Node → Bool
  | (_, .directory _) => false
  | (entry, .file _) =>
    (dir.child entry).fault?.isNone &&
      (match Path.extension? entry with
        | some extension => Text.sameName extension Path.tableExtension
        | none => false) &&
      Text.sameName (Path.stem entry) name

/-- The database of a name below a root; there is none if the root is no directory. -/
def findDatabase (d : Disk) (order : Order) (root : Path) (name : Text) : Option (Stored Path) :=
  match d.list root with
  | .error _ => none
  | .ok entries =>
    ((order entries).find? (isDatabase name)).map fun (entry, _) => ⟨entry, root.child entry⟩

/-- The table of a name in a directory. -/
def findTable (d : Disk) (order : Order) (dir : Path) (name : Text) :
    Except StorageError (Option (Stored Path)) :=
  match d.list dir with
  | .error cause => .error (.io cause)
  | .ok entries =>
    .ok (((order entries).find? (isTable dir name)).map fun (entry, _) =>
      ⟨Path.stem entry, dir.child entry⟩)

/-! ### Tables -/

/-- The table stored at a path. -/
def readTable (d : Disk) (p : Path) : Except StorageError Table :=
  match d.readText p with
  | .error cause => .error (.file p.text cause)
  | .ok contents =>
    match Table.decode contents with
    | .ok t => .ok t
    | .error what => .error (.corrupt p.text what)

/-- Stores a table at a path. -/
def storeTable (d : Disk) (p : Path) (t : Table) : Except StorageError Unit × Disk :=
  match d.replace p t.encode.toBytes with
  | (.ok (), d) => (.ok (), d)
  | (.error cause, d) => (.error (.file p.text cause), d)

/-! ### The registry -/

/-- Where the registry below a root is stored. -/
def registryPath (root : Path) : Path := root.child registryName

/-- The registry below a root. -/
def readRegistry (d : Disk) (root : Path) : Except StorageError Registry :=
  match d.readText (registryPath root) with
  | .error .missing => .ok []
  | .error cause => .error (.io cause)
  | .ok contents =>
    match Registry.decode contents with
    | .ok r => .ok r
    | .error what => .error (.corrupt (registryPath root).text what)

/-- Stores the registry below a root. -/
def storeRegistry (d : Disk) (root : Path) (r : Registry) : Except StorageError Unit × Disk :=
  match d.replace (registryPath root) r.encode.toBytes with
  | (.ok (), d) => (.ok (), d)
  | (.error cause, d) => (.error (.io cause), d)

/-- Hands out an id for a table of a database and stores the registry after that. -/
def allocate (d : Disk) (root : Path) (database table : Text) :
    Except StorageError Nat × Disk :=
  match d.readRegistry root with
  | .error e => (.error e, d)
  | .ok r =>
    let (id, r) := r.allocate database table
    match d.storeRegistry root r with
    | (.ok (), d) => (.ok id, d)
    | (.error e, d) => (.error e, d)

/-! ### The catalog -/

/-- What a disk holds below a root.  Each lookup lists a directory in an order of its own: the
first order is for the root, the others are for the lookups among tables. -/
def catalog (d : Disk) (order : Nat → Order) (root : Path) : Catalog Path where
  database? name := d.findDatabase (order 0) root name
  table? lookup dir name := d.findTable (order (lookup + 1)) dir name
  vacant dir name := Path.ofTable dir name
  load p := d.readTable p
  counters := d.readRegistry root

end Disk

end FlatDb
