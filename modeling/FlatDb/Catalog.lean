import FlatDb.Error
import FlatDb.Registry
import FlatDb.Table

/-! # Catalogs

What a command can find out before it changes anything.  A catalog knows which databases and
tables there are and what they hold; it says nothing about how they are kept.

* Databases and tables are found by name, ignoring the case of letters; what is found comes with
  the name under which it is stored.
* The keys are the catalog's own way to refer to what it keeps, such as a path.
* A lookup among tables lists the tables of a database.  Lists come in no particular order, and
  not always in the same one, so lookups within one command are numbered. -/

namespace FlatDb

/-- A database or table that was found: the name it is stored under and its key. -/
structure Stored (κ : Type) where
  name : Text
  key : κ
deriving DecidableEq, Repr

/-- The answers a command can ask for. -/
structure Catalog (κ : Type) where
  /-- The database of a name. -/
  database? : Text → Option (Stored κ)
  /-- The table of a name in the database with a key, at the lookup with a number. -/
  table? : Nat → κ → Text → Except StorageError (Option (Stored κ))
  /-- The key of a table that is new in the database with a key. -/
  vacant : κ → Text → κ
  /-- The table with a key. -/
  load : κ → Except StorageError Table
  /-- The counters of all tables. -/
  counters : Except StorageError Registry

/-- What a command does when the store fails. -/
def Error.ofStorage {α : Type} : Except StorageError α → Except Error α
  | .ok a => .ok a
  | .error e => .error (.storage e)

namespace Catalog

variable {κ : Type}

/-- The database of a name, which has to exist. -/
def database (catalog : Catalog κ) (name : Text) : Except Error (Stored κ) :=
  match catalog.database? name with
  | some stored => .ok stored
  | none => .error (.databaseNotFound name)

/-- The database a client has selected, which has to exist still. -/
def selected (catalog : Catalog κ) : Option Text → Except Error (Stored κ)
  | some name => catalog.database name
  | none => .error .noDatabaseSelected

/-- The table of a name, which has to exist. -/
def table (catalog : Catalog κ) (lookup : Nat) (database : Stored κ) (name : Text) :
    Except Error (Stored κ) :=
  match catalog.table? lookup database.key name with
  | .ok (some stored) => .ok stored
  | .ok none => .error (.tableNotFound name)
  | .error e => .error (.storage e)

/-- The table of a name, which has to exist, with its contents. -/
def loadTable (catalog : Catalog κ) (lookup : Nat) (database : Stored κ) (name : Text) :
    Except Error (Stored κ × Table) := do
  let stored ← catalog.table lookup database name
  let t ← Error.ofStorage (catalog.load stored.key)
  return (stored, t)

end Catalog

end FlatDb
