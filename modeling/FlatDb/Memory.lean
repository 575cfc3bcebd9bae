import FlatDb.Command.Parse
import FlatDb.Command.Plan
import FlatDb.Entries

/-! # Databases in memory

The same commands on databases that are kept as values.  Nothing is written as text and nothing is
read back: loading a table gives the table that was stored, and the counters are the list that was
stored.  A change cannot fail.

Commands are planned as they are on a disk (`Command.plan`); only the catalog and the making of
changes differ. -/

namespace FlatDb

/-- Databases with their tables, all by name, and the counters of all tables. -/
structure Memory where
  databases : List (Text × List (Text × Table))
  counters : Registry
deriving DecidableEq

namespace Memory

/-- No databases and no counters. -/
def empty : Memory := ⟨[], []⟩

/-- How a catalog refers to what is kept in memory. -/
inductive Key where
  | database (name : Text)
  | table (database name : Text)
deriving DecidableEq, Repr

/-- The entry of a name, in any case. -/
def named {α : Type} (name : Text) (entries : List (Text × α)) : Option (Text × α) :=
  entries.find? fun e => Text.sameName e.1 name

/-- The tables of a database; there are none if there is no such database. -/
def tables (m : Memory) (database : Text) : List (Text × Table) :=
  (m.databases.lookup database).getD []

/-- The answers to what a command asks for. -/
def catalog (m : Memory) : Catalog Key where
  database? name := (named name m.databases).map fun e => ⟨e.1, .database e.1⟩
  table?
    | _, .database database, name =>
      .ok ((named name (m.tables database)).map fun e => ⟨e.1, .table database e.1⟩)
    | _, .table _ _, _ => .ok none
  vacant
    | .database database, name => .table database name
    | .table database _, name => .table database name
  load
    | .database _ => .error (.io .isDirectory)
    | .table database name =>
      match (m.tables database).lookup name with
      | some t => .ok t
      | none => .error (.io .missing)
  counters := .ok m.counters

/-- The memory with other tables in a database. -/
def setTables (m : Memory) (database : Text) (ts : List (Text × Table)) : Memory :=
  { m with databases := Entries.set database ts m.databases }

/-- Makes one change. -/
def make (m : Memory) : Change Key → Memory
  | .createDatabase name => m.setTables name []
  | .dropDatabase (.database name) => { m with databases := Entries.erase name m.databases }
  | .storeTable (.table database name) t =>
    m.setTables database (Entries.set name t (m.tables database))
  | .dropTable (.table database name) =>
    m.setTables database (Entries.erase name (m.tables database))
  | .storeCounters r => { m with counters := r }
  | .dropDatabase (.table _ _) | .storeTable (.database _) _ | .dropTable (.database _) => m

/-- Makes changes in order. -/
def makeAll (m : Memory) (changes : List (Change Key)) : Memory := changes.foldl make m

/-- The outcome of a command: its result, the session after it and the memory after it. -/
structure Outcome where
  result : Except Error (Option ResultSet)
  session : Session
  memory : Memory

/-- Runs a command. -/
def run (session : Session) (m : Memory) (c : Command) : Outcome :=
  match c.plan m.catalog session with
  | .ok p => ⟨.ok p.result, p.session, m.makeAll p.changes⟩
  | .error why => ⟨.error why, session, m⟩

/-- Runs the command a text spells. -/
def runText (session : Session) (m : Memory) (input : Text) : Outcome :=
  match Command.parse input with
  | .ok c => run session m c
  | .error why => ⟨.error why, session, m⟩

end Memory

end FlatDb
