import FlatDb.Catalog
import FlatDb.Table.Query

/-! # Plans

A command is judged before anything is changed: `Command.plan` asks a catalog, and either refuses
the command or says what is to be done.

* A plan holds the session after the command, the result set if there is one, and the changes in
  the order in which they are to be made.
* A refused command has no plan, so it changes neither the store nor the session.
* Only `INSERT` plans two changes: the counters first and then the table, so that an id is never
  handed out a second time, even when the second change fails. -/

namespace FlatDb

/-- What is remembered between the commands of one client: the name of the selected database. -/
structure Session where
  database : Option Text
deriving DecidableEq, Repr

/-- A session in which no database is selected. -/
def Session.new : Session := ⟨none⟩

/-- A single change to what is stored. -/
inductive Change (κ : Type) where
  | createDatabase (name : Text)
  | dropDatabase (key : κ)
  | storeTable (key : κ) (table : Table)
  | dropTable (key : κ)
  | storeCounters (counters : Registry)
deriving DecidableEq, Repr

/-- What is to be done about a command. -/
structure Plan (κ : Type) where
  session : Session
  result : Option ResultSet
  changes : List (Change κ)
deriving DecidableEq, Repr

namespace Plan

variable {κ : Type}

/-- Nothing but a session. -/
def enter (session : Session) : Plan κ := ⟨session, none, []⟩

/-- Nothing but a result set. -/
def answer (session : Session) (result : ResultSet) : Plan κ := ⟨session, some result, []⟩

/-- Nothing but changes. -/
def change (session : Session) (changes : List (Change κ)) : Plan κ := ⟨session, none, changes⟩

/-- A new version of a table, if there is one. -/
def revise (session : Session) (key : κ) : Option Table → Plan κ
  | some t => change session [.storeTable key t]
  | none => change session []

end Plan

/-- The session after a database of a name was dropped. -/
def Session.leave (session : Session) (name : Text) : Session :=
  match session.database with
  | some selected => if Text.sameName selected name then .new else session
  | none => session

namespace Command

variable {κ : Type}

/-- Plans the creation of a database. -/
def planCreateDatabase (catalog : Catalog κ) (session : Session) (name : Text) :
    Except Error (Plan κ) :=
  match catalog.database? name with
  | some _ => .error (.databaseExists name)
  | none => .ok (.change session [.createDatabase name])

/-- Plans the creation of a table. -/
def planCreateTable (catalog : Catalog κ) (session : Session) (name : Text)
    (columns : List Text) : Except Error (Plan κ) := do
  let database ← catalog.selected session.database
  match ← Error.ofStorage (catalog.table? 0 database.key name) with
  | some _ => throw (.tableExists name)
  | none =>
    let t ← Table.create columns
    return .change session [.storeTable (catalog.vacant database.key name) t]

/-- Plans the insertion of a row. -/
def planInsert (catalog : Catalog κ) (session : Session) (name : Text) (values : List Literal) :
    Except Error (Plan κ) := do
  let database ← catalog.selected session.database
  let (stored, t) ← catalog.loadTable 0 database name
  t.checkValues values
  let counters ← Error.ofStorage catalog.counters
  let (id, counters) := counters.allocate database.name stored.name
  return .change session [.storeCounters counters, .storeTable stored.key (t.append id values)]

/-- Plans a command that reads one table. -/
def planSelect (catalog : Catalog κ) (session : Session) (items : Items) (name : Text)
    (filter : Option Condition) : Except Error (Plan κ) := do
  let database ← catalog.selected session.database
  let (_, t) ← catalog.loadTable 0 database name
  let result ← t.select items filter
  return .answer session result

/-- Plans a command that reads two tables. -/
def planJoin (catalog : Catalog κ) (session : Session) (left right leftKey rightKey : Text) :
    Except Error (Plan κ) := do
  let database ← catalog.selected session.database
  let (leftStored, leftTable) ← catalog.loadTable 0 database left
  let (rightStored, rightTable) ← catalog.loadTable 1 database right
  let result ← Table.join leftStored.name leftTable rightStored.name rightTable leftKey rightKey
  return .answer session result

/-- Plans a command that turns one table into another, or leaves it alone. -/
def planRevision (catalog : Catalog κ) (session : Session) (name : Text)
    (f : Table → Except Error (Option Table)) : Except Error (Plan κ) := do
  let database ← catalog.selected session.database
  let (stored, t) ← catalog.loadTable 0 database name
  let t ← f t
  return .revise session stored.key t

/-- Plans a command, or refuses it. -/
def plan (catalog : Catalog κ) (session : Session) : Command → Except Error (Plan κ)
  | use name => do
    let database ← catalog.database name
    return .enter ⟨some database.name⟩
  | createDatabase name => planCreateDatabase catalog session name
  | dropDatabase name => do
    let database ← catalog.database name
    return .change (session.leave name) [.dropDatabase database.key]
  | createTable name columns => planCreateTable catalog session name columns
  | dropTable name => do
    let database ← catalog.selected session.database
    let stored ← catalog.table 0 database name
    return .change session [.dropTable stored.key]
  | alter name alteration column =>
    planRevision catalog session name fun t => (t.alter alteration column).map some
  | insert name values => planInsert catalog session name values
  | select items name filter => planSelect catalog session items name filter
  | update name assignments filter =>
    planRevision catalog session name fun t => t.update assignments filter
  | delete name filter => planRevision catalog session name fun t => t.delete filter
  | join left right leftKey rightKey =>
    planJoin catalog session left right leftKey rightKey

end Command

end FlatDb
