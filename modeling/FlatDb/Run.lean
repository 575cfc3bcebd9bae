import FlatDb.Engine
import FlatDb.Memory

/-! # Runs

Any number of clients call one after the other, in any order.  Each has a session of its own, in
which no database is selected at first; what is stored they share.

* A `Call` says who calls and with which text.  It also says in which orders directories are
  listed meanwhile: any orders, and other ones at each call.
* A run is a list of calls.  The same definition serves databases on a disk and databases in
  memory (`World.replies`).
* A call may also be cut off after some of its changes were made, so that nobody gets an answer;
  runs in which that happens are lists of `Event`s.
* A `Grant` is an id that an insertion of a run is given. -/

namespace FlatDb

/-- An order in which every entry is listed once. -/
structure Listing where
  order : Order
  perm : ∀ entries, (order entries).Perm entries

/-- The order in which the entries are kept. -/
def Listing.kept : Listing := ⟨.kept, fun _ => .refl _⟩

/-- A text that a client calls with, and the listings of directories meanwhile. -/
structure Call where
  client : Nat
  input : Text
  listings : Nat → Listing := fun _ => .kept

/-- The engine that answers a call. -/
def Call.engine (root : Text) (c : Call) : Engine where
  root := .ofText root
  order n := (c.listings n).order

/-- The sessions of all clients and what they share. -/
structure World (σ : Type) where
  sessions : Nat → Session
  store : σ

/-- What a call leads to: the response, the session after it and what is stored after it. -/
structure Reply (σ : Type) where
  response : Text
  session : Session
  store : σ

/-- A call answered from what is stored on a disk. -/
def Call.onDisk (root : Text) (c : Call) (session : Session) (d : Disk) : Reply Disk :=
  let o := (c.engine root).runText session d c.input
  ⟨o.response, o.session, o.disk⟩

/-- A call answered from what is stored in memory. -/
def Call.inMemory (c : Call) (session : Session) (m : Memory) : Reply Memory :=
  let o := Memory.runText session m c.input
  ⟨FlatDb.response o.result, o.session, o.memory⟩

namespace World

variable {σ : Type}

/-- Every session is new. -/
def start (store : σ) : World σ := ⟨fun _ => .new, store⟩

/-- The world after a reply to a client. -/
def receive (w : World σ) (client : Nat) (r : Reply σ) : World σ where
  sessions n := if n = client then r.session else w.sessions n
  store := r.store

/-- The responses to calls, each with the session after it. -/
def replies (answer : Call → Session → σ → Reply σ) : World σ → List Call → List (Text × Session)
  | _, [] => []
  | w, c :: more =>
    let r := answer c (w.sessions c.client) w.store
    (r.response, r.session) :: replies answer (w.receive c.client r) more

end World

/-! ### Calls that are cut off -/

/-- What happens in a run: a call that is answered, or one that is cut off after so many changes
were made. -/
inductive Event where
  | call (c : Call)
  | cut (c : Call) (made : Nat)

/-- The disk after a call that is cut off; the client's session stays as it is. -/
def Call.cutOff (root : Text) (c : Call) (session : Session) (d : Disk) (made : Nat) : Disk :=
  (((c.engine root).stages session d c.input).take made).getLastD d

/-- One event. -/
def World.step (root : Text) (w : World Disk) : Event → World Disk
  | .call c => w.receive c.client (c.onDisk root (w.sessions c.client) w.store)
  | .cut c made => { w with store := c.cutOff root (w.sessions c.client) w.store made }

/-- Events in order. -/
def World.after (root : Text) (w : World Disk) (events : List Event) : World Disk :=
  events.foldl (step root) w

/-! ### Ids handed out -/

/-- An id that an insertion is given, with the names by which the client refers to the database and
the table. -/
structure Grant where
  database : Text
  table : Text
  id : Nat
deriving DecidableEq, Repr

/-- The id that a call is given, if it is an insertion into a table that is found and can be loaded,
if the values fit, and if the registry can be read and replaced.  Whether the row is stored
afterwards does not matter. -/
def Call.grant? (root : Text) (c : Call) (session : Session) (d : Disk) : Option Grant :=
  match Command.parse c.input with
  | .ok (.insert name values) => do
    let selected ← session.database
    let catalog := d.catalog (c.engine root).order (.ofText root)
    let database ← catalog.database? selected
    let (stored, t) ← (catalog.loadTable 0 database name).toOption
    let _ ← (t.checkValues values).toOption
    let id ← (d.allocate (.ofText root) database.name stored.name).1.toOption
    return ⟨selected, name, id⟩
  | _ => none

/-- The id that is given in an event.  A call that is cut off before its first change is given
none. -/
def World.grant? (root : Text) (w : World Disk) : Event → Option Grant
  | .call c => c.grant? root (w.sessions c.client) w.store
  | .cut _ 0 => none
  | .cut c (_ + 1) => c.grant? root (w.sessions c.client) w.store

/-- All ids given in a run, in order. -/
def World.grants (root : Text) : World Disk → List Event → List Grant
  | _, [] => []
  | w, event :: more => (w.grant? root event).toList ++ grants root (w.step root event) more

end FlatDb
