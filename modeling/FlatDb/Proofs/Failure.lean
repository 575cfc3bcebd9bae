import FlatDb.Proofs.Operations
import FlatDb.Proofs.Plans

/-! # Commands that fail

A command that is answered with an error changes no table, whatever is stored below the root: files
that are no tables, tables that cannot be read, directories where files are expected.

* `make_of_error`: a change that fails leaves the disk as it was.
* Only an `INSERT` makes two changes.  When the second one fails, the counters are stored and
  nothing else has changed.
* `tables_unchanged_of_errorStatus`: **a failed command leaves the session and everything on the disk as it
  was**, the registry of ids excepted. -/

namespace FlatDb

open Text Node

variable {root : Text} {place : Place} {entries : List (Text × Node)} {d : Disk}

/-! ### A change that fails -/

/-- A change that can be planned for a disk: what it creates has a proper name, and what it stores
lies in a directory that is there. -/
def Change.Feasible (d : Disk) : Change Path → Prop
  | createDatabase name => IsName name
  | storeTable p _ => ∃ dir name below entries,
      p = dir.child name ∧ d.locate dir = .ok below ∧ d.entriesAt below = .ok entries
  | dropDatabase _ | dropTable _ | storeCounters _ => True

theorem discard_of_error {p : Path} {e : Cause} {d' : Disk} (h : d.discard p = (.error e, d')) :
    d' = d := by
  unfold Disk.discard at h
  split at h <;> cases h
  rfl

theorem ofDisk_eq_error {x : Except Cause Unit × Disk} {e : StorageError} {d' : Disk}
    (h : StorageError.ofDisk x = (.error e, d')) : ∃ cause, x = (.error cause, d') := by
  obtain ⟨_ | _, d''⟩ := x
  · cases h
    exact ⟨_, rfl⟩
  · cases h

/-- A change that fails leaves the disk as it was. -/
theorem make_of_error (hl : d.locate (.ofText root) = .ok place)
    (he : d.entriesAt place = .ok entries) {change : Change Path} (hc : change.Feasible d)
    {e : StorageError} {d' : Disk} (h : change.make (.ofText root) d = (.error e, d')) : d' = d := by
  cases change with
  | createDatabase name =>
      obtain ⟨cause, h⟩ := ofDisk_eq_error h
      rw [makeDirectories_child hl he hc] at h
      split at h
      · cases h
        rfl
      · split at h
        · cases h
          rfl
        · split at h <;> cases h
          rfl
  | dropDatabase p =>
      obtain ⟨cause, h⟩ := ofDisk_eq_error h
      exact discard_of_error h
  | dropTable p =>
      obtain ⟨cause, h⟩ := ofDisk_eq_error h
      exact discard_of_error h
  | storeTable p t =>
      obtain ⟨dir, name, below, es, rfl, hdir, hes⟩ := hc
      change Disk.storeTable d (dir.child name) t = _ at h
      rcases Disk.storeTable_child hdir hes name t with ⟨why, hs⟩ | ⟨hs, -⟩
      all_goals
        rw [hs] at h
        cases h
      rfl
  | storeCounters r =>
      change Disk.storeRegistry d (.ofText root) r = _ at h
      rcases Disk.storeRegistry_child hl he r with ⟨why, hs⟩ | ⟨hs, -⟩
      all_goals
        rw [hs] at h
        cases h
      rfl

/-! ### Plans for a disk -/

variable {order : Nat → Order} {session : Session}

theorem locate_of_list {p : Path} {es : List (Text × Node)} (h : d.list p = .ok es) :
    ∃ dir all, d.locate p = .ok dir ∧ d.entriesAt dir = .ok all := by
  obtain ⟨dir, all, hr, ha, -⟩ := list_eq_ok_iff.mp h
  exact ⟨dir, all, (resolve_eq_ok_iff.mp hr).2, ha⟩

/-- A directory that was searched for a table is there. -/
theorem locate_of_findTable {o : Order} {dir : Path} {name : Text} {found : Option (Stored Path)}
    (h : d.findTable o dir name = .ok found) :
    ∃ below es, d.locate dir = .ok below ∧ d.entriesAt below = .ok es := by
  unfold Disk.findTable at h
  split at h
  · cases h
  · next es hl => exact locate_of_list hl

theorem key_of_findTable {o : Order} {dir : Path} {name : Text} {stored : Stored Path}
    (h : d.findTable o dir name = .ok (some stored)) : ∃ entry, stored.key = dir.child entry := by
  unfold Disk.findTable at h
  split at h
  · cases h
  · rw [Except.ok.injEq, Option.map_eq_some_iff] at h
    obtain ⟨e, -, rfl⟩ := h
    exact ⟨e.1, rfl⟩

theorem feasible_of_findTable {o : Order} {dir : Path} {name : Text} {found : Option (Stored Path)}
    (h : d.findTable o dir name = .ok found) (entry : Text) (t : Table) :
    (Change.storeTable (dir.child entry) t).Feasible d := by
  obtain ⟨below, es, hl, he⟩ := locate_of_findTable h
  exact ⟨dir, entry, below, es, rfl, hl, he⟩

/-- Storing the counters keeps what can be stored in a database feasible. -/
theorem locate_of_storeRegistry (hl : d.locate (.ofText root) = .ok place)
    (he : d.entriesAt place = .ok entries) {r : Registry} {d' : Disk}
    (h : d.storeRegistry (.ofText root) r = (.ok (), d')) :
    d' = d.put place registryName (.file r.encode.toBytes) ∧ KeepsDirectories d d' ∧
      ∀ below, entries.lookup registryName ≠ some (.directory below) := by
  rcases Disk.storeRegistry_child hl he r with ⟨why, hs⟩ | ⟨hs, -, hd⟩
  · rw [hs] at h
    cases h
  · rw [hs] at h
    cases h
    refine ⟨rfl, ?_, hd⟩
    exact (KeepsDirectories.refl d).alter (changesOnly_set _ _) fun q hq => look_ne_directory he hd hq

/-! ### The disk after a failure -/

/-- The disk after changes of which one fails: as it was, but for a registry that is a file. -/
theorem makeAll_of_error (hl : d.locate (.ofText root) = .ok place)
    (he : d.entriesAt place = .ok entries) {c : Command} (hc : c.Proper)
    {changes : List (Change Path)}
    (hp : c.Planned (d.catalog order (.ofText root)) session changes) {e : StorageError} {d' : Disk}
    (h : Change.makeAll (.ofText root) d changes = (.error e, d')) :
    d' = d ∨ ∃ bytes, d' = d.put place registryName (.file bytes) ∧
      ∀ below, entries.lookup registryName ≠ some (.directory below) := by
  -- one change that fails is all there was
  have single : ∀ change : Change Path, change.Feasible d →
      Change.makeAll (.ofText root) d [change] = (.error e, d') → d' = d := by
    intro change hf hm
    rw [Change.makeAll] at hm
    split at hm
    · cases hm
    · exact make_of_error hl he hf hm
  cases hp with
  | nothing => cases h
  | @createDatabase name _ =>
      have hf : (Change.createDatabase name).Feasible d := hc.targets name (by simp [Command.targets])
      exact Or.inl (single _ hf h)
  | @dropDatabase name database _ =>
      have hf : (Change.dropDatabase database.key).Feasible d := True.intro
      exact Or.inl (single _ hf h)
  | @dropTable selected name database stored _ _ _ =>
      have hf : (Change.dropTable stored.key).Feasible d := True.intro
      exact Or.inl (single _ hf h)
  | @createTable selected name columns database t _ _ hn _ =>
      refine Or.inl (single _ ?_ h)
      change (Change.storeTable (Path.ofTable database.key name) t).Feasible d
      rw [Path.ofTable_of_isName _ (hc.targets name (by simp [Command.targets]))]
      exact feasible_of_findTable hn _ t
  | revise _ _ hf _ _ =>
      obtain ⟨entry, hk⟩ := key_of_findTable hf
      refine Or.inl (single _ ?_ h)
      rw [hk]
      exact feasible_of_findTable hf entry _
  | @insert selected name values database stored t counters hi =>
      have hf := hi.table_eq
      rw [Command.insertion, Change.makeAll] at h
      split at h
      · next d₁ hm =>
          obtain ⟨rfl, hk, hreg⟩ := locate_of_storeRegistry hl he hm
          obtain ⟨entry, hkey⟩ := key_of_findTable hf
          obtain ⟨below, es, hbelow, hes⟩ := locate_of_findTable hf
          obtain ⟨es', hes'⟩ :=
            look_eq_directory_iff.mp (hk below (look_eq_directory_iff.mpr ⟨es, hes⟩))
          rw [Change.makeAll] at h
          split at h
          · cases h
          · refine Or.inr ⟨_, make_of_error (locate_mono hk hl) (entriesAt_alter he) ?_ h, hreg⟩
            show ∃ _, _
            exact ⟨database.key, entry, below, es', hkey, locate_mono hk hbelow, hes'⟩
      · refine Or.inl (make_of_error hl he ?_ h)
        trivial

theorem look_put_registry (he : d.entriesAt place = .ok entries)
    (hreg : ∀ below, entries.lookup registryName ≠ some (.directory below)) (bytes : ByteArray) :
    (∀ q, q ≠ place ++ [registryName] →
      (d.put place registryName (.file bytes)).look q = d.look q) ∧
    ((d.put place registryName (.file bytes)).look (place ++ [registryName]) = some none ↔
      d.look (place ++ [registryName]) = some none) := by
  refine ⟨fun q hq => look_put_of_ne he hreg bytes hq, ?_⟩
  rw [look_put_self he (by decide)]
  exact iff_of_false (by simp) (look_ne_directory he hreg List.prefix_rfl)

theorem error_of_errorStatus {result : Except Error (Option ResultSet)}
    (h : errorStatus <+: response result) : ∃ why, result = .error why := by
  obtain ⟨rest, h⟩ := h
  have he : (errorStatus ++ rest)[1]? = some 'E' := rfl
  rw [h] at he
  rcases result with why | _ | r
  · exact ⟨why, rfl⟩
  · cases he
  · cases he

/-- **A failed command changes no table.**  The session is the one that was passed in; at every
place but that of the registry there is what was there, and where the registry is stored there is
no directory but one that was there. -/
theorem tables_unchanged_of_errorStatus {input : Text} (hr : d.resolve (.ofText root) = .ok place)
    (he : d.entriesAt place = .ok entries)
    (h : errorStatus <+: (Engine.runText ⟨.ofText root, order⟩ session d input).response) :
    (Engine.runText ⟨.ofText root, order⟩ session d input).session = session ∧
      (∀ q, q ≠ place ++ [registryName] →
        (Engine.runText ⟨.ofText root, order⟩ session d input).disk.look q = d.look q) ∧
      ((Engine.runText ⟨.ofText root, order⟩ session d input).disk.look (place ++ [registryName]) =
        some none ↔ d.look (place ++ [registryName]) = some none) := by
  have hl := (resolve_eq_ok_iff.mp hr).2
  obtain ⟨why, hw⟩ := error_of_errorStatus h
  revert hw
  unfold Engine.runText
  cases hp : Command.parse input with
  | error e => exact fun _ => ⟨rfl, fun _ _ => rfl, Iff.rfl⟩
  | ok c =>
      dsimp only
      unfold Engine.run
      cases hplan : c.plan (d.catalog order (.ofText root)) session with
      | error e => exact fun _ => ⟨rfl, fun _ _ => rfl, Iff.rfl⟩
      | ok p =>
          dsimp only
          unfold Engine.perform
          split
          · intro hw
            cases hw
          · next what d' hm =>
              intro _
              refine ⟨rfl, ?_⟩
              have hplanned := Command.planned_of_plan hplan
              rcases makeAll_of_error hl he (Command.proper_of_parse hp) hplanned hm with
                rfl | ⟨bytes, rfl, hreg⟩
              · exact ⟨fun _ _ => rfl, Iff.rfl⟩
              · exact look_put_registry he hreg bytes

/-- A name of a table that is too long for replacing its file. -/
def longName : Text := List.replicate 220 'a'

/-- A disk with one table, under that name. -/
def longDisk : Disk :=
  .directory [("data".toList, .directory [("shop".toList, .directory
    [(Path.fileOf longName, .file (toBytes "id\tx\n".toList))])])]

/-- Here the counters are stored before the insertion fails. -/
theorem tables_unchanged_longName :
    errorStatus <+: (Engine.runText ⟨.ofText "data".toList, fun _ => .kept⟩ ⟨some "shop".toList⟩
      longDisk ("INSERT INTO ".toList ++ longName ++ " VALUES('1');".toList)).response ∧
    (∀ q, q ≠ ["data".toList, registryName] →
      (Engine.runText ⟨.ofText "data".toList, fun _ => .kept⟩ ⟨some "shop".toList⟩ longDisk
        ("INSERT INTO ".toList ++ longName ++ " VALUES('1');".toList)).disk.look q =
          longDisk.look q) := by
  have herr : errorStatus <+: (Engine.runText ⟨.ofText "data".toList, fun _ => .kept⟩
      ⟨some "shop".toList⟩ longDisk
      ("INSERT INTO ".toList ++ longName ++ " VALUES('1');".toList)).response := by
    decide +kernel
  have hroot : longDisk.resolve (.ofText "data".toList) = .ok ["data".toList] := by
    rfl
  exact ⟨herr, (tables_unchanged_of_errorStatus hroot rfl herr).2.1⟩

end FlatDb
