import FlatDb.Proofs.Transparency

/-! # Memory with the limits of a disk

A disk refuses names and paths that are too long.  On a disk that mirrors a memory nothing else makes
a change fail, so the root and the names in a change tell whether it fails, and how.

* `Path.verdict` and `Change.verdict` say whether a file can be stored and whether a change can be made
  below a root, without looking at a disk.
* `Mirrors.make_eq`: **a sound change is made or fails as its verdict says**.
* `Memory.runTextWithin` runs a text in memory within these limits; `Mirrors.runText_eq`: **a call has
  the same result and the same session on a mirror**, and the disk mirrors the memory afterwards.
  What calls do on a disk is so reduced to what they do in memory, whatever is too long. -/

namespace FlatDb

open Text Node

/-! ### Storing a file -/

/-- Whether a file can be stored under a name below a path, where no other name begins with a dot.  The
temporary file beside it is met first. -/
def Path.verdict (p : Path) (name : Text) : Except Cause Unit :=
  match textFault? (temporaryText (p.child name)), (p.child name).fault? with
  | some cause, _ => .error cause
  | none, fault =>
    if maxNameSize < (temporaryName name 0).size then .error .nameTooLong
    else match fault with
      | some cause => .error cause
      | none => .ok ()

/-- A file is replaced unless its name or its path is too long. -/
theorem Node.replace_child_of_undotted {d : Disk} {dir : Place} {entries : List (Text × Node)}
    {p : Path} (hl : d.locate p = .ok dir) (h : d.entriesAt dir = .ok entries) (name : Text)
    (hdot : ∀ n ∈ entries.map Prod.fst, n.head? ≠ some '.')
    (hd : ∀ below, entries.lookup name ≠ some (.directory below)) (bytes : ByteArray) :
    d.replace (p.child name) bytes =
      match p.verdict name with
      | .error cause => (.error cause, d)
      | .ok () => (.ok (), d.put dir name (.file bytes)) := by
  have hn : (p.child name).names ≠ [] := by simp [Path.child]
  have hput : d.replaceAt dir name bytes =
      if maxNameSize < (temporaryName name 0).size then (.error .nameTooLong, d)
      else (.ok (), d.put dir name (.file bytes)) := by
    rw [replaceAt_eq h, freshName_eq hdot]
    split
    · rfl
    · split
      · next below hb => exact absurd hb (hd below)
      · rfl
  unfold replace strayCause? Path.verdict
  rw [Path.split?_child]
  dsimp only
  rw [hl, if_pos hn]
  dsimp only
  rw [hput]
  cases Path.textFault? (temporaryText (p.child name)) with
  | some cause => rfl
  | none =>
      dsimp only
      by_cases hs : maxNameSize < (temporaryName name 0).size
      · rw [if_pos hs, if_pos hs]
        cases (p.child name).fault? <;> rfl
      · rw [if_neg hs, if_neg hs]
        cases (p.child name).fault? <;> rfl

/-! ### Changes -/

/-- Whether a change can be made below a root, where there is nothing but databases with their tables
and the registry, and otherwise why not.  What is there can always be dropped. -/
def Change.verdict (root : Text) : Change Memory.Key → Except StorageError Unit
  | .createDatabase name =>
    match ((Path.ofText root).child name).fault? with
    | some cause => .error (.io cause)
    | none => if maxNameSize < name.size then .error (.io .nameTooLong) else .ok ()
  | .storeTable (.table dir name) _ =>
    (((Path.ofText root).child dir).verdict (Path.fileOf name)).mapError
      (.file (Memory.Key.path root (.table dir name)).text)
  | .storeCounters _ => ((Path.ofText root).verdict registryName).mapError .io
  | .storeTable (.database _) _ | .dropDatabase _ | .dropTable _ => .ok ()

namespace Memory

open Entries

variable {m : Memory} {root : Text} {place : Place} {d₀ d : Disk}

namespace Mirrors

section changes
variable (h : Mirrors root place d₀ m d) (hr : EmptyRoot root place d₀) (hw : m.WellFormed)
include h hr hw

theorem verdict_createDatabase {name : Text} (hn : IsName name)
    (hnew : ∀ e ∈ m.databases, sameName e.1 name = false) :
    (Change.make (.ofText root) d (.createDatabase name)).1 =
      Change.verdict root (.createDatabase name) := by
  obtain ⟨all, ha, hp⟩ := h.entries
  have hl : all.lookup name = none := by
    rw [lookup hw hp hn.ne_absolute, lookup_entries_of_new hn hnew]
  change (StorageError.ofDisk _).1 = _
  rw [makeDirectories_child (h.locate hr) ha hn, hl, Change.verdict]
  cases ((Path.ofText root).child name).fault? with
  | some cause => rfl
  | none =>
      dsimp only
      split <;> rfl

theorem verdict_storeTable {e : Text × List (Text × Table)} (he : e ∈ m.databases) (name : Text)
    (t : Table) :
    (Change.make (.ofText root) d (.storeTable (Key.path root (.table e.1 name)) t)).1 =
      Change.verdict root (.storeTable (.table e.1 name) t) := by
  have hreplace := replace_child_of_undotted (h.locate_database hr e.1)
    (h.entriesAt_database hw he) (Path.fileOf name) ?_ ?_ t.encode.toBytes
  · change (Disk.storeTable d ((Key.path root (.database e.1)).child (Path.fileOf name)) t).1 =
      ((Key.path root (.database e.1)).verdict (Path.fileOf name)).mapError _
    unfold Disk.storeTable
    rw [hreplace]
    cases (Key.path root (.database e.1)).verdict (Path.fileOf name) <;> rfl
  · intro n hmem
    obtain ⟨y, hy, rfl⟩ := List.mem_map.mp hmem
    obtain ⟨x, hx, rfl⟩ := List.mem_map.mp hy
    exact head_fileOf_ne_dot (isName_table hw he hx)
  · intro below hlook
    obtain ⟨x, -, hx⟩ := List.mem_map.mp (mem_of_lookup hlook)
    cases congrArg Prod.snd hx

theorem verdict_storeCounters (r : Registry) :
    (Change.make (.ofText root) d (.storeCounters r)).1 =
      Change.verdict root (.storeCounters r) := by
  obtain ⟨all, ha, hp⟩ := h.entries
  have hreplace := replace_child_of_undotted (h.locate hr) ha registryName
    (fun n hn => head_root hw hp hn) ?_ r.encode.toBytes
  · change (Disk.storeRegistry d (.ofText root) r).1 = _
    unfold Disk.storeRegistry Disk.registryPath
    rw [hreplace, Change.verdict]
    cases (Path.ofText root).verdict registryName <;> rfl
  · intro below hlook
    rw [lookup hw hp (by decide), lookup_entries_registry hw] at hlook
    split at hlook <;> cases hlook

/-- **A sound change** is made or fails as its verdict says.  The disk mirrors the changed memory
afterwards, or it is as it was. -/
theorem make_eq {change : Change Key} (hs : m.Sound change) :
    match change.verdict root with
    | .error why => (change.map (Key.path root)).make (.ofText root) d = (.error why, d)
    | .ok () =>
      ∃ d', (change.map (Key.path root)).make (.ofText root) d = (.ok (), d') ∧
        Mirrors root place d₀ (m.make change) d' := by
  have hverdict : ((change.map (Key.path root)).make (.ofText root) d).1 = change.verdict root := by
    cases hs with
    | createDatabase hn hnew => exact h.verdict_createDatabase hr hw hn hnew
    | dropDatabase he =>
        obtain ⟨d', hd, -⟩ := h.make_dropDatabase hr hw he
        exact congrArg Prod.fst hd
    | storeTable he hn hnew ht => exact h.verdict_storeTable hr hw he _ _
    | dropTable he hx =>
        obtain ⟨d', hd, -⟩ := h.make_dropTable hr hw he hx
        exact congrArg Prod.fst hd
    | storeCounters hr' hne => exact h.verdict_storeCounters hr hw _
  rcases h.make hr hw hs with ⟨why, hmake⟩ | ⟨d', hmake, h'⟩
  · rw [← hverdict, hmake]
  · rw [← hverdict, hmake]
    exact ⟨d', rfl, h'⟩

end changes

end Mirrors

/-! ### Commands -/

/-- The counters as they can be read below a root. -/
def readable (root : Text) (m : Memory) : Except StorageError Registry :=
  match ((Path.ofText root).child registryName).fault? with
  | some cause => .error (.io cause)
  | none => .ok m.counters

theorem eq_of_readable {r : Registry} (h : m.readable root = .ok r) : r = m.counters := by
  unfold readable at h
  split at h
  · cases h
  · exact (Except.ok.inj h).symm

theorem Mirrors.readRegistry_eq_readable (h : Mirrors root place d₀ m d)
    (hr : EmptyRoot root place d₀) (hw : m.WellFormed) :
    d.readRegistry (.ofText root) = m.readable root := by
  unfold readable
  cases hf : ((Path.ofText root).child registryName).fault? with
  | none => exact h.readRegistry_of_fault hr hw hf
  | some cause =>
      have hread : d.readText (Disk.registryPath (.ofText root)) = .error cause := by
        unfold readText Node.read findPath resolve
        rw [Disk.registryPath, hf]
        rfl
      have hne := Path.ne_missing_of_textFault? hf
      unfold Disk.readRegistry
      rw [hread]
      cases cause <;> first | rfl | exact absurd rfl hne

/-- Makes changes in order, up to the first for which there is no room below a root. -/
def makeWithin (root : Text) : Memory → List (Change Key) → Except StorageError Unit × Memory
  | m, [] => (.ok (), m)
  | m, change :: more =>
    match change.verdict root with
    | .ok () => makeWithin root (m.make change) more
    | .error why => (.error why, m)

/-- Runs a command within the limits of a root. -/
def runWithin (root : Text) (session : Session) (m : Memory) (c : Command) : Outcome :=
  match c.plan (m.catalogWith (m.readable root)) session with
  | .ok p =>
    match makeWithin root m p.changes with
    | (.ok (), m) => ⟨.ok p.result, p.session, m⟩
    | (.error what, m) => ⟨.error (.storage what), session, m⟩
  | .error why => ⟨.error why, session, m⟩

/-- Runs the command a text spells within the limits of a root. -/
def runTextWithin (root : Text) (session : Session) (m : Memory) (input : Text) : Outcome :=
  match Command.parse input with
  | .ok c => runWithin root session m c
  | .error why => ⟨.error why, session, m⟩

/-- Changes that are sound keep memory well-formed, as far as they are made. -/
theorem WellFormed.makeWithin (root : Text) (hw : m.WellFormed) {changes : List (Change Key)}
    (hs : Each Sound m changes) : (Memory.makeWithin root m changes).2.WellFormed := by
  induction changes generalizing m with
  | nil => exact hw
  | cons change more ih =>
      rw [Memory.makeWithin]
      split
      · exact ih (hw.make hs.1) hs.2
      · exact hw

/-- Every command keeps memory well-formed. -/
theorem WellFormed.runWithin (hw : m.WellFormed) (session : Session) {c : Command} (hc : c.Proper) :
    (Memory.runWithin root session m c).memory.WellFormed := by
  unfold Memory.runWithin
  split
  · next p hp =>
      have hs := sound_of_planned hw hc (Command.planned_of_plan hp) fun r hr => eq_of_readable hr
      have hmade := hw.makeWithin root hs
      split <;> next hmake => rwa [hmake] at hmade
  · exact hw

namespace Mirrors

/-- Sound changes one after the other. -/
theorem makeAll_eq (hr : EmptyRoot root place d₀) {changes : List (Change Key)}
    (h : Mirrors root place d₀ m d) (hw : m.WellFormed) (hs : Each Sound m changes) :
    (Change.makeAll (.ofText root) d (changes.map (Change.map (Key.path root)))).1 =
        (makeWithin root m changes).1 ∧
      Mirrors root place d₀ (makeWithin root m changes).2
        (Change.makeAll (.ofText root) d (changes.map (Change.map (Key.path root)))).2 := by
  induction changes generalizing m d with
  | nil => exact ⟨rfl, h⟩
  | cons change more ih =>
      have hmake := h.make_eq hr hw hs.1
      rw [List.map_cons, Change.makeAll, makeWithin]
      cases hverdict : change.verdict root with
      | error why =>
          rw [hverdict] at hmake
          rw [hmake]
          exact ⟨rfl, h⟩
      | ok =>
          rw [hverdict] at hmake
          obtain ⟨d', hd, h'⟩ := hmake
          rw [hd]
          exact ih h' (hw.make hs.1) hs.2

/-- A command is planned on a mirror as it is in memory within the limits of the root. -/
theorem plan_eq (h : Mirrors root place d₀ m d) (hr : EmptyRoot root place d₀) (hw : m.WellFormed)
    (call : Call) (session : Session) {c : Command} (hc : c.Proper) :
    c.plan (d.catalog (call.engine root).order (call.engine root).root) session =
      (c.plan (m.catalogWith (m.readable root)) session).map (Plan.map (Key.path root)) := by
  rw [← h.readRegistry_eq_readable hr hw]
  exact Command.plan_map (h.simulates hr hw call.listings) session hc

/-- A command on a mirror has the result and the session that it has in memory within the limits of the
root, and the disk mirrors the memory afterwards. -/
theorem run_eq (h : Mirrors root place d₀ m d) (hr : EmptyRoot root place d₀) (hw : m.WellFormed)
    (call : Call) (session : Session) {c : Command} (hc : c.Proper) :
    ((call.engine root).run session d c).result = (m.runWithin root session c).result ∧
      ((call.engine root).run session d c).session = (m.runWithin root session c).session ∧
      Mirrors root place d₀ (m.runWithin root session c).memory
        ((call.engine root).run session d c).disk := by
  unfold Engine.run runWithin
  rw [h.plan_eq hr hw call session hc]
  cases hp : c.plan (m.catalogWith (m.readable root)) session with
  | error why => exact ⟨rfl, rfl, h⟩
  | ok p =>
      have hs := sound_of_planned hw hc (Command.planned_of_plan hp) fun r hr => eq_of_readable hr
      obtain ⟨hfst, hsnd⟩ := makeAll_eq hr h hw hs
      dsimp only [Except.map]
      unfold Engine.perform
      change (Change.makeAll (call.engine root).root d (p.map (Key.path root)).changes).1 = _ at hfst
      change Mirrors _ _ _ _ (Change.makeAll (call.engine root).root d
        (p.map (Key.path root)).changes).2 at hsnd
      rcases hmem : makeWithin root m p.changes with ⟨_ | _, m'⟩ <;>
        rcases hdisk : Change.makeAll (call.engine root).root d (p.map (Key.path root)).changes
          with ⟨_ | _, d'⟩ <;>
        rw [hmem, hdisk] at hfst hsnd <;> cases hfst <;> exact ⟨rfl, rfl, hsnd⟩

/-- **A call on a mirror** has the result and the session that its text has in memory within the limits
of the root, and the disk mirrors the memory afterwards. -/
theorem runText_eq (h : Mirrors root place d₀ m d) (hr : EmptyRoot root place d₀) (hw : m.WellFormed)
    (call : Call) (session : Session) :
    ((call.engine root).runText session d call.input).result =
        (m.runTextWithin root session call.input).result ∧
      ((call.engine root).runText session d call.input).session =
        (m.runTextWithin root session call.input).session ∧
      Mirrors root place d₀ (m.runTextWithin root session call.input).memory
        ((call.engine root).runText session d call.input).disk ∧
      (m.runTextWithin root session call.input).memory.WellFormed := by
  unfold Engine.runText runTextWithin
  cases hp : Command.parse call.input with
  | error why => exact ⟨rfl, rfl, h, hw⟩
  | ok c =>
      have hc := Command.proper_of_parse hp
      obtain ⟨hresult, hsession, hdisk⟩ := h.run_eq hr hw call session hc
      exact ⟨hresult, hsession, hdisk, hw.runWithin session hc⟩

end Mirrors

end Memory

end FlatDb
