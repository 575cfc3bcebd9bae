import FlatDb.Proofs.Operations
import FlatDb.Proofs.Plans

/-! # Directories without repeated names

A disk is lawful when no directory holds a name twice.  Entries are lists, so this has to be said; a
disk that is lawful at first stays so.

* `lawful_directory_iff`: a directory is lawful when its own names differ and all its entries are
  lawful.
* `Lawful.alter`: so an alteration of one directory is lawful when it is lawful as a change of entries.
* `Engine.lawful_runText`: **no command repeats a name**, whether it succeeds or fails. -/

namespace FlatDb

namespace Node

/-- No directory holds a name twice. -/
def Lawful (d : Disk) : Prop :=
  ∀ place entries, d.entriesAt place = .ok entries → (entries.map Prod.fst).Nodup

theorem lawful_file (bytes : ByteArray) : Lawful (.file bytes) := by
  intro place entries h
  cases place <;> cases h

theorem entriesAt_cons_iff {entries below : List (Text × Node)} {name : Text} {more : Place} :
    (directory entries).entriesAt (name :: more) = .ok below ↔
      name.size ≤ maxNameSize ∧
        ∃ node, entries.lookup name = some node ∧ node.entriesAt more = .ok below := by
  rw [entriesAt_eq_ok_iff, find_directory_cons]
  by_cases hs : maxNameSize < name.size
  · simp [hs, Nat.not_le.mpr hs]
  · cases entries.lookup name <;> simp [hs, Nat.le_of_not_lt hs, entriesAt_eq_ok_iff]

/-- A directory is lawful when its names differ and its entries are lawful. -/
theorem lawful_directory_iff {entries : List (Text × Node)} :
    Lawful (.directory entries) ↔ (entries.map Prod.fst).Nodup ∧
      ∀ name node, name.size ≤ maxNameSize → entries.lookup name = some node → Lawful node := by
  constructor
  · intro h
    refine ⟨h [] entries rfl, fun name node hs hl place below hb => ?_⟩
    exact h (name :: place) below (entriesAt_cons_iff.mpr ⟨hs, node, hl, hb⟩)
  · rintro ⟨hn, hbelow⟩ place below h
    cases place with
    | nil =>
        cases h
        exact hn
    | cons name more =>
        obtain ⟨hs, node, hl, hb⟩ := entriesAt_cons_iff.mp h
        exact hbelow name node hs hl more below hb

theorem lawful_directory {entries : List (Text × Node)} (hn : (entries.map Prod.fst).Nodup)
    (h : ∀ e ∈ entries, Lawful e.2) : Lawful (.directory entries) :=
  lawful_directory_iff.mpr ⟨hn, fun _ _ _ hl => h _ (Entries.mem_of_lookup hl)⟩

theorem lawful_empty : Lawful (.directory []) :=
  lawful_directory List.nodup_nil fun _ he => nomatch he

/-- Setting a name keeps names apart: it takes the place of the old one. -/
theorem Lawful.set {entries : List (Text × Node)} (h : Lawful (.directory entries)) {name : Text}
    {node : Node} (hn : name.size ≤ maxNameSize → Lawful node) :
    Lawful (.directory (Entries.set name node entries)) := by
  rw [lawful_directory_iff] at h ⊢
  obtain ⟨hnames, hbelow⟩ := h
  refine ⟨?_, fun n other hs hl => ?_⟩
  · rw [Entries.names_set]
    split
    · exact hnames
    · next hnot =>
        refine List.nodup_append.mpr ⟨hnames, List.pairwise_singleton _ name, fun a ha b hb => ?_⟩
        rintro rfl
        exact hnot (List.mem_singleton.mp hb ▸ ha)
  · rw [Entries.lookup_set] at hl
    split at hl
    · next he =>
        cases hl
        exact hn (he ▸ hs)
    · exact hbelow n other hs hl

theorem Lawful.eraseEntry {entries : List (Text × Node)} (h : Lawful (.directory entries))
    (name : Text) : Lawful (.directory (Entries.erase name entries)) := by
  rw [lawful_directory_iff] at h ⊢
  obtain ⟨hnames, hbelow⟩ := h
  refine ⟨hnames.sublist ((Entries.erase_sublist name entries).map _), fun n other hs hl => ?_⟩
  rw [Entries.lookup_erase] at hl
  split at hl
  · cases hl
  · exact hbelow n other hs hl

/-- An alteration of one directory. -/
theorem Lawful.alter {f : List (Text × Node) → List (Text × Node)}
    (hf : ∀ entries, Lawful (.directory entries) → Lawful (.directory (f entries))) {dir : Place}
    {d : Disk} (h : Lawful d) : Lawful (Node.alter f dir d) := by
  induction dir generalizing d with
  | nil =>
      cases d with
      | file bytes => exact h
      | directory entries => exact hf entries h
  | cons name more ih =>
      cases d with
      | file bytes => exact h
      | directory entries =>
          rw [Node.alter]
          cases hl : entries.lookup name with
          | none => exact h
          | some node => exact h.set fun hs => ih ((lawful_directory_iff.mp h).2 name node hs hl)

section operations
variable {d : Disk} (h : d.Lawful)
include h

theorem Lawful.put (dir : Place) (name : Text) {node : Node} (hn : node.Lawful) :
    (d.put dir name node).Lawful := Lawful.alter (fun _ he => he.set fun _ => hn) h

theorem Lawful.erase (dir : Place) (name : Text) : (d.erase dir name).Lawful :=
  Lawful.alter (fun _ he => he.eraseEntry name) h

theorem Lawful.makeSteps (here : Place) (steps : List Text) : (d.makeSteps here steps).2.Lawful := by
  induction steps generalizing d here with
  | nil => exact h
  | cons step more ih =>
      rw [Node.makeSteps]
      cases d.entriesAt here with
      | error cause => exact h
      | ok entries =>
          dsimp only
          split
          · exact ih h here
          · split
            · exact ih h _
            · split
              · exact h
              · split
                · exact ih h _
                · exact h
                · split
                  · exact h
                  · exact ih (h.put here step lawful_empty) _

theorem Lawful.makeDirectories (p : Path) : (d.makeDirectories p).2.Lawful := by
  unfold Node.makeDirectories
  split
  · exact h
  · exact h.makeSteps _ _

theorem Lawful.remove {p : Path} {d' : Disk} (hr : d.remove p = .ok d') : d'.Lawful := by
  obtain ⟨place, -, hr⟩ := bind_eq_ok_iff.mp hr
  obtain ⟨node, -, hr⟩ := bind_eq_ok_iff.mp hr
  split at hr
  · cases hr
    exact h.erase _ _
  · cases hr

theorem Lawful.replaceAt (dir : Place) (target : Text) (bytes : ByteArray) :
    (d.replaceAt dir target bytes).2.Lawful := by
  cases he : d.entriesAt dir with
  | error cause =>
      have hcreate (temp : Text) : (Step.create temp).run dir d = .error cause := by
        simp only [Step.run, he]
        rfl
      unfold Node.replaceAt
      simp only [replaceSteps, Step.runAll, hcreate]
      exact h.erase dir _
  | ok entries =>
      rcases replaceAt_cases he target bytes with ⟨cause, hr⟩ | ⟨hr, -⟩
      · rw [hr]
        exact h
      · rw [hr]
        exact h.put dir target (lawful_file bytes)

theorem Lawful.replace (p : Path) (bytes : ByteArray) : (d.replace p bytes).2.Lawful := by
  unfold Node.replace
  split
  · exact h
  · split
    · split <;> exact h
    · next dir target _ =>
        split
        · exact h
        · next place _ =>
            have hr := h.replaceAt place target bytes
            split
            · exact hr
            · exact h
            · exact h
            · exact hr

end operations

end Node

/-! ### Commands -/

section commands
variable {d : Disk} (h : d.Lawful)
include h

theorem Change.lawful_make (root : Path) (change : Change Path) : (change.make root d).2.Lawful := by
  have hdiscard (p : Path) : (StorageError.ofDisk (d.discard p)).2.Lawful := by
    rw [StorageError.snd_ofDisk]
    unfold Disk.discard
    split
    · next hr => exact h.remove hr
    · exact h
  cases change with
  | createDatabase name =>
      rw [make, StorageError.snd_ofDisk]
      exact h.makeDirectories _
  | dropDatabase p => exact hdiscard p
  | dropTable p => exact hdiscard p
  | storeTable p t =>
      rw [make, Disk.snd_storeTable]
      exact h.replace p _
  | storeCounters r =>
      rw [make, Disk.snd_storeRegistry]
      exact h.replace _ _

theorem Change.lawful_makeAll (root : Path) (changes : List (Change Path)) :
    (makeAll root d changes).2.Lawful := by
  induction changes generalizing d with
  | nil => exact h
  | cons change more ih =>
      have hmake := lawful_make h root change
      rw [makeAll]
      split
      · next hx =>
          rw [hx] at hmake
          exact ih hmake
      · exact hmake

/-- **No command repeats a name**, whether it succeeds or fails. -/
theorem Engine.lawful_runText (e : Engine) (session : Session) (input : Text) :
    (e.runText session d input).disk.Lawful := by
  unfold runText
  split
  · unfold run
    split
    · next p _ =>
        rw [disk_perform]
        exact Change.lawful_makeAll h e.root p.changes
    · exact h
  · exact h

end commands

end FlatDb
