import FlatDb.Proofs.Effects
import FlatDb.Proofs.Parents
import Mathlib.Logic.Relation

/-! # Attempts to replace a file

`Node.replace` gives the disk after a replacement.  Here any step may fail for any reason, and the machine
may stop after any step.

* A `Replacement` is what is to be done; the mark in the name of the temporary file is left open.  An
  `Attempt` is how far it has come, with the disk at that time, and `Replacement.Next` says what can
  happen to it next.  A run that is cut off anywhere is an attempt that is reached
  (`Replacement.Reaches`).
* `Replacement.Sound` says what the disk is in each phase: the old one, the old one with the temporary
  file, or the one with the target in place.  `Sound.next`: **every step keeps this**, and
  `sound_of_reaches` follows a whole run.
* `Replacement.exists_reaches_replace`: **`Node.replace` is one of these runs**, whatever the disk and the
  path are. -/

namespace FlatDb

open Text FlatDb.Path

/-! ### Names with a mark -/

/-- The name of a temporary file beside a target, with a mark that tells it from others. -/
def markedName (target mark : Text) : Text := '.' :: target ++ '.' :: mark ++ ".tmp".toList

theorem size_lt_size_markedName (target mark : Text) : target.size < (markedName target mark).size := by
  have hd : ('.' : Char).utf8Size = 1 := by decide
  simp only [markedName, size_append, size, List.cons_append, hd]
  omega

/-- The free name that is chosen is a name with a mark. -/
theorem exists_mark_freshName (target : Text) (taken : List Text) :
    ∃ mark, freshName target taken = markedName target mark := by
  obtain ⟨k, hk⟩ := exists_freshNameFrom_eq target taken.length 0 taken
  refine ⟨List.replicate (36 - (ofNat k).length) '0' ++ ofNat k, ?_⟩
  rw [freshName, hk]
  simp [temporaryName, markedName]

/-! ### Attempts -/

/-- What is to be done: the bytes are to be put into the file that the path leads to. -/
structure Replacement where
  path : Path
  mark : Text
  bytes : ByteArray

/-- How far a replacement has come.  While the temporary file is written, it holds so many bytes of the
contents. -/
inductive Phase (ε : Type) where
  | begun
  | writing (written : Nat)
  | synced
  | failed (why : ε)
  | returned (result : Except ε Unit)

/-- A replacement under way, and the disk at that time. -/
structure Attempt (ε : Type) where
  phase : Phase ε
  disk : Disk

/-- The phases before a step that can fail. -/
inductive Phase.Pending {ε : Type} : Phase ε → Prop where
  | begun : Pending .begun
  | writing (written : Nat) : Pending (.writing written)
  | synced : Pending .synced

namespace Replacement

variable {ε : Type}

/-- The name of the temporary file. -/
def temp (r : Replacement) : Text := markedName (r.path.fileName?.getD []) r.mark

/-- No entry of the directory has the name of the temporary file. -/
def Fresh (r : Replacement) (d : Disk) : Prop :=
  ∀ dir, d.locate r.path.beside = .ok dir → r.temp ∉ d.namesAt dir

/-- What can happen next.  A step that goes well is the step of `Step.run`; a failing one changes nothing,
except that a part of the contents may have been written before.  After a failure the temporary file is
removed, if it is there, and this does not fail. -/
inductive Next (r : Replacement) : Attempt ε → Attempt ε → Prop where
  | create {d d' : Disk} {dir : Place} (hdir : d.locate r.path.beside = .ok dir)
      (hrun : (Step.create r.temp).run dir d = .ok d') : r.Next ⟨.begun, d⟩ ⟨.writing 0, d'⟩
  | write {d d' : Disk} {dir : Place} {m n : Nat} (hdir : d.locate r.path.beside = .ok dir)
      (hmn : m ≤ n) (hn : n ≤ r.bytes.size)
      (hrun : (Step.write r.temp (r.bytes.extract 0 n)).run dir d = .ok d') :
      r.Next ⟨.writing m, d⟩ ⟨.writing n, d'⟩
  | sync {d d' : Disk} {dir : Place} (hdir : d.locate r.path.beside = .ok dir)
      (hrun : (Step.sync r.temp).run dir d = .ok d') :
      r.Next ⟨.writing r.bytes.size, d⟩ ⟨.synced, d'⟩
  | rename {d d' : Disk} {dir : Place} {parent : Path} {target : Text}
      (hdir : d.locate r.path.beside = .ok dir) (htarget : r.path.split? = some (parent, target))
      (hstray : d.strayCause? r.path = none) (hrun : (Step.rename r.temp target).run dir d = .ok d') :
      r.Next ⟨.synced, d⟩ ⟨.returned (.ok ()), d'⟩
  | fail {d : Disk} {phase : Phase ε} (h : phase.Pending) (why : ε) :
      r.Next ⟨phase, d⟩ ⟨.failed why, d⟩
  | remove {d : Disk} {dir : Place} (hdir : d.locate r.path.beside = .ok dir) (why : ε) :
      r.Next ⟨.failed why, d⟩ ⟨.returned (.error why), d.erase dir r.temp⟩
  | nothingToRemove {d : Disk}
      (h : ∀ dir, d.locate r.path.beside = .ok dir → d.look (dir ++ [r.temp]) = none) (why : ε) :
      r.Next ⟨.failed why, d⟩ ⟨.returned (.error why), d⟩

/-- An attempt that is reached from a disk; the run may go on from there, or be cut off. -/
def Reaches (r : Replacement) (d : Disk) (a : Attempt ε) : Prop :=
  Relation.ReflTransGen r.Next ⟨.begun, d⟩ a

end Replacement

/-! ### Places where nothing is -/

namespace Node

variable {d : Disk} {dir : Place} {name : Text}

/-- Nothing is below a place where there is no directory. -/
theorem look_below_of_error {cause : Cause} (h : d.entriesAt dir = .error cause) (more : Place) :
    d.look (dir ++ name :: more) = none := by
  unfold look
  rw [find_append]
  unfold entriesAt at h
  rcases hf : d.find dir with e | bytes | entries
  · rfl
  · rfl
  · rw [hf] at h
    cases h

theorem entriesAt_alter_of_error {f : List (Text × Node) → List (Text × Node)} {cause : Cause}
    (h : d.entriesAt dir = .error cause) : (alter f dir d).entriesAt dir = .error cause := by
  unfold entriesAt at h ⊢
  rw [find_alter_self]
  rcases hf : d.find dir with e | bytes | entries
  · rwa [hf] at h
  · rwa [hf] at h
  · rw [hf] at h
    cases h

theorem look_of_not_mem (h : name ∉ d.namesAt dir) : d.look (dir ++ [name]) = none := by
  cases he : d.entriesAt dir with
  | error cause => exact look_below_of_error he []
  | ok entries =>
      rw [namesAt_eq he] at h
      exact look_of_lookup_none he (Entries.lookup_eq_none_iff.mpr h) List.prefix_rfl

/-- Removing a file that is not there is not seen. -/
theorem look_erase_of_not_mem (h : name ∉ d.namesAt dir) (q : Place) :
    (d.erase dir name).look q = d.look q := by
  cases he : d.entriesAt dir with
  | ok entries =>
      rw [namesAt_eq he] at h
      rw [erase, alter_of_eq he (Entries.erase_of_not_mem h)]
  | error cause =>
      by_cases hq : dir ++ [name] <+: q
      · obtain ⟨more, rfl⟩ := hq
        have he' : (d.erase dir name).entriesAt dir = .error cause := entriesAt_alter_of_error he
        rw [List.append_assoc, List.singleton_append, look_below_of_error he, look_below_of_error he']
      · exact look_alter (changesOnly_erase name) hq d

end Node

/-! ### Steps that go well -/

namespace Step

variable {d d' : Disk} {dir : Place} {temp target : Text}

theorem create_eq_ok (h : (create temp).run dir d = .ok d') :
    ∃ entries, d.entriesAt dir = .ok entries ∧ temp.size ≤ maxNameSize ∧
      d' = d.put dir temp (.file .empty) := by
  obtain ⟨entries, he, h⟩ := bind_eq_ok_iff.mp h
  refine ⟨entries, he, ?_⟩
  by_cases hs : maxNameSize < temp.size
  · rw [if_pos hs] at h
    cases h
  · rw [if_neg hs] at h
    refine ⟨Nat.le_of_not_lt hs, ?_⟩
    dsimp only at h
    split at h
    · cases h
    · exact (Except.ok.inj h).symm

theorem rename_eq_ok (h : (rename temp target).run dir d = .ok d') :
    ∃ entries node, d.entriesAt dir = .ok entries ∧ entries.lookup temp = some node ∧
      target.size ≤ maxNameSize ∧ (∀ below, entries.lookup target ≠ some (.directory below)) ∧
      d' = (d.erase dir temp).put dir target node := by
  obtain ⟨entries, he, h⟩ := bind_eq_ok_iff.mp h
  by_cases hs : maxNameSize < target.size
  · rw [if_pos hs] at h
    cases h
  · rw [if_neg hs] at h
    dsimp only at h
    split at h
    · cases h
    · cases h
    · next node _ hnode htarget =>
        exact ⟨entries, _, he, hnode, Nat.le_of_not_lt hs, fun below hb => htarget below hb,
          (Except.ok.inj h).symm⟩

end Step

/-! ### The disk in each phase -/

namespace Replacement

open Node

variable {ε : Type} {r : Replacement} {d d' : Disk} {dir place : Place} {part : ByteArray}
  {entries : List (Text × Node)} {a b : Attempt ε}

/-- The temporary file lies on the disk and holds a part of the contents. -/
def Holds (r : Replacement) (d : Disk) (part : ByteArray) (d' : Disk) : Prop :=
  ∃ dir entries, d.locate r.path.beside = .ok dir ∧ d.entriesAt dir = .ok entries ∧
    r.temp.size ≤ maxNameSize ∧ d' = d.put dir r.temp (.file part)

/-- The target has been put in its place, where no directory was. -/
def Done (r : Replacement) (d d' : Disk) : Prop :=
  ∃ dir entries parent target, d.locate r.path.beside = .ok dir ∧ d.entriesAt dir = .ok entries ∧
    r.path.split? = some (parent, target) ∧ d.strayCause? r.path = none ∧
    target.size ≤ maxNameSize ∧ (∀ below, entries.lookup target ≠ some (.directory below)) ∧
    d' = d.put dir target (.file r.bytes)

/-- What the disk is in each phase of a replacement that began on another one. -/
def Sound (r : Replacement) (d : Disk) : Attempt ε → Prop
  | ⟨.begun, d'⟩ => d' = d
  | ⟨.writing n, d'⟩ => r.Holds d (r.bytes.extract 0 n) d'
  | ⟨.synced, d'⟩ => r.Holds d r.bytes d'
  | ⟨.failed _, d'⟩ => d' = d ∨ ∃ part, r.Holds d part d'
  | ⟨.returned (.ok ()), d'⟩ => r.Done d d'
  | ⟨.returned (.error _), d'⟩ => ∀ q, d'.look q = d.look q

theorem temp_ne_target {parent : Path} {target : Text} (h : r.path.split? = some (parent, target)) :
    target ≠ r.temp := by
  intro he
  have hs := size_lt_size_markedName target r.mark
  rw [temp, fileName?_eq, h] at he
  change target = markedName target r.mark at he
  rw [← he] at hs
  omega

theorem look_temp (h : r.Fresh d) (hdir : d.locate r.path.beside = .ok dir) :
    d.look (dir ++ [r.temp]) = none := look_of_not_mem (h dir hdir)

/-- A path does not lead to the temporary file of its own replacement. -/
theorem place_ne_temp (hdir : d.locate r.path.beside = .ok dir) (h : d.resolve r.path = .ok place) :
    place ≠ dir ++ [r.temp] := by
  have hl := (resolve_eq_ok_iff.mp h).2
  cases hs : r.path.split? with
  | none =>
      rw [place_of_nameless hs hdir hl]
      intro he
      have := congrArg List.length he
      simp at this
  | some split =>
      obtain ⟨parent, target⟩ := split
      rw [place_of_beside hs hdir hl, ne_eq, List.append_cancel_left_eq, List.singleton_inj]
      exact temp_ne_target hs

section written
variable (hfresh : r.Fresh d) (hdir : d.locate r.path.beside = .ok dir)
  (he : d.entriesAt dir = .ok entries)
include hfresh hdir he

theorem lookup_temp : entries.lookup r.temp = none := by
  have h := hfresh dir hdir
  rw [namesAt_eq he] at h
  exact Entries.lookup_eq_none_iff.mpr h

theorem locate_written (part : ByteArray) :
    (d.put dir r.temp (.file part)).locate r.path.beside = .ok dir :=
  locate_put_file hdir he (by simp [lookup_temp hfresh hdir he]) part

/-- The directory beside the path is the one the temporary file was put in. -/
theorem dir_eq_of_locate {dir' : Place}
    (h : (d.put dir r.temp (.file part)).locate r.path.beside = .ok dir') : dir' = dir := by
  rw [locate_written hfresh hdir he] at h
  exact (Except.ok.inj h).symm

theorem erase_put_temp (part : ByteArray) : (d.put dir r.temp (.file part)).erase dir r.temp = d := by
  have hn : r.temp ∉ entries.map Prod.fst := Entries.lookup_eq_none_iff.mp (lookup_temp hfresh hdir he)
  rw [put, erase, alter_alter]
  exact alter_of_eq he (erase_set_of_not_mem hn _)

/-- The temporary file is seen at its own place only. -/
theorem agreeBut_written (part : ByteArray) :
    AgreeBut (· = dir ++ [r.temp]) d (d.put dir r.temp (.file part)) := fun _ hq =>
  look_put_of_ne he (by simp [lookup_temp hfresh hdir he]) part hq

end written

/-- **Every step keeps what is said of the disk.** -/
theorem Sound.next (hfresh : r.Fresh d) (ha : r.Sound d a) (h : r.Next a b) : r.Sound d b := by
  cases h with
  | create hdir hrun =>
      obtain rfl : _ = d := ha
      obtain ⟨entries, he, hs, rfl⟩ := Step.create_eq_ok hrun
      exact ⟨_, entries, hdir, he, hs, by rw [ByteArray.extract_same]⟩
  | write hdir hmn hn hrun =>
      obtain ⟨dir, entries, hd, he, hs, rfl⟩ := ha
      cases dir_eq_of_locate hfresh hd he hdir
      cases hrun
      exact ⟨_, entries, hd, he, hs, put_put ..⟩
  | sync hdir hrun =>
      cases hrun
      rw [Sound, ByteArray.extract_zero_size] at ha
      exact ha
  | rename hdir htarget hstray hrun =>
      obtain ⟨dir, entries, hd, he, hs, rfl⟩ := ha
      cases dir_eq_of_locate hfresh hd he hdir
      obtain ⟨entries', node, he', hnode, hsize, hbelow, rfl⟩ := Step.rename_eq_ok hrun
      cases (entriesAt_alter he).symm.trans he'
      rw [Entries.lookup_set, if_pos rfl] at hnode
      cases hnode
      refine ⟨_, entries, _, _, hd, he, htarget, ?_, hsize, fun below => ?_, ?_⟩
      · rw [strayCause?_eq_none_iff] at hstray ⊢
        exact hstray
      · have hb := hbelow below
        rwa [Entries.lookup_set, if_neg (temp_ne_target htarget)] at hb
      · rw [erase_put_temp hfresh hd he]
  | fail hphase why =>
      cases hphase with
      | begun => exact .inl ha
      | writing n => exact .inr ⟨_, ha⟩
      | synced => exact .inr ⟨_, ha⟩
  | remove hdir why =>
      rcases ha with rfl | ⟨part, dir, entries, hd, he, hs, rfl⟩
      · exact look_erase_of_not_mem (hfresh _ hdir)
      · cases dir_eq_of_locate hfresh hd he hdir
        intro q
        rw [erase_put_temp hfresh hd he]
  | nothingToRemove h why =>
      rcases ha with rfl | ⟨part, dir, entries, hd, he, hs, rfl⟩
      · exact fun _ => rfl
      · have hl := h _ (locate_written hfresh hd he part)
        rw [look_put_self he hs] at hl
        cases hl

theorem sound_of_reaches (hfresh : r.Fresh d) (h : r.Reaches d a) : r.Sound d a := by
  induction h with
  | refl => exact rfl
  | tail _ hnext ih => exact ih.next hfresh hnext

/-! ### The replacement of the library -/

variable {p parent : Path} {target : Text} {bytes : ByteArray}

theorem exists_fresh (d : Disk) (p : Path) (bytes : ByteArray) : ∃ mark, Fresh ⟨p, mark, bytes⟩ d := by
  cases hdir : d.locate p.beside with
  | error cause =>
      refine ⟨[], fun dir h => ?_⟩
      rw [hdir] at h
      cases h
  | ok dir =>
      obtain ⟨mark, hmark⟩ := exists_mark_freshName (p.fileName?.getD []) (d.namesAt dir)
      refine ⟨mark, fun dir' h => ?_⟩
      cases hdir.symm.trans h
      have hn := freshName_not_mem (p.fileName?.getD []) (d.namesAt dir)
      rwa [hmark] at hn

/-- A replacement can fail at once. -/
theorem reaches_failure (hfresh : r.Fresh d) (why : ε) : r.Reaches d ⟨.returned (.error why), d⟩ :=
  (Relation.ReflTransGen.single (.fail .begun why)).tail
    (.nothingToRemove (fun _ hdir => look_temp hfresh hdir) why)

end Replacement

namespace Step

theorem runAll_cons_eq_ok_iff {dir : Place} {d d' : Disk} {step : Step} {more : List Step} :
    runAll dir d (step :: more) = (.ok (), d') ↔
      ∃ d₁, step.run dir d = .ok d₁ ∧ runAll dir d₁ more = (.ok (), d') := by
  rw [runAll]
  cases step.run dir d <;> simp

end Step

namespace Replacement

open Node

variable {ε : Type} {r : Replacement} {d d' : Disk} {dir : Place} {p parent : Path} {target : Text}
  {bytes : ByteArray}

/-- All steps going well is a run. -/
theorem reaches_of_runAll (hfresh : r.Fresh d) (hdir : d.locate r.path.beside = .ok dir)
    (htarget : r.path.split? = some (parent, target)) (hstray : d.strayCause? r.path = none)
    (h : Step.runAll dir d (replaceSteps r.temp target r.bytes) = (.ok (), d')) :
    r.Reaches d (⟨.returned (.ok ()), d'⟩ : Attempt ε) := by
  obtain ⟨d₁, hcreate, h⟩ := Step.runAll_cons_eq_ok_iff.mp h
  obtain ⟨d₂, hwrite, h⟩ := Step.runAll_cons_eq_ok_iff.mp h
  obtain ⟨d₃, hsync, h⟩ := Step.runAll_cons_eq_ok_iff.mp h
  obtain ⟨d₄, hrename, h⟩ := Step.runAll_cons_eq_ok_iff.mp h
  cases h
  obtain ⟨entries, he, -, rfl⟩ := Step.create_eq_ok hcreate
  have hdir₁ := locate_written hfresh hdir he .empty
  have hdir₂ : d₂.locate r.path.beside = .ok dir := by
    cases hwrite
    rw [put_put]
    exact locate_written hfresh hdir he r.bytes
  cases hsync
  have hstray₂ : d₂.strayCause? r.path = none :=
    strayCause?_eq_none_iff.mpr (strayCause?_eq_none_iff.mp hstray)
  have hwhole : (Step.write r.temp (r.bytes.extract 0 r.bytes.size)).run dir
      (d.put dir r.temp (.file .empty)) = .ok d₂ := by
    rw [ByteArray.extract_zero_size]
    exact hwrite
  exact (((Relation.ReflTransGen.single (.create hdir hcreate)).tail
    (.write hdir₁ (Nat.zero_le _) (Nat.le_refl _) hwhole)).tail (.sync hdir₂ rfl)).tail
      (.rename hdir₂ htarget hstray₂ hrename)

/-- The name that `Node.replaceAt` chooses is the name of a temporary file. -/
theorem exists_temp_eq (htarget : p.split? = some (parent, target))
    (hdir : d.locate p.beside = .ok dir) (bytes : ByteArray) :
    ∃ mark, temp ⟨p, mark, bytes⟩ = freshName target (d.namesAt dir) ∧ Fresh ⟨p, mark, bytes⟩ d := by
  obtain ⟨mark, hmark⟩ := exists_mark_freshName target (d.namesAt dir)
  have htemp : temp ⟨p, mark, bytes⟩ = freshName target (d.namesAt dir) := by
    rw [hmark, temp, fileName?_eq, htarget]
    rfl
  refine ⟨mark, htemp, fun dir' h => ?_⟩
  cases hdir.symm.trans h
  rw [htemp]
  exact freshName_not_mem target (d.namesAt dir)

theorem beside_of_locate (htarget : p.split? = some (parent, target))
    (h : d.locate parent = .ok dir) : p.beside = parent := by
  have hne : parent ≠ ofText [] := by
    rintro rfl
    cases h
  unfold beside
  rw [htarget]
  exact if_neg hne

/-- A failing replacement below a place is a run, also where there is no directory. -/
theorem exists_reaches_of_replaceAt_error (htarget : p.split? = some (parent, target))
    (hdir : d.locate p.beside = .ok dir) {cause : Cause}
    (h : d.replaceAt dir target bytes = (.error cause, d')) :
    ∃ mark, Fresh ⟨p, mark, bytes⟩ d ∧ Reaches ⟨p, mark, bytes⟩ d ⟨.returned (.error cause), d'⟩ := by
  obtain ⟨mark, htemp, hfresh⟩ := exists_temp_eq htarget hdir bytes
  refine ⟨mark, hfresh, ?_⟩
  cases he : d.entriesAt dir with
  | ok entries =>
      rcases replaceAt_cases he target bytes with ⟨cause', hr⟩ | ⟨hr, -⟩
      · cases hr.symm.trans h
        exact reaches_failure hfresh cause
      · cases hr.symm.trans h
  | error cause' =>
      have hcreate (name : Text) : (Step.create name).run dir d = .error cause' := by
        simp only [Step.run, he]
        rfl
      unfold replaceAt at h
      simp only [replaceSteps, Step.runAll, hcreate, ← htemp] at h
      cases h
      exact (Relation.ReflTransGen.single (.fail .begun cause)).tail (.remove hdir cause)

/-- A replacement that goes well is a run. -/
theorem exists_reaches_of_replaceAt_ok (htarget : p.split? = some (parent, target))
    (hdir : d.locate p.beside = .ok dir) (hstray : d.strayCause? p = none)
    (h : d.replaceAt dir target bytes = (.ok (), d')) :
    ∃ mark, Fresh ⟨p, mark, bytes⟩ d ∧
      Reaches ⟨p, mark, bytes⟩ d (⟨.returned (.ok ()), d'⟩ : Attempt ε) := by
  obtain ⟨mark, htemp, hfresh⟩ := exists_temp_eq htarget hdir bytes
  refine ⟨mark, hfresh, reaches_of_runAll hfresh hdir htarget hstray ?_⟩
  unfold replaceAt at h
  dsimp only at h
  rw [← htemp] at h
  split at h
  · next hrun =>
      cases h
      exact hrun
  · cases h

/-- **The replacement of the library is a run**, whatever the disk and the path. -/
theorem exists_reaches_replace (d : Disk) (p : Path) (bytes : ByteArray) :
    ∃ mark, Fresh ⟨p, mark, bytes⟩ d ∧
      Reaches ⟨p, mark, bytes⟩ d ⟨.returned (d.replace p bytes).1, (d.replace p bytes).2⟩ := by
  have hfail (cause : Cause) : ∃ mark, Fresh ⟨p, mark, bytes⟩ d ∧
      Reaches ⟨p, mark, bytes⟩ d ⟨.returned (.error cause), d⟩ := by
    obtain ⟨mark, hfresh⟩ := exists_fresh d p bytes
    exact ⟨mark, hfresh, reaches_failure hfresh cause⟩
  unfold Node.replace
  split
  · exact hfail _
  · split
    · split <;> exact hfail _
    · next parent target htarget =>
        split
        · exact hfail _
        · next dir hparent =>
            have hdir : d.locate p.beside = .ok dir := by
              rwa [beside_of_locate htarget hparent]
            rcases hr : d.replaceAt dir target bytes with ⟨cause | _, d'⟩
            · have herror := exists_reaches_of_replaceAt_error htarget hdir hr
              cases d.strayCause? p with
              | none => exact herror
              | some stray =>
                  cases cause with
                  | isDirectory => exact hfail stray
                  | _ => exact herror
            · cases hstray : d.strayCause? p with
              | none => exact exists_reaches_of_replaceAt_ok htarget hdir hstray hr
              | some stray => exact hfail stray

end Replacement

end FlatDb
