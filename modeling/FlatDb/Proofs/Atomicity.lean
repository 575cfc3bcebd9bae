import FlatDb.Proofs.Attempts
import FlatDb.Proofs.Failure

/-! # Atomic replacements

What readers see while a file is replaced, whatever happens on the way.

* `Node.see` is what is at the end of a path, and `Node.resolve_iff_of_agreeBut` says that paths lead to
  the same places while no directory comes or goes.
* `Replacement.Atomic` is said of a disk at any time, `Replacement.Settled` of one on which a replacement
  has returned.
* `replacement_atomic`: **readers see the old file or the new one**, and nothing else changes. -/

namespace FlatDb

open Text FlatDb.Path

/-! ### What is at the end of a path -/

namespace Node

variable {d d' : Disk} {place : Place} {p : Path}

/-- What a reader sees at the end of a path: nothing, a directory, or a file with its bytes. -/
def see (d : Disk) (p : Path) : Option (Option ByteArray) :=
  match d.resolve p with
  | .ok place => d.look place
  | .error _ => none

theorem see_eq_look (h : d.resolve p = .ok place) : d.see p = d.look place := by
  rw [see, h]

theorem read_eq_ok_iff {bytes : ByteArray} : d.read p = .ok bytes ↔ d.see p = some (some bytes) := by
  unfold Node.read see
  cases hp : d.resolve p with
  | error cause =>
      rw [findPath, hp]
      exact ⟨nofun, nofun⟩
  | ok place =>
      rw [findPath_of_resolve hp]
      unfold look
      dsimp only
      cases d.find place with
      | error cause => exact ⟨nofun, nofun⟩
      | ok node => cases node <;> simp

/-- Paths lead to the same places while no directory comes or goes. -/
theorem resolve_iff_of_agreeBut {changed : Place → Prop} (h : AgreeBut changed d d')
    (hd : ∀ q, changed q → d.look q ≠ some none ∧ d'.look q ≠ some none) (p : Path) (place : Place) :
    d'.resolve p = .ok place ↔ d.resolve p = .ok place := by
  have hkeeps : KeepsDirectories d d' := by
    intro q hq
    rwa [h q fun hc => (hd q hc).1 hq]
  have hkeeps' : KeepsDirectories d' d := by
    intro q hq
    rwa [← h q fun hc => (hd q hc).2 hq]
  rw [resolve_eq_ok_iff, resolve_eq_ok_iff]
  exact and_congr_right fun _ => ⟨locate_mono hkeeps', locate_mono hkeeps⟩

theorem see_congr (h : ∀ place, d'.resolve p = .ok place ↔ d.resolve p = .ok place)
    (hl : ∀ place, d.resolve p = .ok place → d'.look place = d.look place) : d'.see p = d.see p := by
  cases hp : d.resolve p with
  | ok place => rw [see_eq_look hp, see_eq_look ((h place).mpr hp), hl place hp]
  | error cause =>
      cases hp' : d'.resolve p with
      | ok place =>
          rw [(h place).mp hp'] at hp
          cases hp
      | error cause' => rw [see, see, hp, hp']

end Node

namespace Replacement

open Node

variable {ε : Type} {r : Replacement} {d d' : Disk} {dir : Place} {part : ByteArray} {a : Attempt ε}

/-! ### What is seen of a replacement -/

/-- What readers find at any time: every path leads where it led, the target is what it was or holds the
new contents, and only the target and the temporary file differ from before. -/
structure Atomic (r : Replacement) (d d' : Disk) : Prop where
  paths : ∀ p place, d'.resolve p = .ok place ↔ d.resolve p = .ok place
  target : d'.see r.path = d.see r.path ∨ d'.see r.path = some (some r.bytes)
  others : AgreeBut (fun q => d.resolve r.path = .ok q ∨
    ∃ dir, d.locate r.path.beside = .ok dir ∧ q = dir ++ [r.temp]) d d'

theorem atomic_of_look_eq (h : ∀ q, d'.look q = d.look q) : r.Atomic d d' := by
  have hagree : AgreeBut (fun _ => False) d d' := fun q _ => h q
  have hpaths := resolve_iff_of_agreeBut hagree fun _ hq => hq.elim
  exact ⟨hpaths, .inl (see_congr (hpaths r.path) fun place _ => h place), fun q _ => h q⟩

theorem Holds.atomic (hfresh : r.Fresh d) (h : r.Holds d part d') : r.Atomic d d' := by
  obtain ⟨dir, entries, hdir, he, hs, rfl⟩ := h
  have hagree := agreeBut_written hfresh hdir he part
  have hpaths := resolve_iff_of_agreeBut hagree (by
    rintro q rfl
    rw [look_temp hfresh hdir, look_put_self he hs]
    exact ⟨nofun, nofun⟩)
  refine ⟨hpaths, .inl (see_congr (hpaths r.path) fun place hp => ?_), fun q hq => ?_⟩
  · exact hagree place (place_ne_temp hdir hp)
  · exact hagree q fun h => hq (.inr ⟨dir, hdir, h⟩)

theorem Done.atomic (h : r.Done d d') : r.Atomic d d' ∧ d'.see r.path = some (some r.bytes) := by
  obtain ⟨dir, entries, parent, target, hdir, he, htarget, hstray, hs, hbelow, rfl⟩ := h
  have hres : d.resolve r.path = .ok (dir ++ [target]) :=
    resolve_eq_ok_iff.mpr
      ⟨(strayCause?_eq_none_iff.mp hstray).1, locate_of_beside htarget hstray hdir he⟩
  have hagree : AgreeBut (· = dir ++ [target]) d (d.put dir target (.file r.bytes)) := fun q hq =>
    look_put_of_ne he hbelow r.bytes hq
  have hlook := look_put_self he hs r.bytes
  have hpaths := resolve_iff_of_agreeBut hagree (by
    rintro q rfl
    rw [hlook]
    exact ⟨look_ne_directory he hbelow List.prefix_rfl, nofun⟩)
  have hsee := (see_eq_look ((hpaths _ _).mpr hres)).trans hlook
  exact ⟨⟨hpaths, .inr hsee, fun q hq => hagree q fun h => hq (.inl (h ▸ hres))⟩, hsee⟩

theorem Done.look_temp (hfresh : r.Fresh d) (h : r.Done d d')
    (hdir : d.locate r.path.beside = .ok dir) : d'.look (dir ++ [r.temp]) = none := by
  obtain ⟨dir', entries, parent, target, hdir', he, htarget, hstray, hs, hbelow, rfl⟩ := h
  cases hdir'.symm.trans hdir
  rw [look_put_of_ne he hbelow, Replacement.look_temp hfresh hdir]
  rw [ne_eq, List.append_cancel_left_eq, List.singleton_inj]
  exact (temp_ne_target htarget).symm

theorem Sound.atomic (hfresh : r.Fresh d) (h : r.Sound d a) : r.Atomic d a.disk := by
  obtain ⟨phase, d'⟩ := a
  match phase, h with
  | .begun, h => exact atomic_of_look_eq fun q => congrArg (look · q) h
  | .writing n, h => exact Holds.atomic hfresh h
  | .synced, h => exact Holds.atomic hfresh h
  | .failed why, .inl h => exact atomic_of_look_eq fun q => congrArg (look · q) h
  | .failed why, .inr ⟨part, h⟩ => exact Holds.atomic hfresh h
  | .returned (.ok ()), h => exact (Done.atomic h).1
  | .returned (.error why), h => exact atomic_of_look_eq h

/-! ### Atomicity -/

/-- What is found when a replacement has returned: no temporary file; and the new contents, or, after a
failure, everything as it was.  So the result tells whether the new contents are there, unless they had
been there before. -/
structure Settled (r : Replacement) (d : Disk) (result : Except ε Unit) (d' : Disk) : Prop where
  removed : ∀ dir, d.locate r.path.beside = .ok dir → d'.look (dir ++ [r.temp]) = none
  success : result = .ok () → d'.read r.path = .ok r.bytes
  failure : ∀ why, result = .error why → ∀ q, d'.look q = d.look q
  new_iff : d.read r.path ≠ .ok r.bytes → (d'.read r.path = .ok r.bytes ↔ result = .ok ())

theorem Sound.settled {result : Except ε Unit} (hfresh : r.Fresh d)
    (h : r.Sound d ⟨.returned result, d'⟩) : r.Settled d result d' := by
  cases result with
  | ok _ =>
      have hread : d'.read r.path = .ok r.bytes := read_eq_ok_iff.mpr (Done.atomic h).2
      exact ⟨fun dir hdir => Done.look_temp hfresh h hdir, fun _ => hread, fun _ hr => (nomatch hr),
        fun _ => iff_of_true hread rfl⟩
  | error why =>
      have hsee : d'.see r.path = d.see r.path :=
        see_congr ((atomic_of_look_eq (r := r) h).paths r.path) fun place _ => h place
      refine ⟨fun dir hdir => (h _).trans (look_temp hfresh hdir), fun hr => (nomatch hr), fun _ _ => h,
        fun hold => iff_of_false ?_ nofun⟩
      rwa [read_eq_ok_iff, hsee, ← read_eq_ok_iff]

end Replacement

/-- **A replacement is atomic at every step**, for every disk, path and contents.  The replacement of the
library is a run of it.  Wherever a run is cut off, readers see the old file or the new one, and only the
temporary file may be left behind; when it returns, that file is gone too. -/
theorem replacement_atomic (d : Disk) (p : Path) (bytes : ByteArray) :
    (∃ mark, Replacement.Fresh ⟨p, mark, bytes⟩ d ∧ Replacement.Reaches ⟨p, mark, bytes⟩ d
      ⟨.returned (d.replace p bytes).1, (d.replace p bytes).2⟩) ∧
    ∀ {ε : Type} (mark : Text) (a : Attempt ε), Replacement.Fresh ⟨p, mark, bytes⟩ d →
      Replacement.Reaches ⟨p, mark, bytes⟩ d a →
        Replacement.Atomic ⟨p, mark, bytes⟩ d a.disk ∧
        ∀ result, a.phase = .returned result →
          Replacement.Settled ⟨p, mark, bytes⟩ d result a.disk := by
  refine ⟨Replacement.exists_reaches_replace d p bytes, fun mark a hfresh hreaches => ?_⟩
  have hsound := Replacement.sound_of_reaches hfresh hreaches
  refine ⟨hsound.atomic hfresh, ?_⟩
  rintro result hresult
  obtain ⟨phase, d'⟩ := a
  subst hresult
  exact hsound.settled hfresh

/-- A file that is to be replaced. -/
def oldDisk : Disk := .directory [("t.tab".toList, .file (toBytes "old".toList))]

/-- What is to take its place. -/
def newFile : Replacement := ⟨.ofText "t.tab".toList, "1".toList, toBytes "new".toList⟩

/-- The disk when two bytes of it were written. -/
def halfwayDisk : Disk :=
  .directory [("t.tab".toList, .file (toBytes "old".toList)),
    (".t.tab.1.tmp".toList, .file (toBytes "ne".toList))]

/-- The disk is full after two bytes; the first reader comes then, the second after the return. -/
theorem replacement_atomic_diskFull :
    newFile.Fresh oldDisk ∧
      newFile.Reaches oldDisk ⟨.failed "disk full", halfwayDisk⟩ ∧
      newFile.Atomic oldDisk halfwayDisk ∧
      newFile.Reaches oldDisk ⟨.returned (.error "disk full"), halfwayDisk.erase [] newFile.temp⟩ ∧
      newFile.Settled oldDisk (.error "disk full") (halfwayDisk.erase [] newFile.temp) := by
  have hfresh : newFile.Fresh oldDisk := by
    intro dir hdir
    cases hdir
    decide
  have hold : oldDisk.locate newFile.path.beside = .ok [] := rfl
  have hcreated : (oldDisk.put [] newFile.temp (.file .empty)).locate newFile.path.beside = .ok [] := rfl
  have hhalfway : halfwayDisk.locate newFile.path.beside = .ok [] := rfl
  have hfull : newFile.Reaches oldDisk ⟨.failed "disk full", halfwayDisk⟩ :=
    ((Relation.ReflTransGen.single (.create hold rfl)).tail
      (.write (n := 2) hcreated (by decide) (by decide) rfl)).tail (.fail (.writing 2) _)
  have hreturned : newFile.Reaches oldDisk
      ⟨.returned (.error "disk full"), halfwayDisk.erase [] newFile.temp⟩ :=
    hfull.tail (.remove hhalfway _)
  have hatomic := (replacement_atomic oldDisk newFile.path newFile.bytes).2 newFile.mark
    ⟨.failed "disk full", halfwayDisk⟩ hfresh hfull
  have hsettled := (replacement_atomic oldDisk newFile.path newFile.bytes).2 newFile.mark _ hfresh hreturned
  exact ⟨hfresh, hfull, hatomic.1, hreturned, hsettled.2 _ rfl⟩

/-- The file of a table whose name is too long for replacing it, and what it holds. -/
def longFile : Path := ((Path.ofText "data".toList).child "shop".toList).child (fileOf longName)

/-- A file may hold the new contents though it could not be replaced: it had held them before. -/
theorem replacement_error_sameBytes :
    (∃ mark, Replacement.Fresh ⟨longFile, mark, toBytes "id\tx\n".toList⟩ longDisk ∧
      Replacement.Reaches ⟨longFile, mark, toBytes "id\tx\n".toList⟩ longDisk
        ⟨.returned (longDisk.replace longFile (toBytes "id\tx\n".toList)).1,
          (longDisk.replace longFile (toBytes "id\tx\n".toList)).2⟩) ∧
    ¬ ((longDisk.replace longFile (toBytes "id\tx\n".toList)).2.read longFile =
          .ok (toBytes "id\tx\n".toList) ↔
        (longDisk.replace longFile (toBytes "id\tx\n".toList)).1 = .ok ()) := by
  refine ⟨Replacement.exists_reaches_replace _ _ _, ?_⟩
  have herror : (longDisk.replace longFile (toBytes "id\tx\n".toList)).1 = .error .nameTooLong := by
    decide +kernel
  have hread : (longDisk.replace longFile (toBytes "id\tx\n".toList)).2.read longFile =
      .ok (toBytes "id\tx\n".toList) := by
    decide +kernel
  rw [herror, hread]
  exact fun h => nomatch h.mp rfl

end FlatDb
