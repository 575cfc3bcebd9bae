import FlatDb.Proofs.Names
import FlatDb.Proofs.Trees

/-! # Paths on a disk

Where a path leads once the path above it is known to lead to a directory.

* `Path.textFault?_eq_none_iff`, `Path.size_joinText_le` and `Path.mem_joinText` are all that is
  needed about the text of a path.
* A path that leads somewhere leads to the same place on every disk with the same directories
  (`Node.locate_mono`).
* `Node.makeSteps_walk`: directories that are there are passed through, not made. -/

namespace FlatDb

/-! ### Texts of paths -/

namespace Path

theorem text_child (p : Path) (name : Text) : (p.child name).text = joinText p.text name := by
  simp [text, child]

theorem split?_child (p : Path) (name : Text) : (p.child name).split? = some (p, name) := by
  simp [split?, child]

theorem textFault?_eq_none_iff {t : Text} :
    textFault? t = none ↔ '\x00' ∉ t ∧ t.size ≤ maxTextSize := by
  unfold textFault?
  by_cases h0 : '\x00' ∈ t
  · simp [h0]
  · by_cases hs : maxTextSize < t.size
    · simp [h0, hs, Nat.not_le.mpr hs]
    · simp [h0, hs, Nat.le_of_not_lt hs]

theorem ne_missing_of_textFault? {t : Text} {cause : Cause} (h : textFault? t = some cause) :
    cause ≠ .missing := by
  unfold textFault? at h
  split at h
  · cases h
    simp
  · split at h
    · cases h
      simp
    · cases h

theorem size_joinText_le (dir name : Text) :
    (joinText dir name).size ≤ dir.size + 1 + name.size := by
  have hs : ('/' : Char).utf8Size = 1 := by decide
  unfold joinText
  split
  · omega
  · split
    · rw [Text.size_append]
      omega
    · rw [Text.size_append, Text.size]
      omega

theorem mem_joinText {dir name : Text} {c : Char} (h : c ∈ joinText dir name) :
    c ∈ dir ∨ c = '/' ∨ c ∈ name := by
  unfold joinText at h
  split at h
  · exact Or.inr (Or.inr h)
  · split at h
    · rcases List.mem_append.mp h with h | h
      · exact Or.inl h
      · exact Or.inr (Or.inr h)
    · rcases List.mem_append.mp h with h | h
      · exact Or.inl h
      · exact Or.inr (List.mem_cons.mp h)

theorem dropDots_suffix (t : Text) : dropDots t <:+ t := by
  induction t using dropDots.induct with
  | case1 r ih =>
      rw [dropDots]
      exact ih.trans (List.suffix_cons _ _)
  | case2 r ih =>
      rw [dropDots]
      exact ih.trans ((List.suffix_cons _ _).trans (List.suffix_cons _ _))
  | case3 =>
      rw [dropDots]
      exact List.nil_suffix
  | case4 r h1 h2 h3 =>
      have h : dropDots r = r := by
        rw [dropDots] <;> assumption
      exact ⟨[], h⟩

theorem trimEnd_cases (t : Text) : trimEnd t <+: t ∨ trimEnd t = ['/'] ∨ trimEnd t = ['.'] := by
  by_cases hr : (dropDots t.reverse).reverse = []
  · by_cases hh : t.head? = some '/' <;> simp [trimEnd, hr, hh]
  · have h := List.reverse_prefix.mpr (dropDots_suffix t.reverse)
    rw [List.reverse_reverse] at h
    simp [trimEnd, hr, h]

theorem size_trimEnd_le {t : Text} (h : t ≠ []) : (trimEnd t).size ≤ t.size := by
  have hp := Text.size_pos h
  rcases trimEnd_cases t with hc | hc | hc
  · obtain ⟨s, hs⟩ := hc
    have := Text.size_append (trimEnd t) s
    rw [hs] at this
    omega
  · rw [hc]
    exact hp
  · rw [hc]
    exact hp

theorem not_mem_trimEnd {t : Text} {c : Char} (h : c ∉ t) (hs : c ≠ '/') (hd : c ≠ '.') :
    c ∉ trimEnd t := by
  rcases trimEnd_cases t with hc | hc | hc
  · exact fun hm => h (hc.subset hm)
  · simp [hc, hs]
  · simp [hc, hd]

end Path

/-! ### Places of paths -/

namespace Node

open FlatDb.Path

theorem resolve_eq_ok_iff {d : Disk} {p : Path} {place : Place} :
    d.resolve p = .ok place ↔ p.fault? = none ∧ d.locate p = .ok place := by
  unfold resolve
  split <;> simp_all

theorem walk_append (d : Disk) (here : Place) (a b : List Text) :
    d.walk here (a ++ b) = (d.walk here a).bind fun place => d.walk place b := by
  induction a generalizing here with
  | nil => rfl
  | cons step more ih =>
      rw [List.cons_append, walk, walk]
      cases d.entriesAt here with
      | error cause => rfl
      | ok entries => simp only [ih, apply_ite (fun w => Except.bind w fun place => d.walk place b)]

theorem locate_child {d : Disk} {p : Path} {place : Place} (h : d.locate p = .ok place)
    (name : Text) : d.locate (p.child name) = .ok (place ++ [name]) := by
  unfold locate at h ⊢
  split at h
  · next hb =>
      split at h
      · cases h
      · rw [Except.ok.injEq] at h
        simp [child, hb, h]
  · next hb =>
      simp only [child, hb, if_false]
      cases hw : d.walk (start p.base) (steps p.base) with
      | error cause =>
          rw [hw] at h
          cases h
      | ok w =>
          rw [hw] at h
          change Except.ok (w ++ p.names) = _ at h
          rw [Except.ok.injEq] at h
          simp [Except.map, ← h]

theorem resolve_child {d : Disk} {p : Path} {place : Place} {name : Text}
    (h : d.locate p = .ok place) (hf : (p.child name).fault? = none) :
    d.resolve (p.child name) = .ok (place ++ [name]) :=
  resolve_eq_ok_iff.mpr ⟨hf, locate_child h name⟩

theorem findPath_of_resolve {d : Disk} {p : Path} {place : Place} (h : d.resolve p = .ok place) :
    d.findPath p = d.find place := by
  unfold findPath
  rw [h]
  rfl

theorem list_eq_ok_iff {d : Disk} {p : Path} {entries : List (Text × Node)} :
    d.list p = .ok entries ↔ ∃ place all, d.resolve p = .ok place ∧ d.entriesAt place = .ok all ∧
      entries = Entries.erase absolute all := by
  have hlist : d.list p = d.resolve p >>= fun place =>
      d.entriesAt place >>= fun all => .ok (Entries.erase absolute all) := rfl
  rw [hlist]
  cases d.resolve p with
  | error cause => simp [Bind.bind, Except.bind]
  | ok place =>
      cases ha : d.entriesAt place with
      | error cause => simp [Bind.bind, Except.bind, ha]
      | ok all => simp [Bind.bind, Except.bind, ha, eq_comm]

/-- A file that holds a text is read as that text. -/
theorem readText_of_find {d : Disk} {p : Path} {place : Place} {t : Text}
    (h : d.resolve p = .ok place) (hf : d.find place = .ok (.file t.toBytes)) :
    d.readText p = .ok t := by
  unfold readText Node.read
  rw [findPath_of_resolve h, hf]
  dsimp only
  rw [Text.ofBytes?_toBytes]

theorem readText_of_find_error {d : Disk} {p : Path} {place : Place} {cause : Cause}
    (h : d.resolve p = .ok place) (hf : d.find place = .error cause) :
    d.readText p = .error cause := by
  unfold readText Node.read
  rw [findPath_of_resolve h, hf]

/-- The place of a text is where its parts lead. -/
theorem walk_parts {d : Disk} {root : Text} {place : Place} (h : d.locate (.ofText root) = .ok place) :
    d.walk (start root) (parts root) = .ok place := by
  unfold locate at h
  split at h
  · split at h
    · cases h
    · next hn => exact absurd rfl hn
  · cases hw : d.walk (start root) (steps root) with
    | error cause =>
        change Except.map _ (d.walk (start root) (steps root)) = _ at h
        rw [hw] at h
        cases h
    | ok w =>
        change Except.map (· ++ []) (d.walk (start root) (steps root)) = _ at h
        rw [hw] at h
        have e : w = place := by simpa [Except.map] using h
        subst e
        unfold steps at hw
        split at hw
        · rw [walk_append] at hw
          cases hp : d.walk (start root) (parts root) with
          | error cause =>
              rw [hp] at hw
              cases hw
          | ok v =>
              rw [hp] at hw
              change d.walk v [['.']] = _ at hw
              unfold walk at hw
              split at hw
              · cases hw
              · simpa [walk] using hw
        · exact hw

theorem text_ne_nil_of_locate {d : Disk} {root : Text} {place : Place}
    (h : d.locate (.ofText root) = .ok place) : root ≠ [] := by
  rintro rfl
  simp [locate, ofText] at h

/-! ### Directories that stay -/

/-- Every directory of one disk is a directory of another. -/
def KeepsDirectories (d d' : Disk) : Prop := ∀ place, d.look place = some none → d'.look place = some none

theorem KeepsDirectories.refl (d : Disk) : KeepsDirectories d d := fun _ h => h

/-- A change of one entry keeps all directories but those at the entry and below it. -/
theorem KeepsDirectories.alter {d₀ d : Disk} {f : List (Text × Node) → List (Text × Node)}
    {name : Text} {dir : Place} (hk : KeepsDirectories d₀ d) (hf : ChangesOnly name f)
    (h : ∀ place, dir ++ [name] <+: place → d₀.look place ≠ some none) :
    KeepsDirectories d₀ (alter f dir d) := by
  intro place hp
  by_cases hn : dir ++ [name] <+: place
  · exact absurd hp (h place hn)
  · rw [look_alter hf hn]
    exact hk place hp

/-- Nothing is found below an entry that is no directory. -/
theorem look_below {d : Disk} {dir : Place} {entries : List (Text × Node)} {name : Text}
    (h : d.entriesAt dir = .ok entries) (hd : ∀ below, entries.lookup name ≠ some (.directory below))
    (n : Text) (more : Place) : d.look (dir ++ [name] ++ n :: more) = none := by
  unfold look
  rw [find_append, find_child h]
  by_cases hs : maxNameSize < name.size
  · rw [if_pos hs]
    rfl
  · rw [if_neg hs]
    rcases hn : entries.lookup name with _ | _ | es
    · rfl
    · rfl
    · exact absurd hn (hd es)

/-- There are no directories where an entry is no directory, nor below it. -/
theorem look_ne_directory {d : Disk} {dir : Place} {entries : List (Text × Node)} {name : Text}
    (h : d.entriesAt dir = .ok entries) (hd : ∀ below, entries.lookup name ≠ some (.directory below))
    {place : Place} (hp : dir ++ [name] <+: place) : d.look place ≠ some none := by
  obtain ⟨more, rfl⟩ := hp
  cases more with
  | nil =>
      intro hl
      obtain ⟨below, hb⟩ := look_eq_directory_iff.mp hl
      rw [List.append_nil] at hb
      exact hd below ((entriesAt_child_iff h).mp hb).2
  | cons n more =>
      rw [look_below h hd]
      simp

theorem walk_mono {d d' : Disk} (hk : KeepsDirectories d d') {here place : Place} {ps : List Text}
    (h : d.walk here ps = .ok place) : d'.walk here ps = .ok place := by
  induction ps generalizing here with
  | nil => exact h
  | cons step more ih =>
      rw [walk] at h ⊢
      cases he : d.entriesAt here with
      | error cause =>
          rw [he] at h
          cases h
      | ok entries =>
          obtain ⟨entries', he'⟩ :=
            look_eq_directory_iff.mp (hk here (look_eq_directory_iff.mpr ⟨entries, he⟩))
          rw [he] at h
          rw [he']
          dsimp only at h ⊢
          split at h
          · next hs => rw [if_pos hs, ih h]
          · next hs =>
              rw [if_neg hs]
              split at h
              · next ht => rw [if_pos ht, ih h]
              · next ht => rw [if_neg ht, ih h]

/-- A path leads to the same place on a disk with the same directories. -/
theorem locate_mono {d d' : Disk} (hk : KeepsDirectories d d') {p : Path} {place : Place}
    (h : d.locate p = .ok place) : d'.locate p = .ok place := by
  unfold locate at h ⊢
  split at h
  · next hb => rwa [if_pos hb]
  · next hb =>
      rw [if_neg hb]
      cases hw : d.walk (start p.base) (steps p.base) with
      | error cause =>
          rw [hw] at h
          cases h
      | ok w =>
          rw [hw] at h
          rw [walk_mono hk hw]
          exact h

theorem entriesAt_of_walk {d : Disk} {here place : Place} {ps : List Text}
    {entries : List (Text × Node)} (h : d.walk here ps = .ok place)
    (he : d.entriesAt place = .ok entries) : ∃ entries, d.entriesAt here = .ok entries := by
  cases ps with
  | nil =>
      rw [walk, Except.ok.injEq] at h
      exact ⟨entries, h ▸ he⟩
  | cons step more =>
      rw [walk] at h
      cases hh : d.entriesAt here with
      | error cause =>
          rw [hh] at h
          cases h
      | ok entries => exact ⟨entries, rfl⟩

/-- Directories that are there are passed through. -/
theorem makeSteps_walk {d : Disk} {here place : Place} {ps : List Text}
    {entries : List (Text × Node)} (h : d.walk here ps = .ok place)
    (he : d.entriesAt place = .ok entries) (rest : List Text) :
    d.makeSteps here (ps ++ rest) = d.makeSteps place rest := by
  induction ps generalizing here with
  | nil =>
      rw [walk, Except.ok.injEq] at h
      rw [h, List.nil_append]
  | cons step more ih =>
      rw [walk] at h
      rw [List.cons_append, makeSteps]
      cases hh : d.entriesAt here with
      | error cause =>
          rw [hh] at h
          cases h
      | ok es =>
          rw [hh] at h
          dsimp only at h ⊢
          split at h
          · next hs => rw [if_pos hs, ih h]
          · next hs =>
              rw [if_neg hs]
              split at h
              · next ht => rw [if_pos ht, ih h]
              · next ht =>
                  obtain ⟨below, hb⟩ := entriesAt_of_walk h he
                  obtain ⟨hn, hl⟩ := (entriesAt_child_iff hh).mp hb
                  rw [if_neg ht, if_neg (by omega), hl]
                  exact ih h

end Node

end FlatDb
