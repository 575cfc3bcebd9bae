import FlatDb.Disk.Replace
import FlatDb.Proofs.Paths
import FlatDb.Proofs.Pieces
import Mathlib.Data.List.TakeWhile

/-! # The directory of a path

A file is replaced by way of a temporary file beside it.  `Path.beside` is the path of the directory in
which that file lies: the path without its file name, or, where it has none, the path itself.

* `splitFileName?_spec` says how a path text falls apart into the directory, the file name and the
  slashes and single dots at its end.
* `Node.place_of_beside`: **where a path leads, and the directory beside it, fit together**.  The two are
  followed apart from each other, and the path may go on behind the file name.
* `Node.locate_of_beside`: a path to which something can be renamed leads to its file name in that
  directory. -/

namespace FlatDb

open Text

namespace Path

/-- The path of the directory in which a file lies that is to take the place of what a path leads to. -/
def beside (p : Path) : Path :=
  let dir := (p.split?.map Prod.fst).getD p
  if dir = ofText [] then ofText ['.'] else dir

/-! ### Path texts -/

/-- A path text without slashes and single dots at its end does not end in a single dot. -/
theorem takeWhile_dropDots_ne (r : Text) : (dropDots r).takeWhile (· ≠ '/') ≠ ['.'] := by
  fun_induction dropDots r with
  | case1 r ih => exact ih
  | case2 r ih => exact ih
  | case3 => simp
  | case4 r hslash hdot hend =>
      intro h
      match r, h with
      | [], h => simp at h
      | c :: r, h =>
          by_cases hc : c = '/'
          · exact hslash r (by rw [hc])
          · rw [List.takeWhile_cons_of_pos (by simpa using hc), List.cons.injEq] at h
            obtain ⟨rfl, h⟩ := h
            match r, h with
            | [], _ => exact hend rfl
            | a :: r, h =>
                by_cases ha : a = '/'
                · exact hdot r (by rw [ha])
                · rw [List.takeWhile_cons_of_pos (by simpa using ha)] at h
                  cases h

/-- What is in front of a file name, the file name, and that nothing else is kept of a path text. -/
theorem splitFileName?_spec {t before name : Text} (h : splitFileName? t = some (before, name)) :
    (dropDots t.reverse).reverse = before ++ name ∧ '/' ∉ name ∧
      name ≠ [] ∧ name ≠ ['.'] ∧ name ≠ ['.', '.'] ∧ (before = [] ∨ ∃ s, before = s ++ ['/']) := by
  unfold splitFileName? at h
  dsimp only at h
  split at h
  · cases h
  · next hname =>
      obtain ⟨hne, hdots⟩ := not_or.mp hname
      simp only [Option.some.injEq, Prod.mk.injEq] at h
      obtain ⟨rfl, rfl⟩ := h
      refine ⟨?_, ?_, hne, ?_, hdots, ?_⟩
      · rw [← List.reverse_append, List.takeWhile_append_dropWhile]
      · intro hm
        have := List.mem_takeWhile_imp (List.mem_reverse.mp hm)
        simp at this
      · intro hdot
        have hdot := congrArg List.reverse hdot
        rw [List.reverse_reverse] at hdot
        exact takeWhile_dropDots_ne _ hdot
      · cases hd : (dropDots t.reverse).dropWhile (· ≠ '/') with
        | nil => exact .inl rfl
        | cons c s =>
            have hc := List.head?_dropWhile_not (· ≠ '/') (dropDots t.reverse)
            rw [hd] at hc
            have hc : c = '/' := by simpa using hc
            exact .inr ⟨s.reverse, by rw [hc, List.reverse_cons]⟩

end Path

namespace Node

open FlatDb.Path

/-! ### Parts of path texts -/

theorem parts_append_slash (s t : Text) : parts (s ++ '/' :: t) = parts s ++ parts t := by
  rw [parts, splitOn_append_sep, List.filter_append]
  rfl

theorem parts_of_not_mem {t : Text} (h : '/' ∉ t) (hne : t ≠ []) : parts t = [t] := by
  rw [parts, splitOn_of_not_mem h]
  simp [hne]

/-- Slashes at the end of a path text are no parts of it, and single dots are parts of their own. -/
theorem parts_dropDots (r : Text) :
    ∃ k, parts r.reverse = parts (dropDots r).reverse ++ List.replicate k ['.'] := by
  fun_induction dropDots r with
  | case1 r ih =>
      obtain ⟨k, hk⟩ := ih
      refine ⟨k, ?_⟩
      rw [List.reverse_cons, parts_append_slash, hk]
      exact List.append_nil _
  | case2 r ih =>
      obtain ⟨k, hk⟩ := ih
      refine ⟨k + 1, ?_⟩
      have hrev : ('.' :: '/' :: r).reverse = r.reverse ++ '/' :: ['.'] := by simp
      rw [hrev, parts_append_slash, hk, List.replicate_succ', List.append_assoc]
      rfl
  | case3 => exact ⟨1, rfl⟩
  | case4 r => exact ⟨0, (List.append_nil _).symm⟩

/-- Nothing is dropped from a path text that ends in neither a slash nor a single dot. -/
theorem dropDots_eq_self {t : Text} (hdot : (parts t).getLast? ≠ some ['.'])
    (hslash : t.getLast? ≠ some '/') : dropDots t.reverse = t.reverse := by
  generalize hr : t.reverse = r
  obtain rfl : t = r.reverse := by rw [← hr, List.reverse_reverse]
  fun_cases dropDots r with
  | case1 r => exact absurd (by simp) hslash
  | case2 r =>
      have hrev : ('.' :: '/' :: r).reverse = r.reverse ++ '/' :: ['.'] := by simp
      rw [hrev, parts_append_slash] at hdot
      exact absurd (List.getLast?_concat) hdot
  | case3 => exact absurd rfl hdot
  | case4 => rfl

theorem parts_append_name {before name : Text} (hslash : '/' ∉ name) (hne : name ≠ [])
    (hbefore : before = [] ∨ ∃ s, before = s ++ ['/']) :
    parts (before ++ name) = parts before ++ [name] := by
  rcases hbefore with rfl | ⟨s, rfl⟩
  · exact parts_of_not_mem hslash hne
  · rw [List.append_assoc, List.singleton_append, parts_append_slash, parts_append_slash,
      parts_of_not_mem hslash hne]
    simp [parts, splitOn, cut]

theorem start_eq_of_prefix {s t : Text} (h : s <+: t) (hne : s ≠ []) : start s = start t := by
  obtain ⟨r, rfl⟩ := h
  cases s with
  | nil => exact absurd rfl hne
  | cons c s => rfl

/-! ### Following parts -/

section follow
variable {d : Disk} {here dir place : Place}

/-- Single dots lead nowhere else. -/
theorem walk_dots {k : Nat} (h : d.walk here (List.replicate k ['.']) = .ok place) : place = here := by
  induction k with
  | zero => exact (Except.ok.inj h).symm
  | succ k ih =>
      rw [List.replicate_succ, walk] at h
      split at h
      · cases h
      · exact ih (by rwa [if_pos rfl] at h)

theorem walk_name {name : Text} (hdot : name ≠ ['.']) (hdots : name ≠ ['.', '.'])
    {entries : List (Text × Node)} (h : d.entriesAt dir = .ok entries) (more : List Text) :
    d.walk dir (name :: more) = d.walk (dir ++ [name]) more := by
  rw [walk, h]
  dsimp only
  rw [if_neg hdot, if_neg hdots]

/-- The parts before a file name lead to the directory beside it. -/
theorem walk_before {t before name : Text} (hname : splitFileName? t = some (before, name))
    (h : d.locate (.ofText (if before = [] then ['.'] else before)) = .ok dir) :
    d.walk (start t) (parts before) = .ok dir := by
  obtain ⟨hkept, hslash, hne, -⟩ := splitFileName?_spec hname
  have hprefix : before ++ name <+: t := by
    rw [← hkept, ← List.reverse_suffix, List.reverse_reverse]
    exact dropDots_suffix t.reverse
  have hwalk := walk_parts h
  by_cases hb : before = []
  · subst hb
    have hstart : start name = [] := by
      refine if_neg fun hh => hslash (List.mem_of_head? hh)
    rw [if_pos rfl] at hwalk
    rw [← start_eq_of_prefix hprefix hne, List.nil_append, hstart]
    exact congrArg Except.ok (walk_dots (k := 1) hwalk).symm
  · rw [if_neg hb] at hwalk
    rwa [← start_eq_of_prefix ((List.prefix_append before name).trans hprefix) hb]

/-- Where a path text leads, and the directory beside it. -/
theorem place_of_split {t before name : Text} (hname : splitFileName? t = some (before, name))
    (hdir : d.locate (.ofText (if before = [] then ['.'] else before)) = .ok dir)
    (h : d.locate (.ofText t) = .ok place) : place = dir ++ [name] := by
  obtain ⟨hkept, hslash, hne, hdot, hdots, hbefore⟩ := splitFileName?_spec hname
  obtain ⟨k, hparts⟩ := parts_dropDots t.reverse
  rw [List.reverse_reverse, hkept, parts_append_name hslash hne hbefore, List.append_assoc] at hparts
  have hwalk := walk_parts h
  rw [hparts, walk_append, walk_before hname hdir] at hwalk
  change d.walk dir (name :: List.replicate k ['.']) = .ok place at hwalk
  cases he : d.entriesAt dir with
  | error cause =>
      rw [walk, he] at hwalk
      cases hwalk
  | ok entries =>
      rw [walk_name hdot hdots he] at hwalk
      exact walk_dots hwalk

end follow

end Node

/-! ### Paths -/

namespace Path

/-- A path is a text, or an entry below a path. -/
theorem eq_ofText_or_child (p : Path) : (∃ t, p = ofText t) ∨ ∃ q name, p = child q name := by
  obtain ⟨base, names⟩ := p
  rcases List.eq_nil_or_concat names with rfl | ⟨init, name, rfl⟩
  · exact .inl ⟨base, rfl⟩
  · exact .inr ⟨⟨base, init⟩, name, by rw [child, List.concat_eq_append]⟩

theorem split?_ofText (t : Text) : (ofText t).split? =
    (splitFileName? t).map fun (before, name) =>
      (ofText (if before = [] then ['.'] else before), name) := rfl

theorem fileName?_eq (p : Path) : p.fileName? = p.split?.map Prod.snd := by
  unfold fileName? split?
  split
  · rfl
  · rw [Option.map_map]
    rfl

theorem beside_child (p : Path) (name : Text) :
    (p.child name).beside = if p = ofText [] then ofText ['.'] else p := by
  unfold beside
  rw [split?_child]
  rfl

theorem beside_ofText {t before name : Text} (h : splitFileName? t = some (before, name)) :
    (ofText t).beside = ofText (if before = [] then ['.'] else before) := by
  have hne : ofText (if before = [] then ['.'] else before) ≠ ofText [] := by
    intro he
    have hb := congrArg base he
    change (if before = [] then ['.'] else before) = [] at hb
    split at hb
    · cases hb
    · next hbefore => exact hbefore hb
  unfold beside
  rw [split?_ofText, h]
  exact if_neg hne

end Path

namespace Node

open FlatDb.Path

/-! ### Where paths lead -/

section beside
variable {d : Disk} {p parent : Path} {name : Text} {dir place : Place}

/-- A path below another one leads to an entry of the directory beside it. -/
theorem locate_child_of_beside (h : d.locate (p.child name).beside = .ok dir) :
    d.locate (p.child name) = .ok (dir ++ [name]) := by
  rw [beside_child] at h
  split at h
  · next hp =>
      subst hp
      obtain rfl : dir = [] := walk_dots (k := 1) (walk_parts h)
      rfl
  · exact locate_child h name

/-- **Where a path leads, and the directory beside it.** -/
theorem place_of_beside (hs : p.split? = some (parent, name)) (hdir : d.locate p.beside = .ok dir)
    (h : d.locate p = .ok place) : place = dir ++ [name] := by
  rcases p.eq_ofText_or_child with ⟨t, rfl⟩ | ⟨q, last, rfl⟩
  · rw [split?_ofText, Option.map_eq_some_iff] at hs
    obtain ⟨⟨before, last⟩, hname, he⟩ := hs
    cases he
    rw [beside_ofText hname] at hdir
    exact place_of_split hname hdir h
  · rw [split?_child] at hs
    cases hs
    rw [locate_child_of_beside hdir] at h
    exact (Except.ok.inj h).symm

/-- A path without a file name is its own directory. -/
theorem place_of_nameless (hs : p.split? = none) (hdir : d.locate p.beside = .ok dir)
    (h : d.locate p = .ok place) : place = dir := by
  unfold beside at hdir
  rw [hs] at hdir
  change d.locate (if p = ofText [] then ofText ['.'] else p) = .ok dir at hdir
  split at hdir
  · next hp =>
      subst hp
      cases h
  · rw [hdir] at h
    exact (Except.ok.inj h).symm

theorem strayCause?_eq_none_iff : d.strayCause? p = none ↔
    p.fault? = none ∧ (p.names = [] → (parts p.base).getLast? ≠ some ['.'] ∧ p.base.getLast? ≠ some '/') := by
  unfold strayCause?
  cases p.fault? with
  | some cause => simp
  | none =>
      dsimp only
      by_cases hn : p.names = []
      · by_cases hdot : (parts p.base).getLast? = some ['.']
        · cases d.locate p <;> simp [hn, hdot]
        · simp [hn, hdot]
      · simp [hn]

/-- A path that does not end in a slash or a single dot leads to its file name in the directory beside
it. -/
theorem locate_of_beside (hs : p.split? = some (parent, name)) (hstray : d.strayCause? p = none)
    (hdir : d.locate p.beside = .ok dir) {entries : List (Text × Node)}
    (he : d.entriesAt dir = .ok entries) : d.locate p = .ok (dir ++ [name]) := by
  rcases p.eq_ofText_or_child with ⟨t, rfl⟩ | ⟨q, last, rfl⟩
  · obtain ⟨-, hend⟩ := strayCause?_eq_none_iff.mp hstray
    obtain ⟨hdot, hslash⟩ : (parts t).getLast? ≠ some ['.'] ∧ t.getLast? ≠ some '/' := hend rfl
    rw [split?_ofText, Option.map_eq_some_iff] at hs
    obtain ⟨⟨before, last⟩, hname, he⟩ := hs
    cases he
    rw [beside_ofText hname] at hdir
    obtain ⟨hkept, hn, hne, hd, hdd, hbefore⟩ := splitFileName?_spec hname
    have hdrop : dropDots t.reverse = t.reverse := dropDots_eq_self hdot hslash
    rw [hdrop, List.reverse_reverse] at hkept
    have hsteps : steps t = parts before ++ [name] := by
      rw [steps, if_neg hslash, hkept, parts_append_name hn hne hbefore]
    have hwalk : d.walk (start t) (steps t) = .ok (dir ++ [name]) := by
      rw [hsteps, walk_append, walk_before hname hdir]
      exact walk_name hd hdd he []
    have ht : t ≠ [] := hkept ▸ List.append_ne_nil_of_right_ne_nil before hne
    change (if t = [] then _ else (d.walk (start t) (steps t)).map (· ++ [])) = _
    rw [if_neg ht, hwalk]
    exact congrArg Except.ok (List.append_nil _)
  · rw [split?_child] at hs
    cases hs
    exact locate_child_of_beside hdir

end beside

end Node

end FlatDb
