import FlatDb.Storage
import FlatDb.Text.Lowercase

/-! # Names

The names that commands give to databases, tables and columns consist of letters and digits of the
ASCII alphabet (`Text.IsName`), and the values they put into cells hold no tab and no line break
(`Text.IsCell`).

* A name is one entry of a directory, is never blank, and is never the name of the registry.
* The two ways to ignore the case of names agree: folding the letters A to Z, by which names are
  looked up, and the lower case of Unicode, under which counters are kept (`lowercase_eq_iff`).
* The file of a table has the table's name as its stem and `tab` as its extension. -/

namespace FlatDb

namespace Text

/-- Letters and digits of the ASCII alphabet, and at least one of them. -/
def IsName (t : Text) : Prop := t ≠ [] ∧ ∀ c ∈ t, c.isAlphanum = true

/-- Text that can stand between two tabs of a line. -/
def IsCell (t : Text) : Prop := '\t' ∉ t ∧ '\n' ∉ t ∧ '\r' ∉ t

instance (t : Text) : Decidable (IsName t) :=
  decidable_of_iff (t ≠ [] ∧ t.all Char.isAlphanum = true) (by simp [IsName])

instance (t : Text) : Decidable (IsCell t) := inferInstanceAs (Decidable (_ ∧ _ ∧ _))

/-! ### Letters and digits -/

theorem toNat_lt_of_isAlphanum {c : Char} (h : c.isAlphanum = true) : c.toNat < 128 := by
  have hranges : ((decide (c.val ≥ 'A'.val ∧ c.val ≤ 'Z'.val) ||
      (c.val ≥ 'a'.val && c.val ≤ 'z'.val)) || (c.val ≥ '0'.val && c.val ≤ '9'.val)) = true := h
  simp only [Bool.or_eq_true, Bool.and_eq_true, decide_eq_true_eq, UInt32.le_iff_toNat_le]
    at hranges
  change c.val.toNat < 128
  rcases hranges with (⟨-, h⟩ | ⟨-, h⟩) | ⟨-, h⟩ <;> exact Nat.lt_of_le_of_lt h (by decide)

/-- What holds of 128 characters holds of each that is below the 128th. -/
theorem forall_ascii {p : Char → Prop} (h : ∀ n < 128, p (Char.ofNat n)) {c : Char}
    (hc : c.toNat < 128) : p c := by
  have := h c.toNat hc
  rwa [Char.ofNat_toNat] at this

theorem isBlank_of_isAlphanum {c : Char} (h : c.isAlphanum = true) : isBlank c = false :=
  forall_ascii (p := fun c => c.isAlphanum = true → isBlank c = false) (by decide +kernel)
    (toNat_lt_of_isAlphanum h) h

/-- The lower case of a letter or digit is the letter folded. -/
theorem lowerChar_of_isAlphanum {c : Char} (h : c.isAlphanum = true) : lowerChar c = c.toLower :=
  forall_ascii (p := fun c => c.isAlphanum = true → lowerChar c = c.toLower) (by decide +kernel)
    (toNat_lt_of_isAlphanum h) h

theorem isAlphanum_toLower {c : Char} (h : c.isAlphanum = true) : c.toLower.isAlphanum = true :=
  forall_ascii (p := fun c => c.isAlphanum = true → c.toLower.isAlphanum = true)
    (by decide +kernel) (toNat_lt_of_isAlphanum h) h

theorem toLower_toLower {c : Char} (h : c.isAlphanum = true) : c.toLower.toLower = c.toLower :=
  forall_ascii (p := fun c => c.isAlphanum = true → c.toLower.toLower = c.toLower)
    (by decide +kernel) (toNat_lt_of_isAlphanum h) h

/-! ### Names -/

theorem IsName.not_mem {t : Text} (h : IsName t) {c : Char} (hc : c.isAlphanum = false) :
    c ∉ t := by
  intro hm
  rw [h.2 c hm] at hc
  cases hc

theorem IsName.isCell {t : Text} (h : IsName t) : IsCell t :=
  ⟨h.not_mem (by decide), h.not_mem (by decide), h.not_mem (by decide)⟩

theorem IsName.not_blank {t : Text} (h : IsName t) : ∀ c ∈ t, isBlank c = false :=
  fun c hc => isBlank_of_isAlphanum (h.2 c hc)

/-- A text with a character that is no letter or digit is no name. -/
theorem IsName.ne {t other : Text} (h : IsName t) {c : Char} (hm : c ∈ other)
    (hc : c.isAlphanum = false) : t ≠ other := by
  rintro rfl
  exact h.not_mem hc hm

theorem IsName.ne_registryName {t : Text} (h : IsName t) : t ≠ registryName :=
  h.ne (c := '.') (by decide) (by decide)

theorem IsName.ne_absolute {t : Text} (h : IsName t) : t ≠ Node.absolute :=
  h.ne (c := '/') (by decide) (by decide)

theorem isName_idColumn : IsName idColumn := by decide

/-! ### Ignoring case -/

theorem sameName_iff {a b : Text} : sameName a b = true ↔ foldCase a = foldCase b := beq_iff_eq

theorem sameName_refl (a : Text) : sameName a a = true := sameName_iff.mpr rfl

theorem sameName_comm (a b : Text) : sameName a b = sameName b a := BEq.comm

theorem sameName_trans {a b c : Text} (hab : sameName a b = true) (hbc : sameName b c = true) :
    sameName a c = true :=
  sameName_iff.mpr ((sameName_iff.mp hab).trans (sameName_iff.mp hbc))

theorem isName_foldCase {t : Text} (h : IsName t) : IsName (foldCase t) := by
  refine ⟨by simpa [foldCase] using h.1, fun c hc => ?_⟩
  obtain ⟨a, ha, rfl⟩ := List.mem_map.mp hc
  exact isAlphanum_toLower (h.2 a ha)

/-- Only letters are folded. -/
theorem toLower_eq_self_or (c : Char) : c.toLower = c ∨ c.isAlphanum = true := by
  by_cases hu : c.val ≥ 'A'.val ∧ c.val ≤ 'Z'.val
  · have hupper : c.isUpper = true := decide_eq_true hu
    refine .inr ?_
    change ((c.isUpper || c.isLower) || c.isDigit) = true
    rw [hupper, Bool.true_or, Bool.true_or]
  · exact .inl (dif_neg hu)

theorem isAlphanum_of_toLower {c : Char} (h : c.toLower.isAlphanum = true) :
    c.isAlphanum = true := by
  rcases toLower_eq_self_or c with hc | hc
  · rwa [hc] at h
  · exact hc

/-- What is the same as a name up to case is a name. -/
theorem isName_of_sameName {a b : Text} (ha : IsName a) (h : sameName a b = true) : IsName b := by
  have hf := sameName_iff.mp h
  refine ⟨?_, fun c hc => ?_⟩
  · rintro rfl
    exact ha.1 (by simpa [foldCase] using hf)
  · have hm : c.toLower ∈ foldCase b := List.mem_map_of_mem hc
    rw [← hf] at hm
    exact isAlphanum_of_toLower ((isName_foldCase ha).2 _ hm)

/-- What surrounds a letter or digit makes no difference to its lower case. -/
theorem lowerIn_of_isAlphanum {c : Char} (h : c.isAlphanum = true) (before after : Text) :
    lowerIn before c after = [c.toLower] := by
  have hs : c ≠ 'Σ' := by
    rintro rfl
    exact absurd h (by decide)
  have hi : c ≠ 'İ' := by
    rintro rfl
    exact absurd h (by decide)
  rw [lowerIn, if_neg hs, if_neg hi, lowerChar_of_isAlphanum h]

theorem lowercaseAfter_eq_foldCase {t : Text} (h : ∀ c ∈ t, c.isAlphanum = true) (before : Text) :
    lowercaseAfter before t = foldCase t := by
  induction t generalizing before with
  | nil => rfl
  | cons c after ih =>
      rw [lowercaseAfter, ih fun d hd => h d (List.mem_cons_of_mem _ hd),
        lowerIn_of_isAlphanum (h c List.mem_cons_self)]
      rfl

/-- The lower case of a name is the name folded. -/
theorem IsName.lowercase_eq {t : Text} (h : IsName t) : t.lowercase = foldCase t :=
  lowercaseAfter_eq_foldCase h.2 []

/-- Names have the same lower case exactly when they are the same up to case. -/
theorem lowercase_eq_iff {a b : Text} (ha : IsName a) (hb : IsName b) :
    a.lowercase = b.lowercase ↔ sameName a b = true := by
  rw [ha.lowercase_eq, hb.lowercase_eq, sameName_iff]

theorem IsName.lowercase {t : Text} (h : IsName t) : IsName t.lowercase := by
  rw [h.lowercase_eq]
  exact isName_foldCase h

theorem IsName.lowercase_lowercase {t : Text} (h : IsName t) :
    t.lowercase.lowercase = t.lowercase := by
  rw [h.lowercase.lowercase_eq, h.lowercase_eq, foldCase, foldCase, List.map_map]
  exact List.map_congr_left fun c hc => toLower_toLower (h.2 c hc)

/-- A name is the same as its lower case. -/
theorem IsName.sameName_lowercase {t : Text} (h : IsName t) : sameName t.lowercase t = true :=
  (lowercase_eq_iff h.lowercase h).mp h.lowercase_lowercase

/-! ### Sizes -/

theorem size_append (a b : Text) : size (a ++ b) = size a + size b := by
  induction a with
  | nil => simp [size]
  | cons c a ih =>
      rw [List.cons_append, size, size, ih]
      omega

theorem size_pos {t : Text} (h : t ≠ []) : 0 < t.size := by
  cases t with
  | nil => exact absurd rfl h
  | cons c t =>
      rw [size]
      have := Char.utf8Size_pos c
      omega

end Text

/-! ### Files of tables -/

namespace Path

open Text

theorem isEntryName_of_isName {t : Text} (h : IsName t) : isEntryName t = true := by
  have h1 : t ≠ ['.'] := h.ne (c := '.') (by decide) (by decide)
  have h2 : t ≠ ['.', '.'] := h.ne (c := '.') (by decide) (by decide)
  have h3 : '/' ∉ t := h.not_mem (by decide)
  have h0 := h.1
  simp [isEntryName, h0, h1, h2, h3]

theorem splitExtension_of_isName {t : Text} (h : IsName t) : splitExtension t = (t, none) := by
  have hx : ∀ c ∈ t.reverse, decide (c ≠ '.') = true := by
    intro c hc
    rw [decide_eq_true_eq]
    rintro rfl
    exact h.not_mem (by decide) (List.mem_reverse.mp hc)
  have hd : (t.reverse ++ []).dropWhile (· ≠ '.') = [] := List.dropWhile_append_of_pos hx
  rw [List.append_nil] at hd
  simp only [splitExtension, hd]

/-- The file of a table. -/
def fileOf (name : Text) : Text := name ++ '.' :: tableExtension

theorem fileOf_inj {a b : Text} (h : fileOf a = fileOf b) : a = b := List.append_cancel_right h

theorem fileOf_ne_absolute (name : Text) : fileOf name ≠ Node.absolute := by
  intro h
  have := congrArg List.getLast? h
  simp [fileOf, tableExtension, Node.absolute] at this

theorem tableFile_of_isName {t : Text} (h : IsName t) : tableFile t = fileOf t := by
  rw [tableFile, stem, splitExtension_of_isName h]
  rfl

theorem splitExtension_fileOf {t : Text} (h : t ≠ []) :
    splitExtension (fileOf t) = (t, some tableExtension) := by
  have hr : (fileOf t).reverse = tableExtension.reverse ++ '.' :: t.reverse := by
    simp [fileOf]
  have hx : ∀ c ∈ tableExtension.reverse, (decide (c ≠ '.')) = true :=
    List.all_eq_true.mp (by decide)
  have hd : (fileOf t).reverse.dropWhile (· ≠ '.') = '.' :: t.reverse := by
    rw [hr, List.dropWhile_append_of_pos hx]
    rfl
  have ht : (fileOf t).reverse.takeWhile (· ≠ '.') = tableExtension.reverse := by
    rw [hr, List.takeWhile_append_of_pos hx]
    simp
  have hn : t.reverse ≠ [] := by simpa using h
  simp only [splitExtension, hd, ht, hn, if_false, List.reverse_reverse]

theorem stem_fileOf {t : Text} (h : t ≠ []) : stem (fileOf t) = t := by
  rw [stem, splitExtension_fileOf h]

theorem extension?_fileOf {t : Text} (h : t ≠ []) : extension? (fileOf t) = some tableExtension := by
  rw [extension?, splitExtension_fileOf h]

theorem size_fileOf (t : Text) : (fileOf t).size = t.size + 4 := by
  rw [fileOf, size_append]
  rfl

theorem ofTable_of_isName (dir : Path) {t : Text} (h : IsName t) :
    ofTable dir t = dir.child (fileOf t) := by
  rw [ofTable, if_pos (isEntryName_of_isName h), tableFile_of_isName h]

end Path

end FlatDb
