import FlatDb.Connection
import FlatDb.Proofs.Pieces

/-! # Lines of bytes

The lines of a text can be found in its bytes: line feeds and carriage returns are one byte each,
and that byte is part of no other character.

* `linesBy_flatMap`: **lines survive any encoding** that writes the line feed and the carriage return
  as one letter each and uses these two letters for nothing else (`Spares`).
* `byteLines_toBytes`: the lines of the bytes of a text are the bytes of its lines. -/

namespace FlatDb

namespace Text

/-! ### Encodings that keep lines apart -/

section encodings
variable {α β : Type} [DecidableEq α] [DecidableEq β]

/-- An encoding of single letters that writes one letter as another, which it uses for nothing
else. -/
structure Spares (f : α → List β) (x : α) (y : β) : Prop where
  writes : f x = [y]
  spares : ∀ a, a ≠ x → y ∉ f a

variable {f : α → List β} {lf cr : α} {lf' cr' : β}

theorem cut_flatMap (h : Spares f lf lf') (xs : List α) :
    cut lf' (xs.flatMap f) = ((cut lf xs).1.flatMap f, (cut lf xs).2.map (·.flatMap f)) := by
  induction xs with
  | nil => rfl
  | cons x xs ih =>
      rw [List.flatMap_cons, cut]
      dsimp only
      split
      · next hx =>
          rw [hx, h.writes, List.singleton_append, cut, ih]
          exact if_pos rfl
      · next hx =>
          rw [cut_append (h.spares x hx), ih, List.flatMap_cons]

omit [DecidableEq β] in
/-- A list ends in the letter whose code its code ends in. -/
theorem getLast?_flatMap_iff (h : Spares f cr cr') (hne : ∀ a, f a ≠ []) (line : List α) :
    (line.flatMap f).getLast? = some cr' ↔ line.getLast? = some cr := by
  rcases List.eq_nil_or_concat line with rfl | ⟨init, x, rfl⟩
  · simp
  · obtain ⟨y, hy⟩ := Option.ne_none_iff_exists'.mp (mt List.getLast?_eq_none_iff.mp (hne x))
    have hlast : ((init ++ [x]).flatMap f).getLast? = some y := by
      rw [List.flatMap_append, List.flatMap_singleton, List.getLast?_append, hy]
      rfl
    rw [List.concat_eq_append, hlast, List.getLast?_concat, Option.some.injEq, Option.some.injEq]
    constructor
    · rintro rfl
      refine Decidable.of_not_not fun hx => h.spares x hx ?_
      exact List.mem_of_getLast? hy
    · rintro rfl
      rw [h.writes] at hy
      exact (Option.some.inj hy).symm

theorem dropReturn_flatMap (h : Spares f cr cr') (hne : ∀ a, f a ≠ []) (line : List α) :
    dropReturn cr' (line.flatMap f) = (dropReturn cr line).flatMap f := by
  unfold dropReturn
  by_cases hl : line.getLast? = some cr
  · rw [if_pos hl, if_pos ((getLast?_flatMap_iff h hne line).mpr hl)]
    obtain ⟨init, rfl⟩ := List.getLast?_eq_some_iff.mp hl
    rw [List.flatMap_append, List.flatMap_singleton, h.writes, List.dropLast_concat,
      List.dropLast_concat]
  · rw [if_neg hl, if_neg (mt (getLast?_flatMap_iff h hne line).mp hl)]

omit [DecidableEq α] [DecidableEq β] in
theorem flatMap_eq_nil_iff_of_ne (hne : ∀ a, f a ≠ []) (xs : List α) : xs.flatMap f = [] ↔ xs = [] := by
  cases xs <;> simp [hne]

/-- **Lines survive an encoding** that spares the line feed and the carriage return. -/
theorem linesBy_flatMap (hlf : Spares f lf lf') (hcr : Spares f cr cr') (hne : ∀ a, f a ≠ [])
    (xs : List α) : linesBy lf' cr' (xs.flatMap f) = (linesBy lf cr xs).map (·.flatMap f) := by
  unfold linesBy
  rw [cut_flatMap hlf]
  dsimp only
  generalize (cut lf xs).1 = first, (cut lf xs).2 = more
  induction more generalizing first with
  | nil =>
      rw [List.map_nil, linesOfPieces, linesOfPieces]
      simp only [flatMap_eq_nil_iff_of_ne hne]
      split <;> rfl
  | cons next more ih =>
      rw [List.map_cons, linesOfPieces, linesOfPieces, List.map_cons, ih,
        dropReturn_flatMap hcr hne]

end encodings

/-! ### UTF-8 -/

/-- A byte with its highest bit set. -/
theorem le_toNat_or (x : UInt8) {y : UInt8} (h : 128 ≤ y.toNat) : 128 ≤ (x ||| y).toNat := by
  rw [UInt8.toNat_or]
  exact Nat.le_trans h Nat.right_le_or

/-- A character is one byte below 128, or all its bytes are 128 or more. -/
theorem utf8EncodeChar_cases (c : Char) :
    (c.toNat < 128 ∧ String.utf8EncodeChar c = [c.val.toUInt8]) ∨
      ∀ b ∈ String.utf8EncodeChar c, 128 ≤ b.toNat := by
  have hpos := Char.utf8Size_pos c
  have hle := Char.utf8Size_le_four c
  obtain h | h | h | h : c.utf8Size = 1 ∨ c.utf8Size = 2 ∨ c.utf8Size = 3 ∨ c.utf8Size = 4 := by
    omega
  · refine Or.inl ⟨?_, String.utf8EncodeChar_eq_singleton h⟩
    have := UInt32.le_iff_toNat_le.mp (Char.utf8Size_eq_one_iff.mp h)
    exact Nat.lt_succ_of_le this
  · refine Or.inr fun b hb => ?_
    rw [String.utf8EncodeChar_eq_cons_cons h] at hb
    simp only [List.mem_cons, List.not_mem_nil, or_false] at hb
    rcases hb with rfl | rfl <;> exact le_toNat_or _ (by decide)
  · refine Or.inr fun b hb => ?_
    rw [String.utf8EncodeChar_eq_cons_cons_cons h] at hb
    simp only [List.mem_cons, List.not_mem_nil, or_false] at hb
    rcases hb with rfl | rfl | rfl <;> exact le_toNat_or _ (by decide)
  · refine Or.inr fun b hb => ?_
    rw [String.utf8EncodeChar_eq_cons_cons_cons_cons h] at hb
    simp only [List.mem_cons, List.not_mem_nil, or_false] at hb
    rcases hb with rfl | rfl | rfl | rfl <;> exact le_toNat_or _ (by decide)

theorem toNat_toUInt8 {x : Char} (hx : x.toNat < 128) : x.val.toUInt8.toNat = x.toNat := by
  rw [UInt32.toNat_toUInt8]
  exact Nat.mod_eq_of_lt (Nat.lt_trans hx (by decide))

/-- UTF-8 writes a character below 128 as one byte, which it uses for nothing else. -/
theorem spares_utf8 {x : Char} (hx : x.toNat < 128) :
    Spares String.utf8EncodeChar x x.val.toUInt8 where
  writes := by
    have hle : x.val ≤ 127 := UInt32.le_iff_toNat_le.mpr (Nat.le_of_lt_succ hx)
    exact String.utf8EncodeChar_eq_singleton (Char.utf8Size_eq_one_iff.mpr hle)
  spares a ha hm := by
    rcases utf8EncodeChar_cases a with ⟨hlt, hone⟩ | hlarge
    · rw [hone, List.mem_singleton] at hm
      have hsame := congrArg UInt8.toNat hm
      rw [toNat_toUInt8 hx, toNat_toUInt8 hlt] at hsame
      exact ha (Char.toNat_inj.mp hsame.symm)
    · have hge := hlarge _ hm
      rw [toNat_toUInt8 hx] at hge
      omega

theorem toList_toBytes (t : Text) : (toBytes t).data.toList = t.flatMap String.utf8EncodeChar := by
  rw [toBytes, String.toUTF8_eq_toByteArray, String.toByteArray_ofList]
  exact List.toList_data_toByteArray

end Text

/-- **The lines of the bytes of a text** are the bytes of its lines. -/
theorem byteLines_toBytes (t : Text) : byteLines (Text.toBytes t) = (Text.lines t).map Text.toBytes := by
  have hne (c : Char) : String.utf8EncodeChar c ≠ [] := by
    simp
  have hlines := Text.linesBy_flatMap (Text.spares_utf8 (x := '\n') (by decide))
    (Text.spares_utf8 (x := '\r') (by decide)) hne t
  unfold byteLines
  rw [Text.toList_toBytes]
  refine (congrArg _ hlines).trans ?_
  rw [List.map_map]
  refine List.map_congr_left fun line _ => ByteArray.ext ?_
  rw [Function.comp_apply, ← Text.toList_toBytes]

end FlatDb
