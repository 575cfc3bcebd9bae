import FlatDb.Text.Basic

/-! # Texts as bytes

Files and connections carry bytes.  A text is written in UTF-8, and bytes are read as a text
only when they are well-formed UTF-8, so `Text.ofBytes?` undoes `Text.toBytes` and accepts
nothing else (`Text.ofBytes?_eq_some_iff`). -/

namespace FlatDb.Text

/-- The UTF-8 form of a text. -/
def toBytes (t : Text) : ByteArray := (String.ofList t).toUTF8

/-- The text of which these bytes are the UTF-8 form, if there is one. -/
def ofBytes? (bytes : ByteArray) : Option Text := (String.fromUTF8? bytes).map String.toList

theorem ofBytes?_toBytes (t : Text) : ofBytes? (toBytes t) = some t := by
  have h : (String.ofList t).toUTF8.IsValidUTF8 := (String.ofList t).isValidUTF8
  unfold ofBytes? toBytes String.fromUTF8?
  rw [dif_pos h]
  exact congrArg some String.toList_ofList

theorem toBytes_append (a b : Text) : toBytes (a ++ b) = toBytes a ++ toBytes b := by
  simp [toBytes]

/-- Reading accepts exactly what writing produces. -/
theorem ofBytes?_eq_some_iff {bytes : ByteArray} {t : Text} :
    ofBytes? bytes = some t ↔ bytes = toBytes t := by
  refine ⟨fun h => ?_, fun h => h ▸ ofBytes?_toBytes t⟩
  unfold ofBytes? String.fromUTF8? at h
  split at h
  case isTrue hv =>
    obtain ⟨s, hs, rfl⟩ := Option.map_eq_some_iff.1 h
    obtain rfl := Option.some.inj hs
    simp [toBytes]
    rfl
  case isFalse => simp at h

end FlatDb.Text
