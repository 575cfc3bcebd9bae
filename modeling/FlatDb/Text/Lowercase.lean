import FlatDb.Text.Basic
import FlatDb.Text.Casing

/-! # Lower case

`Text.lowercase` is the full lower-case mapping of Unicode.  Two characters are not mapped on
their own: U+0130 becomes the letter i with a dot above it, and the capital sigma becomes the
final sigma at the end of a word and the ordinary one elsewhere.  Whether a word ends is seen in
the characters on both sides, so the mapping of a part of a text need not be a part of the
mapping of the text. -/

namespace FlatDb.Text

/-- Behind the characters to look through stands a letter that has a case. -/
def meetsCased (t : Text) : Bool :=
  match t.dropWhile isCaseIgnorable with
  | [] => false
  | c :: _ => isCased c

/-- The lower case of `c`, given the characters before it, nearest first, and after it. -/
def lowerIn (before : Text) (c : Char) (after : Text) : Text :=
  if c = 'Σ' then [if meetsCased before && !meetsCased after then 'ς' else 'σ']
  else if c = 'İ' then ['i', '\u0307']
  else [lowerChar c]

/-- The lower case of a text that follows the characters `before`, nearest first. -/
def lowercaseAfter : Text → Text → Text
  | _, [] => []
  | before, c :: after => lowerIn before c after ++ lowercaseAfter (c :: before) after

/-- The lower case of a text. -/
def lowercase (t : Text) : Text := lowercaseAfter [] t

end FlatDb.Text
