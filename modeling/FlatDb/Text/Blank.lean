import FlatDb.Text.Basic

/-! # White space

`Text.isBlank` is the Unicode property White_Space: it holds of 25 characters.  It separates
tokens and is what `Text.trim` removes from both ends of a text. -/

namespace FlatDb.Text

/-- The Unicode property White_Space. -/
def isBlank (c : Char) : Bool :=
  let n := c.toNat
  (0x09 ≤ n && n ≤ 0x0D) || n == 0x20 || n == 0x85 || n == 0xA0 || n == 0x1680 ||
    (0x2000 ≤ n && n ≤ 0x200A) || n == 0x2028 || n == 0x2029 || n == 0x202F || n == 0x205F ||
    n == 0x3000

/-- A text without the white space at its end. -/
def trimEnd (t : Text) : Text := (t.reverse.dropWhile isBlank).reverse

/-- A text without the white space at either end. -/
def trim (t : Text) : Text := trimEnd (t.dropWhile isBlank)

/-- There is nothing but white space. -/
def allBlank (t : Text) : Bool := t.all isBlank

end FlatDb.Text
