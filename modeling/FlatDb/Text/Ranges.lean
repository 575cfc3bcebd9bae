/-! # Sets of characters given by ranges

The properties of the Unicode character database that this library uses are lists of ranges of
code points, both ends included. -/

namespace FlatDb.Text

/-- The code point of `c` lies in one of the ranges. -/
def inRanges (ranges : List (Nat × Nat)) (c : Char) : Bool :=
  ranges.any fun (first, last) => first ≤ c.toNat && c.toNat ≤ last

end FlatDb.Text
