/-!
# Ranges of characters

A property of characters is given by the ranges of code points that have it.
-/

namespace CurveArea.Text

/-- Whether a character lies in one of some ranges, each given by its first and last code point. -/
def inRanges (ranges : List (Nat × Nat)) (c : Char) : Bool :=
  ranges.any fun (first, last) => first ≤ c.toNat && c.toNat ≤ last

end CurveArea.Text
