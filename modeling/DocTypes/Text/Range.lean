/-
  Sets of code points given as ascending ranges.
-/

namespace DocTypes.Text

/-- Does the code point lie in one of the ranges, ends included? -/
def inRanges (rs : List (Nat × Nat)) (n : Nat) : Bool :=
  rs.any fun r => r.1 ≤ n && n ≤ r.2

end DocTypes.Text
