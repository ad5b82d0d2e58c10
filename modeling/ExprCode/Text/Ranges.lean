/-! # Ranges of code points

Classes of characters given by ascending lists of ranges. -/

namespace ExprCode.Text

/-- A range of code points: the first of them, and how many there are. -/
abbrev CodePointRange := Nat × Nat

/-- Whether a code point lies in one of the ranges, which are in ascending order: behind the first
range that starts above it there is none. -/
def inRanges (code : Nat) : List CodePointRange → Bool
  | [] => false
  | (first, count) :: rest => first ≤ code && (code < first + count || inRanges code rest)

end ExprCode.Text
