/-!
# Sets of code points given by ranges
-/

namespace Standin.Text

/-- Whether `n` lies in one of the ranges, which are in increasing order with both ends included. -/
def inRanges (n : Nat) : List (Nat × Nat) → Bool
  | [] => false
  | (lo, hi) :: rest => if n < lo then false else if n ≤ hi then true else inRanges n rest

end Standin.Text
