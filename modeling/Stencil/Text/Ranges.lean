/-!
# Ranges of code points

A property of characters is given by the closed ranges of the code points that have it. The
ranges ascend and lie apart, so a search ends at the first range that starts too late.

## Main definitions

* `inRanges` — whether a character has the property of a list of ranges.
-/

namespace Stencil.Text

/-- Whether a code point lies in one of the ranges. -/
def hasCode : List (Nat × Nat) → Nat → Bool
  | [], _ => false
  | (first, last) :: rest, n =>
    if n < first then false else if n ≤ last then true else hasCode rest n

/-- Whether a character lies in one of the ranges. -/
def inRanges (ranges : List (Nat × Nat)) (c : Char) : Bool := hasCode ranges c.toNat

end Stencil.Text
