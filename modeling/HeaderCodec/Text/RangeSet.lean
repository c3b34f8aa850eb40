namespace HeaderCodec
namespace Text

/-!
# Sets of characters as ranges

Character properties are tables of ranges of code points, first and last
included, in ascending order.  The order is used: looking a character up stops
at the first range beyond it, which makes the frequent characters cheap.
-/

/-- Ranges of code points in ascending order. -/
abbrev RangeSet := List (Nat × Nat)

namespace RangeSet

/-- Whether a code point lies in one of the ranges. -/
def contains (code : Nat) : RangeSet -> Bool
  | [] => false
  | (first, last) :: rest =>
    if code < first then false
    else if code ≤ last then true
    else contains code rest

end RangeSet

end Text
end HeaderCodec
