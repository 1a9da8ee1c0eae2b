/-!
Sets of code points written as a list of closed ranges.
-/

namespace FlatQuery.Text

/-- Closed ranges of code points. -/
abbrev Ranges := List (Nat × Nat)

/-- Whether the code point lies in one of the ranges. -/
def Ranges.holds (rs : Ranges) (c : Nat) : Bool :=
  rs.any fun r => r.1 ≤ c && c ≤ r.2

end FlatQuery.Text
