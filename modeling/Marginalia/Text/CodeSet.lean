/-!
# Sets of code points

A set of code points is kept as the ascending list of the points where membership changes:
the first point is the first member, the second the first non-member after it, and so on.
Every character class of this library is such a list.
-/

namespace Marginalia

/-- A set of code points, given by the ascending points where membership changes. -/
structure CodeSet where
  bounds : List Nat

namespace CodeSet

/-- Membership of `n`, when `inside` tells the membership of the points before the list. -/
def memberFrom (inside : Bool) (n : Nat) : List Nat → Bool
  | [] => inside
  | b :: bs => if n < b then inside else memberFrom (!inside) n bs

/-- Whether a character is a member. -/
def contains (s : CodeSet) (c : Char) : Bool :=
  memberFrom false c.toNat s.bounds

end CodeSet

end Marginalia
