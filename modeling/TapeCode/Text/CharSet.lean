/-!
# Sets of characters

A set of code points is stored as the ascending sequence of the points where membership changes,
starting outside. A character is a member when an odd number of changes lie at or before it.
-/
namespace TapeCode.Text

structure CharSet where
  edges : Array Nat

/-- Membership changes at every edge, so the parity of the edges passed decides it. -/
def CharSet.contains (set : CharSet) (c : Char) : Bool :=
  set.edges.countP (fun edge => edge ≤ c.toNat) % 2 == 1

end TapeCode.Text
