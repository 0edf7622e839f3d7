namespace SourcePages.Text

/-- A set of code points as the increasing list of those at which membership changes, the first
of them the first member. -/
structure CharSet where
  boundaries : List Nat

/-- Members are the code points with an odd number of boundaries at or below them. -/
def CharSet.contains (set : CharSet) (c : Char) : Bool :=
  (set.boundaries.takeWhile (· ≤ c.toNat)).length % 2 == 1

end SourcePages.Text
