/-!
# Sets of code points

A character class is a list of inclusive ranges of code points, in ascending order.
-/

namespace C0Stack.Text

/-- A set of code points: inclusive ranges in ascending order. -/
abbrev CodePoints := List (Nat × Nat)

/-- The character lies in one of the ranges. -/
def CodePoints.contains (ranges : CodePoints) (c : Char) : Bool :=
  ranges.any fun (first, last) => first ≤ c.toNat && c.toNat ≤ last

/-- Membership is membership in some range. -/
theorem CodePoints.contains_iff {ranges : CodePoints} {c : Char} :
    ranges.contains c = true ↔ ∃ r ∈ ranges, r.1 ≤ c.toNat ∧ c.toNat ≤ r.2 := by
  simp [CodePoints.contains]

end C0Stack.Text
