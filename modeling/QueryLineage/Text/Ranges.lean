/-!
# Sets of characters given by ranges

A property of characters is stored as the list of its closed ranges of code points, in
increasing order. The properties of the Unicode standard that the library uses are all kept in
this form.
-/

namespace QueryLineage.Text

/-- Whether `c` lies in one of the closed ranges. -/
def inRanges (ranges : List (Nat × Nat)) (c : Char) : Bool :=
  ranges.any fun range => range.1 ≤ c.toNat && c.toNat ≤ range.2

theorem inRanges_iff {ranges : List (Nat × Nat)} {c : Char} :
    inRanges ranges c = true ↔ ∃ range ∈ ranges, range.1 ≤ c.toNat ∧ c.toNat ≤ range.2 := by
  simp [inRanges]

end QueryLineage.Text
