/-! # Character classes given by ranges of code points -/

namespace JsonPull.Text

/-- Whether `c` lies in one of the inclusive ranges. Characters of ASCII never need the table, so
they are answered first. -/
def inRanges (ranges : List (Nat × Nat)) (c : Char) : Bool :=
  0x80 ≤ c.toNat && ranges.any fun (first, last) => first ≤ c.toNat && c.toNat ≤ last

theorem inRanges_ascii (ranges : List (Nat × Nat)) {c : Char} (h : c.toNat < 0x80) :
    inRanges ranges c = false := by
  simp [inRanges, Nat.not_le.mpr h]

theorem inRanges_eq_true_iff (ranges : List (Nat × Nat)) (c : Char) :
    inRanges ranges c = true ↔
      0x80 ≤ c.toNat ∧ ∃ r ∈ ranges, r.1 ≤ c.toNat ∧ c.toNat ≤ r.2 := by
  simp [inRanges]

end JsonPull.Text
