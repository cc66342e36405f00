/-!
# ScriptFront.Text.CodePoints

A **set of code points** as the list of its ranges, in increasing order. Properties of the
Unicode character database are stated in this form.
-/

namespace ScriptFront.Text

/-- A set of code points: each pair is the first and the last of a range. -/
abbrev CodePoints := List (Nat × Nat)

/-- Whether a character lies in one of the ranges. -/
def CodePoints.contains (ranges : CodePoints) (c : Char) : Bool :=
  ranges.any fun range => range.1 ≤ c.toNat && c.toNat ≤ range.2

theorem CodePoints.contains_iff {ranges : CodePoints} {c : Char} :
    ranges.contains c = true ↔ ∃ range ∈ ranges, range.1 ≤ c.toNat ∧ c.toNat ≤ range.2 := by
  simp [CodePoints.contains]

end ScriptFront.Text
