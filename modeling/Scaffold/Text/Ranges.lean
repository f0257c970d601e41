/-!
# Ranges of characters

A property of characters given by the inclusive ranges of code points that have it, in rising
order, so that the search stops at the first range above the character.
-/

namespace Scaffold.Text
set_option autoImplicit false

/-- Inclusive ranges of code points in rising order. -/
abbrev Ranges := List (Nat × Nat)

def Ranges.hasCode : Ranges → Nat → Bool
  | [], _ => false
  | (first, last) :: rest, n =>
    if n < first then false else if n ≤ last then true else Ranges.hasCode rest n

def Ranges.has (ranges : Ranges) (c : Char) : Bool := ranges.hasCode c.toNat

/-- A member lies in one of the ranges. -/
theorem Ranges.exists_of_hasCode {ranges : Ranges} {n : Nat} (h : ranges.hasCode n = true) :
    ∃ r ∈ ranges, r.1 ≤ n ∧ n ≤ r.2 := by
  induction ranges with
  | nil => simp [hasCode] at h
  | cons r rest ih =>
    simp only [hasCode] at h
    split at h
    · simp at h
    · split at h
      · exact ⟨r, by simp, by omega, by omega⟩
      · obtain ⟨r', m, hr⟩ := ih h
        exact ⟨r', by simp [m], hr⟩

end Scaffold.Text
