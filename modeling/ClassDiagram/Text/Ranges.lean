/-!
# Sets of code points

A set of code points is written as increasing, disjoint closed ranges, so that a search can stop at
the first range that starts beyond the code point it looks for.
-/

namespace ClassDiagram.Text

/-- Increasing, disjoint closed ranges of code points. -/
abbrev Ranges := List (Nat × Nat)

/-- Whether the code point `n` lies in one of the ranges. -/
def Ranges.holds : Ranges → Nat → Bool
  | [], _ => false
  | (lo, hi) :: rest, n => lo ≤ n && (n ≤ hi || Ranges.holds rest n)

/-- Whether the ranges are increasing and disjoint, and none starts before `least`. -/
def Ranges.sortedFrom : Nat → Ranges → Bool
  | _, [] => true
  | least, (lo, hi) :: rest => least ≤ lo && lo ≤ hi && Ranges.sortedFrom (hi + 1) rest

/-- No sorted range starts before the bound. -/
theorem Ranges.le_of_mem {rs : Ranges} {least : Nat} (h : rs.sortedFrom least = true)
    {r : Nat × Nat} (hr : r ∈ rs) : least ≤ r.1 := by
  induction rs generalizing least with
  | nil => simp at hr
  | cons s rest ih =>
    obtain ⟨lo, hi⟩ := s
    simp only [Ranges.sortedFrom, Bool.and_eq_true, decide_eq_true_eq] at h
    rcases List.mem_cons.1 hr with rfl | hr
    · exact h.1.1
    · have := ih h.2 hr
      omega

/-- In sorted ranges, membership is lying in one of them: stopping early loses nothing. -/
theorem Ranges.holds_iff {rs : Ranges} {least : Nat} (h : rs.sortedFrom least = true) (n : Nat) :
    rs.holds n = true ↔ ∃ r ∈ rs, r.1 ≤ n ∧ n ≤ r.2 := by
  induction rs generalizing least with
  | nil => simp [Ranges.holds]
  | cons r rest ih =>
    obtain ⟨lo, hi⟩ := r
    simp only [Ranges.sortedFrom, Bool.and_eq_true, decide_eq_true_eq] at h
    simp only [Ranges.holds, Bool.and_eq_true, Bool.or_eq_true, decide_eq_true_eq,
      List.mem_cons, exists_eq_or_imp, ih h.2]
    constructor
    · rintro ⟨hlo, hhi | htail⟩
      · exact Or.inl ⟨hlo, hhi⟩
      · exact Or.inr htail
    · rintro (⟨hlo, hhi⟩ | ⟨r, hr, hlo, hhi⟩)
      · exact ⟨hlo, Or.inl hhi⟩
      · refine ⟨?_, Or.inr ⟨r, hr, hlo, hhi⟩⟩
        have := Ranges.le_of_mem h.2 hr
        omega

end ClassDiagram.Text
