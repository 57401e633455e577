/-!
Sets of code points as ascending ranges. A search ends at the first range that lies above what is
looked for. Main statement: it finds exactly what lies in one of the ranges.
-/

namespace FuzzCampaign.Text

/-- Ranges of code points, both ends included. -/
abbrev Ranges := List (Nat × Nat)

namespace Ranges

/-- Whether each range has its ends in order and lies above the ones before it. -/
def isAscending : (above : Nat) → Ranges → Bool
  | _, [] => true
  | above, (low, high) :: rest => above ≤ low && low ≤ high && isAscending (high + 1) rest

/-- Whether a code point lies in one of some ascending ranges. -/
def contains (n : Nat) : Ranges → Bool
  | [] => false
  | (low, high) :: rest => low ≤ n && (n ≤ high || contains n rest)

theorem le_of_mem {above : Nat} {ranges : Ranges} (h : ranges.isAscending above) :
    ∀ r ∈ ranges, above ≤ r.1 := by
  fun_induction isAscending above ranges with
  | case1 => simp
  | case2 above low high rest ih =>
    simp only [Bool.and_eq_true, decide_eq_true_eq] at h
    intro r hr
    rcases List.mem_cons.mp hr with rfl | hr
    · exact h.1.1
    · have := ih h.2 r hr
      omega

theorem contains_iff {above n : Nat} {ranges : Ranges} (h : ranges.isAscending above) :
    ranges.contains n ↔ ∃ r ∈ ranges, r.1 ≤ n ∧ n ≤ r.2 := by
  fun_induction isAscending above ranges with
  | case1 => simp [contains]
  | case2 above low high rest ih =>
    simp only [Bool.and_eq_true, decide_eq_true_eq] at h
    simp only [contains, Bool.and_eq_true, Bool.or_eq_true, decide_eq_true_eq, ih h.2,
      List.mem_cons, exists_eq_or_imp]
    constructor
    · rintro ⟨hlow, hhigh | hmem⟩
      · exact .inl ⟨hlow, hhigh⟩
      · exact .inr hmem
    · rintro (⟨hlow, hhigh⟩ | ⟨r, hr, hlow, hhigh⟩)
      · exact ⟨hlow, .inl hhigh⟩
      · have := le_of_mem h.2 r hr
        exact ⟨by omega, .inr ⟨r, hr, hlow, hhigh⟩⟩

end Ranges

end FuzzCampaign.Text
