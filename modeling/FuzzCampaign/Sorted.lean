/-!
Stable sorting by insertion. An element is placed before the first one that it may precede, and the
elements are placed from the last to the first, so elements that may precede each other keep their
order. Main statements: sorting permutes, and under a total transitive comparison the result is
ordered.
-/

namespace FuzzCampaign

variable {α : Type}

/-- Puts an element before the first one that it may precede. -/
def placeBy (le : α → α → Bool) (a : α) : List α → List α
  | [] => [a]
  | b :: rest => if le a b then a :: b :: rest else b :: placeBy le a rest

/-- The elements in ascending order; equal ones stay in the order given. -/
def sortBy (le : α → α → Bool) : List α → List α
  | [] => []
  | a :: rest => placeBy le a (sortBy le rest)

theorem placeBy_perm (le : α → α → Bool) (a : α) (l : List α) : (placeBy le a l).Perm (a :: l) := by
  induction l with
  | nil => exact .refl _
  | cons b rest ih =>
    by_cases h : le a b
    · simp [placeBy, h]
    · simpa [placeBy, h] using (ih.cons b).trans (.swap a b rest)

theorem sortBy_perm (le : α → α → Bool) (l : List α) : (sortBy le l).Perm l := by
  induction l with
  | nil => exact .refl _
  | cons a rest ih => exact (placeBy_perm le a _).trans (ih.cons a)

@[simp] theorem mem_sortBy {le : α → α → Bool} {a : α} {l : List α} : a ∈ sortBy le l ↔ a ∈ l :=
  (sortBy_perm le l).mem_iff

theorem placeBy_pairwise {le : α → α → Bool} (total : ∀ a b, le a b ∨ le b a)
    (trans : ∀ a b c, le a b → le b c → le a c) (a : α) {l : List α}
    (h : l.Pairwise fun x y => le x y) : (placeBy le a l).Pairwise fun x y => le x y := by
  induction l with
  | nil => simp [placeBy]
  | cons b rest ih =>
    obtain ⟨hb, hrest⟩ := List.pairwise_cons.mp h
    by_cases hab : le a b
    · rw [placeBy, if_pos hab]
      refine List.pairwise_cons.mpr ⟨fun x hx => ?_, h⟩
      rcases List.mem_cons.mp hx with rfl | hx
      · exact hab
      · exact trans a b x hab (hb x hx)
    · rw [placeBy, if_neg hab]
      refine List.pairwise_cons.mpr ⟨fun x hx => ?_, ih hrest⟩
      rcases List.mem_cons.mp ((placeBy_perm le a rest).mem_iff.mp hx) with rfl | hx
      · exact (total x b).resolve_left hab
      · exact hb x hx

theorem sortBy_pairwise {le : α → α → Bool} (total : ∀ a b, le a b ∨ le b a)
    (trans : ∀ a b c, le a b → le b c → le a c) (l : List α) :
    (sortBy le l).Pairwise fun x y => le x y := by
  induction l with
  | nil => exact .nil
  | cons a rest ih => exact placeBy_pairwise total trans a ih

end FuzzCampaign
