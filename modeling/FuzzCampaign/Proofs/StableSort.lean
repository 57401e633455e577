import FuzzCampaign.Sorted

/-!
What sorting by insertion does beyond putting a list in order. It looks at nothing but the comparison,
so sorting commutes with a map that keeps it, and lists of which one may precede the other are sorted
apart; and it is stable, so elements that may precede each other stay as they stood. A list that is
sorted strictly is known from its members alone.
-/

namespace FuzzCampaign

variable {α β : Type}

theorem placeBy_map (le : β → β → Bool) (f : α → β) (a : α) (l : List α) :
    (placeBy (fun x y => le (f x) (f y)) a l).map f = placeBy le (f a) (l.map f) := by
  induction l with
  | nil => rfl
  | cons b rest ih =>
    by_cases h : le (f a) (f b)
    · simp [placeBy, h]
    · simp [placeBy, h, ih]

/-- Sorting by what a map gives, and mapping then, is sorting what the map gives. -/
theorem sortBy_map (le : β → β → Bool) (f : α → β) (l : List α) :
    (sortBy (fun x y => le (f x) (f y)) l).map f = sortBy le (l.map f) := by
  induction l with
  | nil => rfl
  | cons a rest ih => rw [sortBy, placeBy_map, ih, List.map_cons, sortBy]

section Append

variable {le : α → α → Bool} {l m : List α}

/-- An element that may precede all of a second list is placed in the first one. -/
theorem placeBy_append {a : α} (h : ∀ b ∈ m, le a b) :
    placeBy le a (l ++ m) = placeBy le a l ++ m := by
  induction l with
  | nil =>
    cases m with
    | nil => rfl
    | cons b rest => simp [placeBy, h b]
  | cons b rest ih =>
    by_cases hab : le a b
    · simp [placeBy, hab]
    · simp [placeBy, hab, ih]

/-- Where each element of one list may precede each of another one, the two are sorted apart. -/
theorem sortBy_append (h : ∀ a ∈ l, ∀ b ∈ m, le a b) :
    sortBy le (l ++ m) = sortBy le l ++ sortBy le m := by
  induction l with
  | nil => rfl
  | cons a rest ih =>
    obtain ⟨ha, hrest⟩ := List.forall_mem_cons.mp h
    rw [List.cons_append, sortBy, ih hrest, placeBy_append fun b hb => ha b (mem_sortBy.mp hb),
      sortBy]

end Append

section Stability

variable {le : α → α → Bool} {before : α → α → Prop}

/-- An element that stood before all of a list keeps its place before those it may share it with. -/
theorem placeBy_stable (total : ∀ a b, le a b ∨ le b a)
    (trans : ∀ a b c, le a b → le b c → le a c) {a : α} {l : List α} (ha : ∀ x ∈ l, before a x)
    (h : l.Pairwise fun x y => le x y ∧ (le y x → before x y)) :
    (placeBy le a l).Pairwise fun x y => le x y ∧ (le y x → before x y) := by
  induction l with
  | nil => simp [placeBy]
  | cons b rest ih =>
    obtain ⟨hb, hrest⟩ := List.pairwise_cons.mp h
    by_cases hab : le a b
    · rw [placeBy, if_pos hab]
      refine List.pairwise_cons.mpr ⟨fun x hx => ⟨?_, fun _ => ha x hx⟩, h⟩
      rcases List.mem_cons.mp hx with rfl | hx
      · exact hab
      · exact trans a b x hab (hb x hx).1
    · rw [placeBy, if_neg hab]
      refine List.pairwise_cons.mpr ⟨fun x hx => ?_, ih (fun x hx => ha x (by simp [hx])) hrest⟩
      rcases List.mem_cons.mp ((placeBy_perm le a rest).mem_iff.mp hx) with rfl | hx
      · exact ⟨(total x b).resolve_left hab, fun hxb => absurd hxb hab⟩
      · exact hb x hx

/-- Sorting is stable. -/
theorem sortBy_stable (total : ∀ a b, le a b ∨ le b a)
    (trans : ∀ a b c, le a b → le b c → le a c) {l : List α} (h : l.Pairwise before) :
    (sortBy le l).Pairwise fun x y => le x y ∧ (le y x → before x y) := by
  induction l with
  | nil => exact .nil
  | cons a rest ih =>
    obtain ⟨ha, hrest⟩ := List.pairwise_cons.mp h
    exact placeBy_stable total trans (fun x hx => ha x (mem_sortBy.mp hx)) (ih hrest)

end Stability

/-- Strictly sorted lists with the same members are the same. -/
theorem eq_of_pairwise_of_mem_iff {lt : α → α → Prop} (asymm : ∀ a b, lt a b → ¬lt b a)
    {l m : List α} (hl : l.Pairwise lt) (hm : m.Pairwise lt) (h : ∀ a, a ∈ l ↔ a ∈ m) : l = m := by
  have ne : ∀ {a b}, lt a b → a ≠ b := fun hab e => asymm _ _ hab (e ▸ hab)
  have hperm : l.Perm m :=
    (List.perm_ext_iff_of_nodup (hl.imp ne) (hm.imp ne)).mpr h
  exact hperm.eq_of_pairwise (fun a b _ _ hab hba => absurd hba (asymm a b hab)) hl hm

end FuzzCampaign
