import FuzzCampaign.Proofs.Tallies
import FuzzCampaign.Proofs.Winners
import FuzzCampaign.Series

/-!
What becomes of a list that is cut in two. Validation compares neighbours, so it works on two parts
apart once their ids tell them apart. A series carries along the number of bugs and the record
before, so its second part goes on from what the first one has left. Main statements: candidates
with lesser ids are validated apart from those with greater ones, and each series of two lists of
records is that of the first one followed by that of the second one as continued.
-/

namespace FuzzCampaign

open Seed

/-! ### Validation -/

/-- Whether every complete candidate of one list has a lesser id than every complete one of another.
-/
def IdsBelow (as bs : List Candidate) : Prop :=
  ∀ a ∈ as, a.isComplete → ∀ b ∈ bs, b.isComplete → ∀ i ∈ a.metadata.id, ∀ j ∈ b.metadata.id, i < j

theorem IdsBelow.lt {as bs : List Candidate} (h : IdsBelow as bs) {r s : Record}
    (hr : r ∈ as.filterMap Candidate.record?) (hs : s ∈ bs.filterMap Candidate.record?) :
    r.id < s.id := by
  obtain ⟨a, ha, har⟩ := List.mem_filterMap.mp hr
  obtain ⟨b, hb, hbs⟩ := List.mem_filterMap.mp hs
  exact h a ha (Candidate.isComplete_iff.mpr ⟨r, har⟩) b hb (Candidate.isComplete_iff.mpr ⟨s, hbs⟩)
    r.id (Candidate.makes_of_record? har).id s.id (Candidate.makes_of_record? hbs).id

namespace Validation

/-- Where each record of some candidates may precede each of others, the two are put in order apart.
-/
theorem ordered_append {as bs : List Candidate}
    (h : ∀ r ∈ as.filterMap Candidate.record?, ∀ s ∈ bs.filterMap Candidate.record?,
      r.precedes s) :
    ordered (as ++ bs) = ordered as ++ ordered bs := by
  rw [ordered, List.filterMap_append, sortBy_append h]
  rfl

/-- Lists without a common id keep their survivors side by side. -/
theorem survivors_append {rs ss : List Record} (h : ∀ r ∈ rs, ∀ s ∈ ss, r.id ≠ s.id) :
    survivors (rs ++ ss) = survivors rs ++ survivors ss := by
  fun_induction survivors rs with
  | case1 => rfl
  | case2 r =>
    cases ss with
    | nil => rfl
    | cons s rest =>
      have hrs : r.id ≠ s.id := h r (by simp) s (by simp)
      simp [survivors, hrs]
  | case3 r s rest hid ih =>
    have hrest := ih fun t ht => h t (List.mem_cons_of_mem r ht)
    rw [List.cons_append, List.cons_append, survivors, if_pos hid]
    exact hrest
  | case4 r s rest hid ih =>
    have hrest := ih fun t ht => h t (List.mem_cons_of_mem r ht)
    rw [List.cons_append, List.cons_append, survivors, if_neg hid]
    exact congrArg (r :: ·) hrest

end Validation

/-- Candidates with lesser ids are validated apart from those with greater ones. -/
theorem records_append {as bs : List Candidate} (h : IdsBelow as bs) :
    (validate (as ++ bs)).records = (validate as).records ++ (validate bs).records := by
  have hlt : ∀ r ∈ Validation.ordered as, ∀ s ∈ Validation.ordered bs, r.id < s.id :=
    fun r hr s hs => h.lt (mem_sortBy.mp hr) (mem_sortBy.mp hs)
  have hordered : Validation.ordered (as ++ bs)
      = Validation.ordered as ++ Validation.ordered bs :=
    Validation.ordered_append fun r hr s hs => by simp [Record.precedes, h.lt hr hs]
  calc (validate (as ++ bs)).records
      = Validation.survivors (Validation.ordered as ++ Validation.ordered bs) := by
        rw [← hordered]; rfl
    _ = (validate as).records ++ (validate bs).records :=
        Validation.survivors_append fun r hr s hs => Nat.ne_of_lt (hlt r hr s hs)

/-! ### Series -/

namespace Series

/-- The second part counts on from the bugs of the first one. -/
theorem bugCounts_append (before : Nat) (rs ss : List Record) :
    bugCounts before (rs ++ ss)
      = bugCounts before rs ++ bugCounts (before + rs.countP fun r => r.verdict.isBug) ss := by
  induction rs generalizing before with
  | nil => rfl
  | cons r rest ih =>
    rw [List.cons_append, bugCounts, ih, bugCounts, List.countP_cons]
    cases r.verdict.isBug
    · simp
    · simp [Nat.add_assoc, Nat.add_comm 1]

/-- The first record of the second part is compared with the last one of the first part. -/
theorem recordFindings_append (g : GlobalState) (previous : Option Record) (rs ss : List Record) :
    recordFindings g previous (rs ++ ss)
      = recordFindings g previous rs ++ recordFindings g (rs.getLast?.or previous) ss := by
  induction rs generalizing previous with
  | nil => simp [recordFindings]
  | cons r rest ih =>
    have hlast : (r :: rest).getLast?.or previous = rest.getLast?.or (some r) := by
      cases hrest : rest.getLast? <;> simp [List.getLast?_cons, hrest]
    rw [List.cons_append, recordFindings, ih, recordFindings, hlast,
      List.append_assoc (_ ++ _)]

end Series

/-- The counts of keys that are cut in two add up. -/
theorem Tally.count_ofKeys_append {κ : Type} [LT κ] [DecidableLT κ] [DecidableEq κ]
    [Std.Trichotomous fun i j : κ => i < j] [IsTrans κ (· < ·)] [Std.Irrefl fun i j : κ => i < j]
    (ks ls : List κ) (k : κ) :
    (ofKeys (ks ++ ls)).count k = (ofKeys ks).count k + (ofKeys ls).count k := by
  rw [(counts_ofKeys _).count_eq, (counts_ofKeys _).count_eq, (counts_ofKeys _).count_eq,
    List.count_append]

end FuzzCampaign
