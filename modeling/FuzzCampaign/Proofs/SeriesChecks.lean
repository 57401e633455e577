import FuzzCampaign.Proofs.Stages
import FuzzCampaign.Proofs.WinningSeries
import Mathlib.Data.List.Chain
import Mathlib.Order.Bounds.Defs

/-!
What the checks on a series find out, and nothing else. A record is compared with the one before it
and with the last id that was given out, and only the last record with the total coverage. Where no
neighbour falls behind its neighbour, no record falls behind any earlier one, so the last coverage is
then the largest. Main statement: each check raises one warning for each record that fails it; in the
records of validation, which ascend by id, the ids that were never given out stand together at the
end; and the checks are silent exactly if coverage never falls, all ids were given out and the largest
coverage is the total one.
-/

namespace FuzzCampaign

open Seed

namespace Series

variable {g : GlobalState} {rs : List Record}

/-! ### What is to be found -/

/-- The records of a list in pairs of neighbours. -/
def steps (rs : List Record) : List (Record × Record) := rs.zip rs.tail

/-- The warning that coverage falls from a record to another one. -/
def fallWarning (p r : Record) : Warning :=
  (Finding.regression r.source p.id p.newCoverage r.id r.newCoverage).warning

/-- The warning that the id of a record was never given out. -/
def beyondWarning (g : GlobalState) (r : Record) : Warning :=
  (Finding.beyondAllocation r.source r.id g.lastAllocated).warning

/-- The warning that the coverage of the last record is not the total one. -/
def totalWarning (g : GlobalState) (last : Record) : Warning :=
  (Finding.finalMismatch last.id last.newCoverage g.totalCoverage).warning

/-- Whether coverage never falls, from any record to any later one. -/
def IsSteady (rs : List Record) : Prop := rs.Pairwise fun p r => p.newCoverage ≤ r.newCoverage

/-- What the warnings on a series are. -/
structure IsChecked (rs : List Record) (g : GlobalState) : Prop where
  regressions : (derive rs g).warnings.filter (·.kind = .coverageRegression)
    = ((steps rs).filter fun s => s.2.newCoverage < s.1.newCoverage).map fun s => fallWarning s.1 s.2
  allocations : (derive rs g).warnings.filter (·.kind = .idBeyondAllocation)
    = (rs.filter fun r => g.lastAllocated < r.id).map (beyondWarning g)
  mismatch : (derive rs g).warnings.filter (·.kind = .consistencyMismatch)
    = (rs.getLast?.toList.filter fun r => r.newCoverage ≠ g.totalCoverage).map (totalWarning g)
  last : ∀ front w back, (derive rs g).warnings = front ++ w :: back →
    w.kind = .consistencyMismatch → back = []
  kinds : ∀ w ∈ (derive rs g).warnings, w.kind.isOfSeries
  steady : (∀ w ∈ (derive rs g).warnings, w.kind ≠ .coverageRegression) ↔ IsSteady rs

/-! ### One check after the other -/

/-- The findings on records that are of one kind, when the first one has a record before it. -/
theorem filter_regression_recordFindings (g : GlobalState) (p : Record) (rs : List Record) :
    (recordFindings g (some p) rs).filter (·.kind = .coverageRegression)
      = (((p :: rs).zip rs).filter fun s => s.2.newCoverage < s.1.newCoverage).map fun s =>
        .regression s.2.source s.1.id s.1.newCoverage s.2.id s.2.newCoverage := by
  induction rs generalizing p with
  | nil => rfl
  | cons r rest ih =>
    have hallocation : (allocationFindings g r).filter (·.kind = .coverageRegression) = [] := by
      refine List.filter_eq_nil_iff.mpr ?_
      intro f hf
      obtain ⟨-, rfl⟩ := mem_allocationFindings hf
      simp [Finding.kind]
    rw [recordFindings, List.filter_append, List.filter_append, hallocation, List.append_nil, ih,
      List.zip_cons_cons]
    by_cases hfall : r.newCoverage < p.newCoverage
    · simp [regressionFindings, hfall, Finding.kind]
    · simp [regressionFindings, hfall]

theorem filter_allocation_recordFindings (g : GlobalState) (previous : Option Record)
    (rs : List Record) :
    (recordFindings g previous rs).filter (·.kind = .idBeyondAllocation)
      = (rs.filter fun r => g.lastAllocated < r.id).map fun r =>
        .beyondAllocation r.source r.id g.lastAllocated := by
  induction rs generalizing previous with
  | nil => rfl
  | cons r rest ih =>
    have hregression :
        (regressionFindings previous r).filter (·.kind = .idBeyondAllocation) = [] := by
      refine List.filter_eq_nil_iff.mpr ?_
      intro f hf
      obtain ⟨p, -, -, rfl⟩ := mem_regressionFindings hf
      simp [Finding.kind]
    rw [recordFindings, List.filter_append, List.filter_append, hregression, List.nil_append, ih]
    by_cases hbeyond : g.lastAllocated < r.id
    · simp [allocationFindings, hbeyond, Finding.kind]
    · simp [allocationFindings, hbeyond]

theorem finalFindings_eq (g : GlobalState) (rs : List Record) :
    finalFindings g rs = (rs.getLast?.toList.filter fun r => r.newCoverage ≠ g.totalCoverage).map
      fun r => .finalMismatch r.id r.newCoverage g.totalCoverage := by
  cases hlast : rs.getLast? with
  | none => simp [finalFindings, hlast]
  | some last =>
    by_cases htotal : last.newCoverage = g.totalCoverage
    · simp [finalFindings, hlast, htotal]
    · simp [finalFindings, hlast, htotal]

/-- The last coverage is not looked at while the records are gone through. -/
theorem kind_of_mem_recordFindings {previous : Option Record} {f : Finding}
    (h : f ∈ recordFindings g previous rs) :
    f.kind = .coverageRegression ∨ f.kind = .idBeyondAllocation := by
  obtain ⟨r, -, ⟨p, -, -, rfl⟩ | ⟨-, rfl⟩⟩ := mem_recordFindings h
  · exact .inl rfl
  · exact .inr rfl

theorem kind_of_mem_finalFindings {f : Finding} (h : f ∈ finalFindings g rs) :
    f.kind = .consistencyMismatch := by
  obtain ⟨r, -, -, rfl⟩ := mem_finalFindings h
  rfl

/-- The warnings of a kind are those of the findings of that kind. -/
theorem filter_kind_warnings (k : Warning.Kind) (rs : List Record) (g : GlobalState) :
    (derive rs g).warnings.filter (·.kind = k)
      = ((recordFindings g none rs).filter (·.kind = k)
          ++ (finalFindings g rs).filter (·.kind = k)).map Finding.warning := by
  rw [derive, findings, ← List.filter_append, List.filter_map]
  rfl

theorem filter_finalFindings_of_ne {k : Warning.Kind} (h : k ≠ .consistencyMismatch) :
    (finalFindings g rs).filter (·.kind = k) = [] := by
  refine List.filter_eq_nil_iff.mpr ?_
  intro f hf
  rw [kind_of_mem_finalFindings hf]
  simpa using Ne.symm h

theorem filter_regression_warnings (rs : List Record) (g : GlobalState) :
    (derive rs g).warnings.filter (·.kind = .coverageRegression)
      = ((steps rs).filter fun s => s.2.newCoverage < s.1.newCoverage).map fun s =>
        fallWarning s.1 s.2 := by
  rw [filter_kind_warnings, filter_finalFindings_of_ne (by decide), List.append_nil]
  cases rs with
  | nil => rfl
  | cons r rest =>
    -- the first record has none before it, so it goes with the first of the others
    have hfirst : (recordFindings g none (r :: rest)).filter (·.kind = .coverageRegression)
        = (recordFindings g (some r) rest).filter (·.kind = .coverageRegression) := by
      rw [recordFindings, List.filter_append, List.filter_append]
      by_cases hbeyond : g.lastAllocated < r.id
      · simp [regressionFindings, allocationFindings, hbeyond, Finding.kind]
      · simp [regressionFindings, allocationFindings, hbeyond]
    rw [hfirst, filter_regression_recordFindings, List.map_map]
    rfl

theorem filter_allocation_warnings (rs : List Record) (g : GlobalState) :
    (derive rs g).warnings.filter (·.kind = .idBeyondAllocation)
      = (rs.filter fun r => g.lastAllocated < r.id).map (beyondWarning g) := by
  rw [filter_kind_warnings, filter_finalFindings_of_ne (by decide), List.append_nil,
    filter_allocation_recordFindings, List.map_map]
  rfl

theorem filter_mismatch_warnings (rs : List Record) (g : GlobalState) :
    (derive rs g).warnings.filter (·.kind = .consistencyMismatch)
      = (rs.getLast?.toList.filter fun r => r.newCoverage ≠ g.totalCoverage).map
        (totalWarning g) := by
  have hrecords : (recordFindings g none rs).filter (·.kind = .consistencyMismatch) = [] := by
    refine List.filter_eq_nil_iff.mpr ?_
    intro f hf
    rcases kind_of_mem_recordFindings hf with hkind | hkind <;> simp [hkind]
  have hfinal : (finalFindings g rs).filter (·.kind = .consistencyMismatch)
      = finalFindings g rs := by
    refine List.filter_eq_self.mpr ?_
    intro f hf
    simp [kind_of_mem_finalFindings hf]
  rw [filter_kind_warnings, hrecords, hfinal, List.nil_append, finalFindings_eq, List.map_map]
  rfl

/-- There is at most one warning on the last coverage, behind all others. -/
theorem nothing_behind_mismatch {front back : List Warning} {w : Warning}
    (h : (derive rs g).warnings = front ++ w :: back) (hw : w.kind = .consistencyMismatch) :
    back = [] := by
  rw [derive, findings, List.map_append] at h
  have hlength : ((finalFindings g rs).map Finding.warning).length ≤ 1 := by
    rw [finalFindings_eq]
    cases rs.getLast? with
    | none => simp
    | some last => simpa using List.length_filter_le _ [last]
  rcases List.append_eq_append_iff.mp h with ⟨more, hfront, hfinal⟩ | ⟨more, hrecords, hrest⟩
  · rw [hfinal, List.length_append, List.length_cons] at hlength
    exact List.length_eq_zero_iff.mp (by omega)
  · cases more with
    | nil =>
      rw [List.nil_append] at hrest
      rw [← hrest, List.length_cons] at hlength
      exact List.length_eq_zero_iff.mp (by omega)
    | cons v more =>
      -- a warning on the last coverage is not among those on records
      exfalso
      obtain ⟨rfl, -⟩ := List.cons.inj hrest
      have hmem : w ∈ (recordFindings g none rs).map Finding.warning := by
        rw [hrecords]
        simp
      obtain ⟨f, hf, rfl⟩ := List.mem_map.mp hmem
      rcases kind_of_mem_recordFindings hf with hkind | hkind <;> cases hkind.symm.trans hw

/-! ### From neighbours to all records -/

/-- What holds of all neighbours holds along the list. -/
theorem forall_steps_iff {rel : Record → Record → Prop} (rs : List Record) :
    (∀ s ∈ steps rs, rel s.1 s.2) ↔ rs.IsChain rel := by
  induction rs with
  | nil => simp [steps]
  | cons r rest ih =>
    cases rest with
    | nil => simp [steps]
    | cons s rest =>
      rw [List.isChain_cons_cons, ← ih]
      simp [steps]

theorem filter_steps_eq_nil_iff (rs : List Record) :
    ((steps rs).filter fun s => s.2.newCoverage < s.1.newCoverage) = [] ↔ IsSteady rs := by
  have : IsTrans Record fun p r => p.newCoverage ≤ r.newCoverage := ⟨fun _ _ _ => Nat.le_trans⟩
  rw [IsSteady, ← List.isChain_iff_pairwise, ← forall_steps_iff, List.filter_eq_nil_iff]
  refine forall_congr' fun s => forall_congr' fun _ => ?_
  rw [decide_eq_true_eq, Nat.not_lt]

theorem filter_kind_eq_nil_iff {k : Warning.Kind} {ws : List Warning} :
    ws.filter (·.kind = k) = [] ↔ ∀ w ∈ ws, w.kind ≠ k := by
  simp [List.filter_eq_nil_iff]

/-- No record falls behind its neighbour exactly if none falls behind any earlier one. -/
theorem no_regression_iff (rs : List Record) (g : GlobalState) :
    (∀ w ∈ (derive rs g).warnings, w.kind ≠ .coverageRegression) ↔ IsSteady rs := by
  rw [← filter_kind_eq_nil_iff, filter_regression_warnings, List.map_eq_nil_iff,
    filter_steps_eq_nil_iff]

theorem isChecked (rs : List Record) (g : GlobalState) : IsChecked rs g where
  regressions := filter_regression_warnings rs g
  allocations := filter_allocation_warnings rs g
  mismatch := filter_mismatch_warnings rs g
  last _ _ _ := nothing_behind_mismatch
  kinds _ := isOfSeries_of_mem
  steady := no_regression_iff rs g

/-! ### Silence -/

/-- Where coverage never falls, the last one is the largest. -/
theorem IsSteady.isGreatest (h : IsSteady rs) {last : Record} (hlast : rs.getLast? = some last) :
    IsGreatest {n | ∃ r ∈ rs, r.newCoverage = n} last.newCoverage := by
  obtain ⟨front, rfl⟩ := List.getLast?_eq_some_iff.mp hlast
  refine ⟨⟨last, by simp, rfl⟩, ?_⟩
  rintro n ⟨r, hr, rfl⟩
  rcases List.mem_append.mp hr with hr | hr
  · exact (List.pairwise_append.mp h).2.2 r hr last (by simp)
  · rw [List.mem_singleton.mp hr]

theorem IsSteady.mismatch_eq_nil_iff (h : IsSteady rs) (g : GlobalState) :
    (rs.getLast?.toList.filter fun r => r.newCoverage ≠ g.totalCoverage) = [] ↔
      rs = [] ∨ IsGreatest {n | ∃ r ∈ rs, r.newCoverage = n} g.totalCoverage := by
  cases hlast : rs.getLast? with
  | none => simp [List.getLast?_eq_none_iff.mp hlast]
  | some last =>
    have hne : rs ≠ [] := by
      rintro rfl
      cases hlast
    have hgreatest := h.isGreatest hlast
    have hsilent : (([last] : List Record).filter fun r => r.newCoverage ≠ g.totalCoverage) = [] ↔
        last.newCoverage = g.totalCoverage := by simp
    rw [Option.toList_some, hsilent, or_iff_right hne]
    constructor
    · intro htotal
      rwa [← htotal]
    · intro htotal
      exact hgreatest.unique htotal

/-- The checks are silent exactly if coverage never falls, all ids were given out and the largest
coverage is the total one. -/
theorem warnings_eq_nil_iff (rs : List Record) (g : GlobalState) :
    (derive rs g).warnings = [] ↔ IsSteady rs ∧ (∀ r ∈ rs, r.id ≤ g.lastAllocated) ∧
      (rs = [] ∨ IsGreatest {n | ∃ r ∈ rs, r.newCoverage = n} g.totalCoverage) := by
  have hkinds : (derive rs g).warnings = [] ↔
      (derive rs g).warnings.filter (·.kind = .coverageRegression) = [] ∧
        (derive rs g).warnings.filter (·.kind = .idBeyondAllocation) = [] ∧
          (derive rs g).warnings.filter (·.kind = .consistencyMismatch) = [] := by
    simp only [filter_kind_eq_nil_iff]
    constructor
    · intro hnil
      simp [hnil]
    · rintro ⟨hregression, hallocation, hmismatch⟩
      refine List.eq_nil_iff_forall_not_mem.mpr fun w hw => ?_
      have hkind := isOfSeries_of_mem hw
      simp [Warning.Kind.isOfSeries, hregression w hw, hallocation w hw, hmismatch w hw] at hkind
  rw [hkinds, filter_regression_warnings, filter_allocation_warnings, filter_mismatch_warnings,
    List.map_eq_nil_iff, List.map_eq_nil_iff, List.map_eq_nil_iff, filter_steps_eq_nil_iff]
  refine and_congr_right fun hsteady => and_congr ?_ (hsteady.mismatch_eq_nil_iff g)
  simp [List.filter_eq_nil_iff]

end Series

/-! ### The records of validation -/

/-- In records that ascend by id those above an id stand behind the others. -/
theorem exists_split_of_ascending {rs : List Record} (h : rs.Pairwise fun r s => r.id < s.id)
    (n : Nat) : ∃ below beyond, rs = below ++ beyond ∧ (∀ r ∈ below, r.id ≤ n) ∧
      (∀ r ∈ beyond, n < r.id) ∧ rs.filter (fun r => n < r.id) = beyond := by
  induction rs with
  | nil => exact ⟨[], [], rfl, by simp, by simp, rfl⟩
  | cons r rest ih =>
    obtain ⟨hr, hrest⟩ := List.pairwise_cons.mp h
    by_cases hid : r.id ≤ n
    · obtain ⟨below, beyond, rfl, hbelow, hbeyond, hfilter⟩ := ih hrest
      refine ⟨r :: below, beyond, rfl, List.forall_mem_cons.mpr ⟨hid, hbelow⟩, hbeyond, ?_⟩
      rw [List.filter_cons_of_neg (by simpa using hid), hfilter]
    · have hall : ∀ s ∈ r :: rest, n < s.id := by
        intro s hs
        rcases List.mem_cons.mp hs with rfl | hs
        · omega
        · have := hr s hs
          omega
      exact ⟨[], r :: rest, rfl, by simp, hall, List.filter_eq_self.mpr (by simpa using hall)⟩

/-- What the warnings on the series of some candidates are, beside the checks on any series. -/
structure SurvivorsChecked (cs : List Candidate) (g : GlobalState) : Prop where
  suffix : ∃ below beyond, (validate cs).records = below ++ beyond ∧
    (∀ r ∈ below, r.id ≤ g.lastAllocated) ∧ (∀ r ∈ beyond, g.lastAllocated < r.id) ∧
    (Series.derive (validate cs).records g).warnings.filter (·.kind = .idBeyondAllocation)
      = beyond.map (Series.beyondWarning g)
  number : (Series.derive (validate cs).records g).warnings.countP (·.kind = .idBeyondAllocation)
    = {k | g.lastAllocated < k ∧ ∃ r ∈ (validate cs).records, r.id = k}.ncard
  silent : (Series.derive (validate cs).records g).warnings = [] ↔
    Series.IsSteady (validate cs).records ∧
      (∀ r ∈ (validate cs).records, r.id ≤ g.lastAllocated) ∧
      ((validate cs).records = [] ∨
        IsGreatest {n | ∃ r ∈ (validate cs).records, r.newCoverage = n} g.totalCoverage)

theorem survivorsChecked (cs : List Candidate) (g : GlobalState) : SurvivorsChecked cs g where
  suffix := by
    obtain ⟨below, beyond, hrecords, hbelow, hbeyond, hfilter⟩ :=
      exists_split_of_ascending (records_pairwise cs) g.lastAllocated
    refine ⟨below, beyond, hrecords, hbelow, hbeyond, ?_⟩
    rw [Series.filter_allocation_warnings, hfilter]
  number := by
    have hset : {k | g.lastAllocated < k ∧ ∃ r ∈ (validate cs).records, r.id = k}
        = {k | ∃ r ∈ (validate cs).records, decide (g.lastAllocated < r.id) ∧ r.id = k} := by
      ext k
      constructor
      · rintro ⟨hk, r, hr, rfl⟩
        exact ⟨r, hr, decide_eq_true hk, rfl⟩
      · rintro ⟨r, hr, hk, rfl⟩
        exact ⟨of_decide_eq_true hk, r, hr, rfl⟩
    rw [List.countP_eq_length_filter, Series.filter_allocation_warnings, List.length_map, hset,
      ← countP_eq_ncard (nodup_ids cs), List.countP_eq_length_filter]
  silent := Series.warnings_eq_nil_iff _ g

/-- The checks on a series find out each record that falls behind the one before it, each one whose id
was never given out, and a last coverage that is not the total one, whatever the records are. Of the
records of validation those with ids that were never given out come last. -/
theorem series_checked (g : GlobalState) :
    (∀ rs, Series.IsChecked rs g) ∧ ∀ cs, SurvivorsChecked cs g :=
  ⟨fun rs => Series.isChecked rs g, fun cs => survivorsChecked cs g⟩

end FuzzCampaign
