import FuzzCampaign.Proofs.Runs
import FuzzCampaign.Proofs.Stages

/-!
What of a record counts. Validation puts records in order by id and file name and drops those whose
id comes again, so a change to records that keeps both can be made before it or after it. Series and
totals read neither the parent nor the coverage before a seed, and of a verdict only whether it is a
bug. Main statement: candidates whose records agree in what counts, and supersede each other alike,
lead to the same failure or to reports that differ in the warnings on single candidates only.
-/

namespace FuzzCampaign

open Seed

/-! ### Changes that keep the key -/

/-- Whether a change to records keeps the id and the file name of each. -/
structure KeepsKey (f : Record → Record) : Prop where
  id : ∀ r, (f r).id = r.id
  source : ∀ r, (f r).source = r.source

namespace KeepsKey

variable {f : Record → Record}

theorem precedes_eq (h : KeepsKey f) (r s : Record) : (f r).precedes (f s) = r.precedes s := by
  simp only [Record.precedes, h.id, h.source]

theorem survivors_map (h : KeepsKey f) (rs : List Record) :
    Validation.survivors (rs.map f) = (Validation.survivors rs).map f := by
  fun_induction Validation.survivors rs with
  | case1 => rfl
  | case2 r => rfl
  | case3 r s rest hid ih =>
    rw [List.map_cons, List.map_cons, Validation.survivors, h.id, h.id, if_pos hid]
    exact ih
  | case4 r s rest hid ih =>
    rw [List.map_cons, List.map_cons, Validation.survivors, h.id, h.id, if_neg hid, List.map_cons]
    exact congrArg (f r :: ·) ih

theorem supersessions_map (h : KeepsKey f) (rs : List Record) :
    Validation.supersessions (rs.map f) = Validation.supersessions rs := by
  fun_induction Validation.supersessions rs with
  | case1 r s rest hid ih =>
    rw [List.map_cons, List.map_cons, Validation.supersessions, h.id, h.id, h.source, h.source,
      if_pos hid]
    exact congrArg (_ :: ·) ih
  | case2 r s rest hid ih =>
    rw [List.map_cons, List.map_cons, Validation.supersessions, h.id, h.id, if_neg hid]
    exact ih
  | case3 rs hrs =>
    rcases rs with - | ⟨r, - | ⟨s, rest⟩⟩
    · rfl
    · rfl
    · exact absurd rfl (hrs r s rest)

theorem map_ordered (h : KeepsKey f) (cs : List Candidate) :
    (Validation.ordered cs).map f
      = sortBy Record.precedes ((cs.filterMap Candidate.record?).map f) := by
  have hle : (fun r s => (f r).precedes (f s)) = Record.precedes := by
    funext r s
    exact h.precedes_eq r s
  rw [← sortBy_map, hle]
  rfl

/-- Candidates whose records are changed into the same ones supersede each other alike. -/
theorem supersessions_eq (h : KeepsKey f) {cs ds : List Candidate}
    (hmap : (cs.filterMap Candidate.record?).map f = (ds.filterMap Candidate.record?).map f) :
    Validation.supersessions (Validation.ordered cs)
      = Validation.supersessions (Validation.ordered ds) := by
  rw [← h.supersessions_map, ← h.supersessions_map (Validation.ordered ds), h.map_ordered,
    h.map_ordered, hmap]

/-- And then the records that are left are changed into the same ones. -/
theorem map_records_eq (h : KeepsKey f) {cs ds : List Candidate}
    (hmap : (cs.filterMap Candidate.record?).map f = (ds.filterMap Candidate.record?).map f) :
    (validate cs).records.map f = (validate ds).records.map f := by
  simp only [validate]
  rw [← h.survivors_map, ← h.survivors_map, h.map_ordered, h.map_ordered, hmap]

end KeepsKey

/-! ### What series and totals read -/

/-- A record without its parent and the coverage before it, and with no verdict unless it is a bug.
-/
def Seed.Record.essence (r : Record) : Record :=
  { r with
    parent := none
    oldCoverage := none
    verdict := if r.verdict.isBug then .bug else .unknown }

theorem keepsKey_essence : KeepsKey Record.essence where
  id _ := rfl
  source _ := rfl

theorem isBug_essence (r : Record) : r.essence.verdict.isBug = r.verdict.isBug := by
  unfold Record.essence
  cases hbug : r.verdict.isBug
  · rfl
  · rfl

namespace Series

theorem bugCounts_map_essence (before : Nat) (rs : List Record) :
    bugCounts before (rs.map Record.essence) = bugCounts before rs := by
  induction rs generalizing before with
  | nil => rfl
  | cons r rest ih =>
    rw [List.map_cons, bugCounts, bugCounts, isBug_essence, ih]
    rfl

theorem recordFindings_map_essence (g : GlobalState) (previous : Option Record)
    (rs : List Record) :
    recordFindings g (previous.map Record.essence) (rs.map Record.essence)
      = recordFindings g previous rs := by
  induction rs generalizing previous with
  | nil => rfl
  | cons r rest ih =>
    have hfall : regressionFindings (previous.map Record.essence) r.essence
        = regressionFindings previous r := by
      cases previous with
      | none => rfl
      | some p => rfl
    rw [List.map_cons, recordFindings, recordFindings, hfall, ← ih (some r)]
    rfl

theorem finalFindings_map_essence (g : GlobalState) (rs : List Record) :
    finalFindings g (rs.map Record.essence) = finalFindings g rs := by
  unfold finalFindings
  rw [List.getLast?_map]
  cases rs.getLast? with
  | none => rfl
  | some last => rfl

theorem derive_map_essence (rs : List Record) (g : GlobalState) :
    derive (rs.map Record.essence) g = derive rs g := by
  have hrecords := recordFindings_map_essence g none rs
  rw [Option.map_none] at hrecords
  simp only [derive, findings, bugCounts_map_essence, hrecords, finalFindings_map_essence,
    List.map_map]
  rfl

end Series

theorem assemble_map_essence (rs : List Record) (g : GlobalState) (earlier : List Warning) :
    Report.assemble (rs.map Record.essence) g (Series.derive (rs.map Record.essence) g) earlier
      = Report.assemble rs g (Series.derive rs g) earlier := by
  simp only [Report.assemble, Report.summarize, Report.initialCount, Series.derive_map_essence,
    List.length_map, List.map_map, List.filterMap_map, List.countP_map]
  rfl

/-! ### Reports on such candidates -/

/-- Whether two reports with the same load warnings differ at most in the warnings on single
candidates, which are given for each. -/
structure Report.SameButSingle (load single single' : List Warning) (report other : Report) : Prop
    extends report.SameFigures other where
  warnings : ∃ links series : List Warning,
    report.warnings = load ++ single ++ links ++ series ∧
    other.warnings = load ++ single' ++ links ++ series ∧
    (∀ w ∈ links, w.kind = .duplicateId) ∧ ∀ w ∈ series, w.kind.isOfSeries

/-- The warnings on a candidate by itself name its file and are of a candidate's kinds. -/
theorem source_of_mem_ownWarnings {c : Candidate} {w : Warning} (h : w ∈ c.ownWarnings) :
    w.source = some c.source ∧ w.kind.isOfCandidate := by
  rw [← map_warning_findings] at h
  refine ⟨?_, isOfCandidate_of_mem h⟩
  obtain ⟨f, hf, rfl⟩ := List.mem_map.mp h
  rcases Candidate.mem_findings hf with ⟨-, rfl⟩ | ⟨r, hr, ⟨share, value, rfl⟩ | ⟨d, rfl⟩⟩
  · rfl
  · exact congrArg some (Candidate.makes_of_record? hr).source
  · exact congrArg some (Candidate.makes_of_record? hr).source

/-- The warnings of validation are those on single candidates and then those on supersessions. -/
theorem map_warning_validate (cs : List Candidate) :
    (validate cs).findings.map Finding.warning = cs.flatMap Candidate.ownWarnings
      ++ (Validation.supersessions (Validation.ordered cs)).map Finding.warning := by
  rw [validate, List.map_append, List.map_flatMap, funext map_warning_findings]

/-- Where the records agree in what counts, and so do the supersessions, nothing but the warnings on
single candidates can differ. -/
theorem reportOn_of_essence_eq {cs ds : List Candidate}
    (hrecords : (validate cs).records.map Record.essence
      = (validate ds).records.map Record.essence)
    (hlinks : Validation.supersessions (Validation.ordered cs)
      = Validation.supersessions (Validation.ordered ds))
    (location : String) (g : GlobalState) (load : List Warning) :
    (∃ failure, reportOn location g ⟨cs, load⟩ = .error failure ∧
      reportOn location g ⟨ds, load⟩ = .error failure) ∨
    ∃ report other, reportOn location g ⟨cs, load⟩ = .ok report ∧
      reportOn location g ⟨ds, load⟩ = .ok other ∧
      report.SameButSingle load (cs.flatMap Candidate.ownWarnings)
        (ds.flatMap Candidate.ownWarnings) other := by
  by_cases hnil : (validate cs).records = []
  · have hnil' : (validate ds).records = [] := by
      rw [← List.map_eq_nil_iff, ← hrecords, hnil, List.map_nil]
    exact .inl ⟨.noRecordsFound location, reportOn_eq_error_iff.mpr ⟨hnil, rfl⟩,
      reportOn_eq_error_iff.mpr ⟨hnil', rfl⟩⟩
  · have hne : (validate ds).records ≠ [] := by
      intro hnil'
      rw [hnil', List.map_nil, List.map_eq_nil_iff] at hrecords
      exact hnil hrecords
    refine .inr ⟨_, _, reportOn_eq_ok_iff.mpr ⟨hnil, rfl⟩, reportOn_eq_ok_iff.mpr ⟨hne, rfl⟩, ?_⟩
    -- both reports are put together from the same records, but for the warnings before
    rw [← assemble_map_essence, ← assemble_map_essence (validate ds).records, hrecords]
    refine ⟨⟨rfl, rfl, rfl, rfl, rfl⟩,
      (Validation.supersessions (Validation.ordered cs)).map Finding.warning,
      (Series.derive ((validate ds).records.map Record.essence) g).warnings, ?_, ?_, ?_, ?_⟩
    · simp only [Report.assemble, map_warning_validate, List.append_assoc]
    · simp only [Report.assemble, map_warning_validate, hlinks, List.append_assoc]
    · intro w hw
      exact kind_of_mem_supersessions hw
    · intro w hw
      exact isOfSeries_of_mem hw

end FuzzCampaign
