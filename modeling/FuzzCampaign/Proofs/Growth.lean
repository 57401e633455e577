import FuzzCampaign.Proofs.Runs
import FuzzCampaign.Proofs.Splitting
import FuzzCampaign.Proofs.Stages

/-!
What a campaign that goes on does to its report. The engine gives out ascending ids, so the seeds of
a later snapshot stand behind those of an earlier one, and nothing that is said on a record looks
ahead of it. Only the last coverage is compared with the total one, and this is said anew of each
snapshot. Main statement: when complete candidates are added whose ids are greater than all before,
the records are continued, and the report that there was is continued point by point and warning by
warning.
-/

namespace FuzzCampaign

open Seed

/-! ### Warnings on single records of series -/

/-- Whether a kind is raised on a record of a series and the one before it. -/
def Warning.Kind.isOfRecord (k : Warning.Kind) : Bool :=
  k = .coverageRegression ∨ k = .idBeyondAllocation

/-- Validation raises no such warnings. -/
theorem filter_isOfRecord_validate (cs : List Candidate) :
    ((validate cs).findings.map Finding.warning).filter (·.kind.isOfRecord) = [] := by
  refine List.filter_eq_nil_iff.mpr fun w hw => ?_
  have hkind := kind_of_mem_validate hw
  revert hkind
  cases w.kind <;> decide

/-- Of the warnings on series only the one on the last coverage is not on a single record. -/
theorem filter_isOfRecord_derive (rs : List Record) (g : GlobalState) :
    (Series.derive rs g).warnings.filter (·.kind.isOfRecord)
      = (Series.recordFindings g none rs).map Finding.warning := by
  have hrecords : ((Series.recordFindings g none rs).map Finding.warning).filter
      (·.kind.isOfRecord) = (Series.recordFindings g none rs).map Finding.warning := by
    refine List.filter_eq_self.mpr fun w hw => ?_
    obtain ⟨f, hf, rfl⟩ := List.mem_map.mp hw
    obtain ⟨r, -, ⟨p, -, -, rfl⟩ | ⟨-, rfl⟩⟩ := Series.mem_recordFindings hf
    · rfl
    · rfl
  have hfinal : ((Series.finalFindings g rs).map Finding.warning).filter
      (·.kind.isOfRecord) = [] := by
    refine List.filter_eq_nil_iff.mpr fun w hw => ?_
    obtain ⟨f, hf, rfl⟩ := List.mem_map.mp hw
    obtain ⟨r, -, -, rfl⟩ := Series.mem_finalFindings hf
    exact Bool.false_ne_true
  rw [Series.derive, Series.findings, List.map_append, List.filter_append, hrecords, hfinal,
    List.append_nil]

/-! ### Reports on a growing list of records -/

/-- Whether a later report has all points of an earlier one at the start of its series, and at no
depth fewer seeds. -/
structure Report.ContinuedBy (report later : Report) : Prop where
  coverage : report.coverage <+: later.coverage
  increase : report.increase <+: later.increase
  bugs : report.bugs <+: later.bugs
  depths : ∀ d, report.depths.count d ≤ later.depths.count d

section

variable (rs ss : List Record) (g : GlobalState) (earlier earlier' : List Warning)

theorem continuedBy_assemble :
    (Report.assemble rs g (Series.derive rs g) earlier).ContinuedBy
      (Report.assemble (rs ++ ss) g (Series.derive (rs ++ ss) g) earlier') where
  coverage := by
    simp only [Report.assemble, Series.derive, List.map_append]
    exact List.prefix_append _ _
  increase := by
    simp only [Report.assemble, Series.derive, List.map_append]
    exact List.prefix_append _ _
  bugs := by
    simp only [Report.assemble, Series.derive, Series.bugCounts_append]
    exact List.prefix_append _ _
  depths d := by
    simp only [Report.assemble, Series.derive, List.map_append, Tally.count_ofKeys_append]
    exact Nat.le_add_right _ _

/-- What was said on the records before is said again, in front of what is said on the added ones.
-/
theorem filter_isOfRecord_continued :
    (Series.derive rs g).warnings.filter (·.kind.isOfRecord)
      <+: (Series.derive (rs ++ ss) g).warnings.filter (·.kind.isOfRecord) := by
  rw [filter_isOfRecord_derive, filter_isOfRecord_derive, Series.recordFindings_append,
    List.map_append]
  exact List.prefix_append _ _

end

namespace Source

variable {σ σ' : Type} {s : Source (StateM σ)} {s' : Source (StateM σ')} {st : σ} {st' : σ'}

/-- When a later snapshot adds complete candidates with greater ids only, its records are those of
the earlier snapshot and then the added ones. Both snapshots get a report; the later one continues
the series of the earlier one and, unless loading has said other things of this kind, its warnings
on single records. -/
theorem report_continued {g : GlobalState} {as bs : List Candidate} {load load' : List Warning}
    (hreads : s.Reads st g ⟨as, load⟩) (hreads' : s'.Reads st' g ⟨as ++ bs, load'⟩)
    (hcomplete : ∃ a ∈ as, a.isComplete) (hids : IdsBelow as bs) :
    (validate (as ++ bs)).records = (validate as).records ++ (validate bs).records ∧
    ∃ report later, (s.report.run st).1 = .ok report ∧ (s'.report.run st').1 = .ok later ∧
      report.ContinuedBy later ∧
      (load.filter (·.kind.isOfRecord) = load'.filter (·.kind.isOfRecord) →
        report.warnings.filter (·.kind.isOfRecord)
          <+: later.warnings.filter (·.kind.isOfRecord)) := by
  have hrecords := records_append hids
  have hne : (validate as).records ≠ [] := records_ne_nil_iff.mpr hcomplete
  have hne' : (validate (as ++ bs)).records ≠ [] := by
    rw [hrecords]
    exact List.append_ne_nil_of_left_ne_nil hne _
  refine ⟨hrecords, _, _, hreads.report_eq.trans (reportOn_eq_ok_iff.mpr ⟨hne, rfl⟩),
    hreads'.report_eq.trans (reportOn_eq_ok_iff.mpr ⟨hne', rfl⟩), ?_, fun hload => ?_⟩
  · rw [hrecords]
    exact continuedBy_assemble _ _ g _ _
  · simp only [Report.assemble, List.filter_append, filter_isOfRecord_validate, List.append_nil,
      hload, hrecords]
    exact (List.prefix_append_right_inj _).mpr (filter_isOfRecord_continued _ _ g)

/-- The seeds of a campaign that is not over. Two files state one id, coverage falls, and the
highest id was not given out. -/
def firstSeeds : List Candidate :=
  [⟨"b.json", ⟨some 3, some 1, some 1, none, none, some 1500, some 0, some "BUG"⟩⟩,
    ⟨"c.json", ⟨some 1, none, some 0, none, none, some 2000, some 2000, some "NORMAL"⟩⟩,
    ⟨"a.json", ⟨some 1, none, some 0, none, none, some 1900, some 1900, some "BUG"⟩⟩]

/-- The seeds that come later. One of them lacks its coverage, so its low id does not matter. -/
def laterSeeds : List Candidate :=
  [⟨"0.json", ⟨some 0, none, some 0, none, none, none, some 10, none⟩⟩,
    ⟨"d.json", ⟨some 7, some 3, some 1, none, none, some 1200, some 0, some "BUG"⟩⟩]

/-- A source whose state says which snapshot it gives. In the later one a file cannot be read. -/
def growing : Source (StateM Bool) where
  location := "campaign"
  globalState := return .ok ⟨2, 1500, none, none⟩
  candidates := do
    match ← get with
    | false => return .ok ⟨firstSeeds, []⟩
    | true =>
      return .ok ⟨firstSeeds ++ laterSeeds, [⟨.recordParseError, some "e.json", "unreadable"⟩]⟩

theorem growing_continued :
    (∃ a ∈ firstSeeds, a.isComplete) ∧ IdsBelow firstSeeds laterSeeds ∧
    (validate (firstSeeds ++ laterSeeds)).records
      = (validate firstSeeds).records ++ (validate laterSeeds).records ∧
    ∃ report later, (growing.report.run false).1 = .ok report ∧
      (growing.report.run true).1 = .ok later ∧ report.ContinuedBy later ∧
      report.bugs = [(1, 0), (3, 1)] ∧ later.bugs = [(1, 0), (3, 1), (7, 2)] ∧
      report.warnings.filter (·.kind.isOfRecord)
        <+: later.warnings.filter (·.kind.isOfRecord) ∧
      report.warnings.map Warning.kind
        = [.duplicateId, .coverageRegression, .idBeyondAllocation] := by
  have hcomplete : ∃ a ∈ firstSeeds, a.isComplete := by decide
  have hids : IdsBelow firstSeeds laterSeeds := by
    unfold IdsBelow
    decide
  have hreads : growing.Reads false ⟨2, 1500, none, none⟩ ⟨firstSeeds, []⟩ := ⟨false, rfl, rfl⟩
  have hreads' : growing.Reads true ⟨2, 1500, none, none⟩
      ⟨firstSeeds ++ laterSeeds, [⟨.recordParseError, some "e.json", "unreadable"⟩]⟩ :=
    ⟨true, rfl, rfl⟩
  obtain ⟨hrecords, report, later, hreport, hlater, hcontinued, hwarnings⟩ :=
    report_continued hreads hreads' hcomplete hids
  refine ⟨hcomplete, hids, hrecords, report, later, hreport, hlater, hcontinued, ?_, ?_,
    hwarnings rfl, ?_⟩
  · obtain rfl := Except.ok.inj hreport
    rfl
  · obtain rfl := Except.ok.inj hlater
    rfl
  · obtain rfl := Except.ok.inj hreport
    rfl

end Source

end FuzzCampaign
