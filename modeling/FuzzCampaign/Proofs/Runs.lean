import FuzzCampaign.Campaign

/-!
What a run that ends in a report has done. A source may change a state of its own with every read;
the global state is read first and the candidates from whatever that leaves. Main statements: a report
on a source is what is said on the data that it gave, a report on a campaign is what is said on the
data found in its directory, and data with the same records leads to reports with the same figures.
-/

namespace FuzzCampaign

/-- What is said on data, if anything, is put together from the records of its candidates. -/
theorem reportOn_eq_ok_iff {location : String} {g : GlobalState} {loaded : Loaded}
    {report : Report} :
    reportOn location g loaded = .ok report ↔
      (validate loaded.candidates).records ≠ [] ∧
        Report.assemble (validate loaded.candidates).records g
          (Series.derive (validate loaded.candidates).records g)
          (loaded.warnings ++ (validate loaded.candidates).findings.map Finding.warning)
          = report := by
  simp only [reportOn]
  split
  · next h => simp [h]
  · next h => simp [h]

/-- Nothing is said on data only for the want of a record. -/
theorem reportOn_eq_error_iff {location : String} {g : GlobalState} {loaded : Loaded}
    {failure : Failure} :
    reportOn location g loaded = .error failure ↔
      (validate loaded.candidates).records = [] ∧ failure = .noRecordsFound location := by
  simp only [reportOn]
  split
  · next h => simp [h, eq_comm]
  · next h => simp [h]

/-- Whatever validation and the series bring up is in the report. -/
theorem warning_mem_of_reportOn {location : String} {g : GlobalState} {loaded : Loaded}
    {report : Report} {f : Finding} (h : reportOn location g loaded = .ok report)
    (hf : f ∈ (validate loaded.candidates).findings ∨
      f ∈ Series.findings (validate loaded.candidates).records g) :
    f.warning ∈ report.warnings := by
  obtain ⟨-, rfl⟩ := reportOn_eq_ok_iff.mp h
  rcases hf with hf | hf
  · exact List.mem_append_left _ (List.mem_append_right _ (List.mem_map_of_mem hf))
  · exact List.mem_append_right _ (List.mem_map_of_mem hf)

/-- Whether two reports have the same series, depths and summary. -/
structure Report.SameFigures (report other : Report) : Prop where
  coverage : report.coverage = other.coverage
  increase : report.increase = other.increase
  bugs : report.bugs = other.bugs
  depths : report.depths = other.depths
  summary : report.summary = other.summary

/-- Data with the same records leads to the same failure, or to reports that differ in what is said
on files and on candidates only. -/
theorem reportOn_of_records_eq (loaded other : Loaded)
    (h : (validate loaded.candidates).records = (validate other.candidates).records)
    (location : String) (g : GlobalState) :
    (∃ failure, reportOn location g loaded = .error failure ∧
      reportOn location g other = .error failure) ∨
    ∃ report report' series, reportOn location g loaded = .ok report ∧
      reportOn location g other = .ok report' ∧ report.SameFigures report' ∧
      series = (Series.derive (validate loaded.candidates).records g).warnings ∧
      report.warnings = loaded.warnings
        ++ (validate loaded.candidates).findings.map Finding.warning ++ series ∧
      report'.warnings = other.warnings
        ++ (validate other.candidates).findings.map Finding.warning ++ series := by
  by_cases hnil : (validate loaded.candidates).records = []
  · exact .inl ⟨.noRecordsFound location, reportOn_eq_error_iff.mpr ⟨hnil, rfl⟩,
      reportOn_eq_error_iff.mpr ⟨h ▸ hnil, rfl⟩⟩
  · refine .inr ⟨_, _, _, reportOn_eq_ok_iff.mpr ⟨hnil, rfl⟩,
      reportOn_eq_ok_iff.mpr ⟨h ▸ hnil, rfl⟩, ?_, rfl, rfl, ?_⟩
    · rw [h]
      exact ⟨rfl, rfl, rfl, rfl, rfl⟩
    · rw [h]
      rfl

namespace Source

variable {σ : Type} {s : Source (StateM σ)} {st : σ} {report : Report}

/-- Whether a source that is read from a state gives a global state and then what is loaded. -/
def Reads (s : Source (StateM σ)) (st : σ) (g : GlobalState) (loaded : Loaded) : Prop :=
  ∃ mid, s.globalState.run st = (.ok g, mid) ∧ (s.candidates.run mid).1 = .ok loaded

/-- The global state is read before the candidates, and a report is what is said on both. -/
theorem run_report (s : Source (StateM σ)) (st : σ) :
    s.report.run st
      = match s.globalState.run st with
        | (.error failure, mid) => (.error failure, mid)
        | (.ok g, mid) =>
          match s.candidates.run mid with
          | (.error failure, last) => (.error failure, last)
          | (.ok loaded, last) => (reportOn s.location g loaded, last) := by
  simp only [Source.report, load, StateT.run, bind, StateT.bind, pure]
  rcases s.globalState st with ⟨failure | g, mid⟩
  · rfl
  · simp only [StateT.bind, bind]
    rcases s.candidates mid with ⟨failure | loaded, last⟩
    · rfl
    · rfl

/-- A source that gives what is asked for is reported on from that alone. -/
theorem Reads.report_eq {g : GlobalState} {loaded : Loaded} (h : s.Reads st g loaded) :
    (s.report.run st).1 = reportOn s.location g loaded := by
  obtain ⟨mid, hg, hc⟩ := h
  rw [run_report, hg]
  rcases hrun : s.candidates.run mid with ⟨outcome, last⟩
  obtain rfl : outcome = .ok loaded := by rw [← hc, hrun]
  simp only [hrun]

theorem exists_reads (h : (s.report.run st).1 = .ok report) :
    ∃ g loaded, s.Reads st g loaded ∧ reportOn s.location g loaded = .ok report := by
  rw [run_report] at h
  split at h
  · cases h
  · next g mid hg =>
    split at h
    · cases h
    · next loaded last hc => exact ⟨g, loaded, ⟨mid, hg, congrArg Prod.fst hc⟩, h⟩

end Source

namespace Campaign

variable {fs : FileSystem}

/-- The directory is always read, so only the global state can stand against a report. -/
theorem report_source (fs : FileSystem) (c : Campaign) :
    (c.source fs).report = match c.globalState fs with
      | .error failure => .error failure
      | .ok g => reportOn c.root g (c.candidates fs) := by
  cases hg : c.globalState fs with
  | error failure =>
    simp only [Source.report, Source.load, source, hg]
    rfl
  | ok g =>
    simp only [Source.report, Source.load, source, hg]
    rfl

/-- A run on a campaign that lies at a root. -/
theorem report_of_locate {c : Campaign} {root : String} {places : Places}
    (h : locate fs root places = .ok c) :
    Campaign.report fs root places = match c.globalState fs with
      | .error failure => .error failure
      | .ok g => reportOn c.root g (c.candidates fs) := by
  rw [Campaign.report, h]
  exact report_source fs c

/-- A report on a campaign is what is said on its global state and its candidates. -/
theorem report_eq_ok_iff {root : String} {places : Places} {report : Report} :
    Campaign.report fs root places = .ok report ↔
      ∃ c g, locate fs root places = .ok c ∧ c.globalState fs = .ok g ∧
        reportOn c.root g (c.candidates fs) = .ok report := by
  unfold Campaign.report
  cases locate fs root places with
  | error failure => simp
  | ok c =>
    simp only [report_source]
    cases hg : c.globalState fs with
    | error failure => simp [hg]
    | ok g => simp [hg]

end Campaign

end FuzzCampaign
