import FuzzCampaign.Proofs.Runs
import FuzzCampaign.Proofs.Stages

/-!
What the global state does to a report. It is compared with the records and never corrects them: two
checks on series read it, the summary repeats it, and nothing else looks at it. Main statement: where a
source states anything else about the campaign as a whole, the run fails alike, or its report differs
in the entries of the summary that repeat the global state and in the warnings of the two checks only.
-/

namespace FuzzCampaign

open Seed

/-- Whether a kind is raised by a comparison with the global state. -/
def Warning.Kind.isOfGlobal (k : Warning.Kind) : Bool :=
  k = .idBeyondAllocation ∨ k = .consistencyMismatch

/-- The warnings that no comparison with the global state has raised, in their order. -/
def Warning.apart (ws : List Warning) : List Warning := ws.filter fun w => !w.kind.isOfGlobal

theorem Warning.apart_append (ws vs : List Warning) :
    Warning.apart (ws ++ vs) = Warning.apart ws ++ Warning.apart vs :=
  List.filter_append ..

theorem Warning.apart_eq_nil {ws : List Warning} (h : ∀ w ∈ ws, w.kind.isOfGlobal) :
    Warning.apart ws = [] := by
  refine List.filter_eq_nil_iff.mpr ?_
  intro w hw
  rw [h w hw]
  decide

namespace Series

variable (g g' : GlobalState) (previous : Option Record) (r : Record) (rs : List Record)

theorem apart_allocationFindings :
    Warning.apart ((allocationFindings g r).map Finding.warning) = [] := by
  refine Warning.apart_eq_nil ?_
  intro w hw
  obtain ⟨f, hf, rfl⟩ := List.mem_map.mp hw
  obtain ⟨-, rfl⟩ := mem_allocationFindings hf
  rfl

theorem apart_finalFindings :
    Warning.apart ((finalFindings g rs).map Finding.warning) = [] := by
  refine Warning.apart_eq_nil ?_
  intro w hw
  obtain ⟨f, hf, rfl⟩ := List.mem_map.mp hw
  obtain ⟨last, -, -, rfl⟩ := mem_finalFindings hf
  rfl

/-- What is found on the records apart from the global state is the same for any two. -/
theorem apart_recordFindings :
    Warning.apart ((recordFindings g previous rs).map Finding.warning)
      = Warning.apart ((recordFindings g' previous rs).map Finding.warning) := by
  induction rs generalizing previous with
  | nil => rfl
  | cons r rest ih =>
    rw [recordFindings, recordFindings, List.map_append, List.map_append, List.map_append,
      List.map_append, Warning.apart_append, Warning.apart_append, Warning.apart_append,
      Warning.apart_append, apart_allocationFindings, apart_allocationFindings, ih (some r)]

theorem apart_derive :
    Warning.apart (derive rs g).warnings = Warning.apart (derive rs g').warnings := by
  simp only [derive, findings, List.map_append, Warning.apart_append, apart_finalFindings,
    apart_recordFindings g g' none rs]

variable {g g'}

/-- The checks read no more of a global state than the last id and the total coverage. -/
theorem findings_congr (hlast : g.lastAllocated = g'.lastAllocated)
    (htotal : g.totalCoverage = g'.totalCoverage) : findings rs g = findings rs g' := by
  have hrecords : ∀ previous, recordFindings g previous rs = recordFindings g' previous rs := by
    induction rs with
    | nil => exact fun _ => rfl
    | cons r rest ih =>
      intro previous
      rw [recordFindings, recordFindings, allocationFindings, allocationFindings, hlast,
        ih (some r)]
  rw [findings, findings, hrecords none, finalFindings, finalFindings, htotal]

end Series

/-! ### Reports -/

/-- Whether a second report says of a second global state what the first one says of its own, and both
say the same of the records. -/
structure Report.SameButGlobal (g g' : GlobalState) (report other : Report) : Prop where
  coverage : report.coverage = other.coverage
  increase : report.increase = other.increase
  bugs : report.bugs = other.bugs
  depths : report.depths = other.depths
  summary : other.summary =
    { report.summary with
      recordedCoverage := Percent.ofBasisPoints g'.totalCoverage
      lastAllocated := g'.lastAllocated
      current := g'.current
      queue := g'.queue }
  apart : Warning.apart report.warnings = Warning.apart other.warnings
  warnings : g.lastAllocated = g'.lastAllocated → g.totalCoverage = g'.totalCoverage →
    report.warnings = other.warnings

/-- Records are put together with each of two global states. -/
theorem assemble_sameButGlobal (g g' : GlobalState) (rs : List Record) (earlier : List Warning) :
    (Report.assemble rs g (Series.derive rs g) earlier).SameButGlobal g g'
      (Report.assemble rs g' (Series.derive rs g') earlier) where
  coverage := rfl
  increase := rfl
  bugs := rfl
  depths := rfl
  summary := rfl
  apart := by
    rw [Report.assemble, Report.assemble, Warning.apart_append, Warning.apart_append,
      Series.apart_derive g g']
  warnings := by
    intro hlast htotal
    simp only [Report.assemble, Series.derive, Series.findings_congr rs hlast htotal]

/-- The same data is reported on with each of two global states, or with neither. -/
theorem reportOn_sameButGlobal (g g' : GlobalState) (location : String) (loaded : Loaded) :
    (∃ failure, reportOn location g loaded = .error failure ∧
      reportOn location g' loaded = .error failure) ∨
    ∃ report other, reportOn location g loaded = .ok report ∧
      reportOn location g' loaded = .ok other ∧ report.SameButGlobal g g' other := by
  by_cases hnil : (validate loaded.candidates).records = []
  · exact .inl ⟨.noRecordsFound location, reportOn_eq_error_iff.mpr ⟨hnil, rfl⟩,
      reportOn_eq_error_iff.mpr ⟨hnil, rfl⟩⟩
  · exact .inr ⟨_, _, reportOn_eq_ok_iff.mpr ⟨hnil, rfl⟩, reportOn_eq_ok_iff.mpr ⟨hnil, rfl⟩,
      assemble_sameButGlobal ..⟩

namespace Source

/-- The source that states something else about the campaign as a whole. -/
def restated {m : Type → Type} [Monad m] (s : Source m) (change : GlobalState → GlobalState) :
    Source m where
  location := s.location
  globalState := do
    match ← s.globalState with
    | .error failure => return .error failure
    | .ok g => return .ok (change g)
  candidates := s.candidates

variable {σ : Type}

theorem run_globalState_restated (s : Source (StateM σ)) (change : GlobalState → GlobalState)
    (st : σ) :
    (s.restated change).globalState.run st
      = match s.globalState.run st with
        | (.error failure, mid) => (.error failure, mid)
        | (.ok g, mid) => (.ok (change g), mid) := by
  simp only [restated, StateT.run, bind, StateT.bind, pure]
  rcases s.globalState st with ⟨failure | g, mid⟩
  · rfl
  · rfl

/-- Stating anything else about the campaign as a whole leads to the same failure, or to a report that
differs in what it repeats of the global state and in the warnings of comparisons with it only. Where
the last id and the total coverage stay, no warning differs. -/
theorem report_restated (s : Source (StateM σ)) (st : σ) (change : GlobalState → GlobalState) :
    (∃ failure, (s.report.run st).1 = .error failure ∧
      ((s.restated change).report.run st).1 = .error failure) ∨
    ∃ g loaded report other, s.Reads st g loaded ∧ (s.report.run st).1 = .ok report ∧
      ((s.restated change).report.run st).1 = .ok other ∧
      report.SameButGlobal g (change g) other := by
  have hcandidates : (s.restated change).candidates = s.candidates := rfl
  have hlocation : (s.restated change).location = s.location := rfl
  simp only [run_report, hcandidates, hlocation, run_globalState_restated]
  rcases hg : s.globalState.run st with ⟨failure | g, mid⟩
  · exact .inl ⟨failure, rfl, rfl⟩
  · rcases hc : s.candidates.run mid with ⟨failure | loaded, last⟩
    · exact .inl ⟨failure, by simp only [hc], by simp only [hc]⟩
    · have hreads : s.Reads st g loaded := ⟨mid, hg, congrArg Prod.fst hc⟩
      simp only [hc]
      rcases reportOn_sameButGlobal g (change g) s.location loaded with
        hfail | ⟨report, other, hreport, hother, hsame⟩
      · exact .inl hfail
      · exact .inr ⟨g, loaded, report, other, hreads, hreport, hother, hsame⟩

end Source

end FuzzCampaign
