import FuzzCampaign.Proofs.Runs
import FuzzCampaign.Proofs.Winners

/-!
What a run asks of its source, and in which order. A source is watched by noting each read as it is
made, where the source does not see it; so a watched run ends as the unwatched one does. Main
statement: whatever a source answers, its global state is read once and first, and its candidates
once if that succeeded and else never; a failure of either read is passed on; and what is read leads
to a report with the warnings of the three stages one after another, unless no candidate is
complete.
-/

namespace FuzzCampaign

open Seed

namespace Source

variable {σ : Type} {s : Source (StateM σ)} {st : σ}

/-! ### Watched sources -/

/-- Notes a read and does what is done for it. -/
def noting {α : Type} (read : Read) (action : StateM σ α) : StateM (σ × List Read) α := do
  modify fun (st, past) => (st, past ++ [read])
  modifyGet fun (st, past) => ((action.run st).1, (action.run st).2, past)

/-- A source whose reads leave a trace beside its own state. -/
def watched (s : Source (StateM σ)) : Source (StateM (σ × List Read)) where
  location := s.location
  globalState := noting .globalState s.globalState
  candidates := noting .candidates s.candidates

theorem run_noting {α : Type} (read : Read) (action : StateM σ α) (st : σ) (past : List Read) :
    (noting read action).run (st, past)
      = ((action.run st).1, (action.run st).2, past ++ [read]) := rfl

/-- What a run on a source asks for. -/
def asked (s : Source (StateM σ)) (st : σ) : List Read :=
  match s.globalState.run st with
  | (.error _, _) => [.globalState]
  | (.ok _, _) => [.globalState, .candidates]

/-- A watched run ends as the unwatched one and notes what was asked for. -/
theorem run_report_watched (s : Source (StateM σ)) (st : σ) :
    s.watched.report.run (st, []) = ((s.report.run st).1, (s.report.run st).2, s.asked st) := by
  have hstate : s.watched.globalState = noting .globalState s.globalState := rfl
  have hcandidates : s.watched.candidates = noting .candidates s.candidates := rfl
  simp only [run_report, hstate, hcandidates, run_noting, asked]
  rcases s.globalState.run st with ⟨failure | g, mid⟩
  · rfl
  · simp only [run_noting]
    rcases s.candidates.run mid with ⟨failure | loaded, last⟩
    · rfl
    · rfl

/-! ### The order of reading -/

/-- What a run on a source may ask for, and what comes of the answers. -/
structure Protocol (s : Source (StateM σ)) (st : σ) (outcome : Except Failure Report)
    (reads : List Read) : Prop where
  globalState_first : reads.head? = some .globalState
  globalState_once : reads.count .globalState = 1
  candidates_once : reads.count .candidates ≤ 1
  candidates_iff : .candidates ∈ reads ↔ ∃ g, (s.globalState.run st).1 = .ok g
  globalState_fails : ∀ failure, (s.globalState.run st).1 = .error failure →
    outcome = .error failure
  candidates_fail : ∀ g mid failure, s.globalState.run st = (.ok g, mid) →
    (s.candidates.run mid).1 = .error failure → outcome = .error failure
  noRecords_iff : ∀ g loaded, s.Reads st g loaded →
    (outcome = .error (.noRecordsFound s.location) ↔ ∀ c ∈ loaded.candidates, ¬c.isComplete)
  report : ∀ g loaded, s.Reads st g loaded → (∃ c ∈ loaded.candidates, c.isComplete) →
    ∃ report, outcome = .ok report ∧
      report.warnings = loaded.warnings ++ (validate loaded.candidates).findings.map Finding.warning
        ++ (Series.derive (validate loaded.candidates).records g).warnings

/-- The candidates are asked for exactly if the global state was given. -/
theorem candidates_mem_asked_iff :
    .candidates ∈ s.asked st ↔ ∃ g, (s.globalState.run st).1 = .ok g := by
  unfold asked
  rcases s.globalState.run st with ⟨failure | g, mid⟩ <;> simp

/-- A failure of a read is the failure of the run. -/
theorem report_eq_error_of_globalState {failure : Failure}
    (h : (s.globalState.run st).1 = .error failure) : (s.report.run st).1 = .error failure := by
  rw [run_report]
  rcases hrun : s.globalState.run st with ⟨outcome, mid⟩
  obtain rfl : outcome = .error failure := by rw [← h, hrun]
  rfl

theorem report_eq_error_of_candidates {g : GlobalState} {mid : σ} {failure : Failure}
    (hg : s.globalState.run st = (.ok g, mid)) (h : (s.candidates.run mid).1 = .error failure) :
    (s.report.run st).1 = .error failure := by
  rw [run_report, hg]
  rcases hrun : s.candidates.run mid with ⟨outcome, last⟩
  obtain rfl : outcome = .error failure := by rw [← h, hrun]
  simp only [hrun]

/-- A run on a source keeps to the protocol. -/
theorem protocol_asked (s : Source (StateM σ)) (st : σ) :
    s.Protocol st (s.report.run st).1 (s.asked st) where
  globalState_first := by unfold asked; split <;> rfl
  globalState_once := by unfold asked; split <;> rfl
  candidates_once := by unfold asked; split <;> decide
  candidates_iff := candidates_mem_asked_iff
  globalState_fails failure := report_eq_error_of_globalState
  candidates_fail g mid failure := report_eq_error_of_candidates
  noRecords_iff g loaded h := by
    rw [h.report_eq, reportOn_eq_error_iff, records_eq_nil_iff]
    exact and_iff_left rfl
  report g loaded h hcomplete := by
    rw [h.report_eq]
    exact ⟨_, reportOn_eq_ok_iff.mpr ⟨records_ne_nil_iff.mpr hcomplete, rfl⟩, rfl⟩

/-- Watching a run changes nothing about how it ends, and shows that it asks for the global state
and then at most for the candidates, and comes to what the answers are worth. This holds of every
source, whatever it answers and however it changes on being read. -/
theorem report_protocol (s : Source (StateM σ)) (st : σ) :
    ∃ reads, s.watched.report.run (st, []) = ((s.report.run st).1, (s.report.run st).2, reads) ∧
      s.Protocol st (s.report.run st).1 reads :=
  ⟨s.asked st, run_report_watched s st, protocol_asked s st⟩

/-- Without a global state the candidates are not asked for. -/
example (failure : Failure) :
    let s : Source (StateM Unit) := ⟨"campaign", return .error failure, return .ok ⟨[], []⟩⟩
    s.watched.report.run ((), []) = (.error failure, (), [.globalState]) := rfl

end Source

end FuzzCampaign
