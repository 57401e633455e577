import FuzzCampaign.Failure
import FuzzCampaign.Report
import FuzzCampaign.Validation

/-!
From a source of campaign data to a report. A source offers two reads as actions of any monad: in
memory they are values, and a caller that wants to see the reads can use actions that leave a trace.
The global state is read first, and the candidates only if that succeeded.
-/

namespace FuzzCampaign

open Seed

/-- The candidates of a source, and warnings for what could not be read. -/
structure Loaded where
  candidates : List Candidate
  warnings : List Warning
deriving DecidableEq, Repr

/-- Where a campaign's data comes from. -/
structure Source (m : Type → Type) where
  location : String
  globalState : m (Except Failure GlobalState)
  candidates : m (Except Failure Loaded)

/-- The report on data that was read, if any record is usable. -/
def reportOn (location : String) (g : GlobalState) (loaded : Loaded) : Except Failure Report :=
  let v := validate loaded.candidates
  match v.records with
  | [] => .error (.noRecordsFound location)
  | _ :: _ =>
    .ok (Report.assemble v.records g (Series.derive v.records g)
      (loaded.warnings ++ v.findings.map Finding.warning))

namespace Source

variable {m : Type → Type} [Monad m]

/-- Reads the global state and then the candidates. -/
def load (s : Source m) : m (Except Failure (GlobalState × Loaded)) := do
  match ← s.globalState with
  | .error failure => return .error failure
  | .ok g =>
    match ← s.candidates with
    | .error failure => return .error failure
    | .ok loaded => return .ok (g, loaded)

/-- Reads a source and reports on it. -/
def report (s : Source m) : m (Except Failure Report) := do
  match ← s.load with
  | .error failure => return .error failure
  | .ok (g, loaded) => return reportOn s.location g loaded

/-- The reads that a source offers. -/
inductive Read where
  | globalState
  | candidates
deriving DecidableEq, Repr

/-- A source in memory whose reads leave a trace. -/
def traced (s : Source Id) : Source (StateM (List Read)) where
  location := s.location
  globalState := do
    modify (· ++ [.globalState])
    return s.globalState
  candidates := do
    modify (· ++ [.candidates])
    return s.candidates

end Source

end FuzzCampaign
