import FuzzCampaign.Finding
import FuzzCampaign.GlobalState
import FuzzCampaign.Tally

/-!
The chartable series of an ordered list of records, and what the records say against each other and
against the global state. A record's coverage is taken as it stands: a fall is noted, never repaired.
-/

namespace FuzzCampaign

open Seed

/-- Series with one point for each record, the number of seeds at each depth, and warnings. -/
structure Series where
  coverage : List (Nat × Percent)
  increase : List (Nat × Percent)
  bugs : List (Nat × Nat)
  depths : Tally Nat
  warnings : List Warning
deriving DecidableEq, Repr

namespace Series

/-- The number of bugs after each record, when `before` were known already. -/
def bugCounts : (before : Nat) → List Record → List (Nat × Nat)
  | _, [] => []
  | before, r :: rest =>
    let after := if r.verdict.isBug then before + 1 else before
    (r.id, after) :: bugCounts after rest

/-- Whether coverage fell since the record before. -/
def regressionFindings (previous : Option Record) (r : Record) : List Finding :=
  match previous with
  | some p =>
    if r.newCoverage < p.newCoverage then
      [.regression r.source p.id p.newCoverage r.id r.newCoverage]
    else []
  | none => []

/-- Whether an id is higher than any that the engine gave out. -/
def allocationFindings (g : GlobalState) (r : Record) : List Finding :=
  if g.lastAllocated < r.id then [.beyondAllocation r.source r.id g.lastAllocated] else []

/-- The findings on each record, of which the first one has a predecessor or none. -/
def recordFindings (g : GlobalState) : (previous : Option Record) → List Record → List Finding
  | _, [] => []
  | previous, r :: rest =>
    regressionFindings previous r ++ allocationFindings g r ++ recordFindings g (some r) rest

/-- Whether the last record's coverage differs from the total. -/
def finalFindings (g : GlobalState) (records : List Record) : List Finding :=
  match records.getLast? with
  | some last =>
    if last.newCoverage ≠ g.totalCoverage then
      [.finalMismatch last.id last.newCoverage g.totalCoverage]
    else []
  | none => []

/-- All findings on a list of records. -/
def findings (records : List Record) (g : GlobalState) : List Finding :=
  recordFindings g none records ++ finalFindings g records

/-- The series of records in the order given. -/
def derive (records : List Record) (g : GlobalState) : Series where
  coverage := records.map fun r => (r.id, Percent.ofBasisPoints r.newCoverage)
  increase := records.map fun r => (r.id, Percent.ofBasisPoints r.increment)
  bugs := bugCounts 0 records
  depths := Tally.ofKeys (records.map (·.depth))
  warnings := (findings records g).map Finding.warning

/-- The number of bugs after the last record. -/
def totalBugs (s : Series) : Nat := (s.bugs.getLast?.map (·.2)).getD 0

/-- The coverage after the last record. -/
def finalCoverage (s : Series) : Percent :=
  (s.coverage.getLast?.map (·.2)).getD (Percent.ofBasisPoints 0)

end Series

end FuzzCampaign
