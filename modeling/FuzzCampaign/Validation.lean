import FuzzCampaign.Finding
import FuzzCampaign.Sorted

/-!
From candidates in any order to records in ascending order of their ids, one for each id. Incomplete
candidates are left out; doubtful values are noted and kept. Complete candidates are sorted by id
and file name, and among neighbours with one id the last one wins.
-/

namespace FuzzCampaign

open Seed

namespace Seed.Record

/-- The shares that a record states, in the order in which they are examined. -/
def shares (r : Record) : List (Share × Nat) :=
  (.newCoverage, r.newCoverage) :: (.increment, r.increment)
    :: (r.oldCoverage.map (Share.oldCoverage, ·)).toList

/-- The shares above full coverage. -/
def rangeFindings (r : Record) : List Finding :=
  (r.shares.filter fun s => fullCoverage < s.2).map fun s => .aboveFull r.source r.id s.1 s.2

/-- Whether the increment differs from what coverage grew by. A fall in coverage is growth by zero. -/
def incrementFindings (r : Record) : List Finding :=
  match r.oldCoverage with
  | some old =>
    if r.newCoverage - old ≠ r.increment then
      [.incrementMismatch r.source r.id r.increment (r.newCoverage - old)]
    else []
  | none => []

end Seed.Record

/-- What is found in one candidate by itself. -/
def Seed.Candidate.findings (c : Candidate) : List Finding :=
  match c.record? with
  | some r => r.rangeFindings ++ r.incrementFindings
  | none => [.incomplete c.source c.missing]

namespace Validation

/-- The records of the complete candidates, by id and file name. -/
def ordered (candidates : List Candidate) : List Record :=
  sortBy Record.precedes (candidates.filterMap Candidate.record?)

/-- Of neighbours with one id only the last stays. -/
def survivors : List Record → List Record
  | [] => []
  | [r] => [r]
  | r :: s :: rest => if r.id = s.id then survivors (s :: rest) else r :: survivors (s :: rest)

/-- A finding for each record whose neighbour has the same id. -/
def supersessions : List Record → List Finding
  | r :: s :: rest =>
    if r.id = s.id then .superseded r.source r.id s.source :: supersessions (s :: rest)
    else supersessions (s :: rest)
  | _ => []

end Validation

/-- Records in strictly ascending order of their ids, and what was found on the way. -/
structure Validated where
  records : List Record
  findings : List Finding
deriving DecidableEq, Repr

/-- Validates candidates. The findings on single candidates come first, in the order given. -/
def validate (candidates : List Candidate) : Validated where
  records := Validation.survivors (Validation.ordered candidates)
  findings := candidates.flatMap Candidate.findings
    ++ Validation.supersessions (Validation.ordered candidates)

end FuzzCampaign
