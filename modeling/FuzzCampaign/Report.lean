import FuzzCampaign.Series

/-!
The report of a campaign: its series, totals over its records, and every warning in the order in
which the stages raised them.
-/

namespace FuzzCampaign

open Seed

/-- Totals over the records, beside what the global state says. -/
structure Summary where
  totalSeeds : Nat
  finalCoverage : Percent
  totalBugs : Nat
  maxDepth : Nat
  initialSeeds : Nat
  mutatedSeeds : Nat
  increasingSeeds : Nat
  stateCounts : Tally String
  recordedCoverage : Percent
  lastAllocated : Nat
  current : Option Nat
  queue : Option QueueStats
deriving DecidableEq, Repr

/-- A finished report. -/
structure Report where
  coverage : List (Nat × Percent)
  increase : List (Nat × Percent)
  bugs : List (Nat × Nat)
  depths : Tally Nat
  summary : Summary
  warnings : List Warning
deriving DecidableEq, Repr

namespace Report

/-- The seeds that were there from the start. -/
def initialCount (records : List Record) : Nat := records.countP Record.isInitial

/-- The totals of a list of records with their series. -/
def summarize (records : List Record) (g : GlobalState) (s : Series) : Summary where
  totalSeeds := records.length
  finalCoverage := s.finalCoverage
  totalBugs := s.totalBugs
  maxDepth := (records.map (·.depth)).foldl max 0
  initialSeeds := initialCount records
  mutatedSeeds := records.length - initialCount records
  increasingSeeds := records.countP fun r => 0 < r.increment
  stateCounts := Tally.ofKeys ((records.filterMap (·.state)).map State.text)
  recordedCoverage := Percent.ofBasisPoints g.totalCoverage
  lastAllocated := g.lastAllocated
  current := g.current
  queue := g.queue

/-- Puts a report together. The series' own warnings come after the earlier ones. -/
def assemble (records : List Record) (g : GlobalState) (s : Series) (earlier : List Warning) :
    Report where
  coverage := s.coverage
  increase := s.increase
  bugs := s.bugs
  depths := s.depths
  summary := summarize records g s
  warnings := earlier ++ s.warnings

end Report

end FuzzCampaign
