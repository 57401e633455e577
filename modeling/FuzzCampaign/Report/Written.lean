import FuzzCampaign.Json.Tree
import FuzzCampaign.Report

/-!
A report as JSON. Points are pairs of an id and a value, counts are objects with one member for each
key, and a member that has no value is left out.
-/

namespace FuzzCampaign

open Json

/-- The layouts of a written report. -/
inductive Layout where
  | compact
  | pretty
deriving DecidableEq, Repr

/-- The text of a value in a layout. -/
def Json.text (layout : Layout) (v : Json) : String :=
  match layout with
  | .compact => String.ofList v.compact
  | .pretty => String.ofList (v.pretty 0)

/-- A natural as a number. -/
def Json.natural (n : Nat) : Json := number (natText n)

/-- A percentage as a number. -/
def Percent.json (p : Percent) : Json := number (Signed.reportText p)

/-- The points of a series. -/
def pointsJson {α : Type} (value : α → Json) (points : List (Nat × α)) : Json :=
  array (points.map fun p => array [natural p.1, value p.2])

/-- A warning; one that concerns no file has no source. -/
def Warning.json (w : Warning) : Json :=
  object (("kind", string w.kind.name)
    :: (w.source.map fun s => ("source", string s)).toList ++ [("detail", string w.detail)])

/-- The queue's numbers. -/
def QueueStats.json (q : QueueStats) : Json :=
  object [("pool_size", natural q.poolSize), ("processed_count", natural q.processed)]

/-- Counts under the written form of their keys. -/
def Tally.json {κ : Type} (key : κ → String) (t : Tally κ) : Json :=
  object (t.map fun c => (key c.1, natural c.2))

/-- The totals of a report. -/
def Summary.json (s : Summary) : Json :=
  object
    ([("total_seeds", natural s.totalSeeds),
      ("final_coverage_percent", s.finalCoverage.json),
      ("total_bugs", natural s.totalBugs),
      ("max_depth", natural s.maxDepth),
      ("initial_seed_count", natural s.initialSeeds),
      ("mutated_seed_count", natural s.mutatedSeeds),
      ("coverage_increasing_seeds", natural s.increasingSeeds),
      ("state_counts", Tally.json id s.stateCounts),
      ("recorded_coverage_percent", s.recordedCoverage.json),
      ("last_allocated_id", natural s.lastAllocated)]
    ++ (s.current.map fun n => ("current_fuzzing_id", natural n)).toList
    ++ (s.queue.map fun q => ("queue_stats", q.json)).toList)

/-- A report as a JSON value. -/
def Report.json (r : Report) : Json :=
  object
    [("coverage_series", pointsJson Percent.json r.coverage),
      ("increase_series", pointsJson Percent.json r.increase),
      ("bug_series", pointsJson natural r.bugs),
      ("depth_histogram", Tally.json natText r.depths),
      ("summary", r.summary.json),
      ("warnings", array (r.warnings.map Warning.json))]

/-- The text of a report. -/
def Report.text (layout : Layout) (r : Report) : String := r.json.text layout

end FuzzCampaign
