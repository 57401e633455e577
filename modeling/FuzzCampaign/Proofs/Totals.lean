import FuzzCampaign.Proofs.Tallies
import FuzzCampaign.Proofs.WinningSeries
import Mathlib.Order.Bounds.Defs

/-!
How the totals of a report agree with its series. The series come from one pass over the records, and
each total from a pass of its own, so every total is read back here from the published series and the
number of seeds at each depth. Main statement: in any report on any source the totals are those of the
series, and what no series shows is counted over the surviving records.
-/

namespace FuzzCampaign

open Seed

/-! ### Series and totals of a list of records -/

theorem map_fst_bugCounts (before : Nat) (rs : List Record) :
    (Series.bugCounts before rs).map (·.1) = rs.map (·.id) := by
  induction rs generalizing before with
  | nil => rfl
  | cons r rest ih => rw [Series.bugCounts, List.map_cons, ih, List.map_cons]

/-- The value at the last point of a series that has one. -/
theorem getLast?_map_eq_some {α β : Type} {l : List α} (hne : l ≠ []) (f : α → β) (b : β) :
    (l.map f).getLast? = some ((l.getLast?.map f).getD b) := by
  rw [List.getLast?_map, List.getLast?_eq_some_getLast hne]
  rfl

/-- The last number of bugs is that of all bugs. -/
theorem totalBugs_derive (rs : List Record) (g : GlobalState) :
    (Series.derive rs g).totalBugs = rs.countP fun r => r.verdict.isBug := by
  have hlast := getLast?_bugCounts 0 rs
  rw [List.getLast?_cons, Nat.zero_add] at hlast
  rw [Series.totalBugs, ← List.getLast?_map]
  exact Option.some.inj hlast

theorem isGreatest_foldl_max {l : List Nat} (hne : l ≠ []) :
    IsGreatest {d | d ∈ l} (l.foldl max 0) := by
  rw [List.foldl_max_eq_max hne, Nat.zero_max]
  exact ⟨List.max_mem hne, fun d hd => List.le_max_of_mem hd⟩

/-- The seeds at a depth above zero are those that are not initial. -/
theorem countP_mutated (rs : List Record) :
    (rs.map (·.depth)).countP (fun d => 0 < d) = rs.length - Report.initialCount rs := by
  have hall := rs.length_eq_countP_add_countP Record.isInitial
  have hmutated : (rs.map (·.depth)).countP (fun d => 0 < d)
      = rs.countP fun r => decide ¬r.isInitial := by
    rw [List.countP_map]
    exact List.countP_congr fun r _ => by simp [Record.isInitial, Nat.pos_iff_ne_zero]
  rw [hmutated, Report.initialCount]
  omega

/-! ### Reports on a source -/

/-- What the totals of a report have to say beside its series, when some records survive. -/
structure Report.TotalsAgree (report : Report) (survivors : List Record) : Prop where
  ids : report.coverage.map (·.1) = survivors.map (·.id)
  coverageLength : report.summary.totalSeeds = report.coverage.length
  increaseLength : report.summary.totalSeeds = report.increase.length
  bugsLength : report.summary.totalSeeds = report.bugs.length
  depthsTotal : report.summary.totalSeeds = report.depths.total
  totalSeeds_pos : 1 ≤ report.summary.totalSeeds
  depthsAscending : (report.depths.map (·.1)).Pairwise (· < ·)
  depths_pos : ∀ d ∈ report.depths, 1 ≤ d.2
  initialSeeds : report.summary.initialSeeds = report.depths.count 0
  mutatedSeeds : report.summary.mutatedSeeds = Tally.total (report.depths.filter fun d => 0 < d.1)
  maxDepth : IsGreatest {d | d ∈ report.depths.map (·.1)} report.summary.maxDepth
  totalBugs : (report.bugs.map (·.2)).getLast? = some report.summary.totalBugs
  totalBugs_le : report.summary.totalBugs ≤ report.summary.totalSeeds
  finalCoverage : (report.coverage.map (·.2)).getLast? = some report.summary.finalCoverage
  increasingSeeds : report.summary.increasingSeeds = survivors.countP fun r => 0 < r.increment
  stateCounts : report.summary.stateCounts.total = survivors.countP fun r => r.state.isSome
  stateCounts_le : report.summary.stateCounts.total ≤ report.summary.totalSeeds

theorem totalsAgree_assemble {rs : List Record} (hne : rs ≠ []) (g : GlobalState)
    (earlier : List Warning) :
    (Report.assemble rs g (Series.derive rs g) earlier).TotalsAgree rs := by
  have hdepths := Tally.counts_ofKeys (rs.map (·.depth))
  have hbugs : (Series.bugCounts 0 rs).length = rs.length := by
    simpa using congrArg List.length (map_fst_bugCounts 0 rs)
  have hstates : Tally.total (Tally.ofKeys ((rs.filterMap (·.state)).map State.text))
      = rs.countP fun r => r.state.isSome := by
    rw [Tally.total_ofKeys, List.length_map, List.length_filterMap_eq_countP]
  constructor
  case ids => simp [Report.assemble, Series.derive]
  case coverageLength => simp [Report.assemble, Report.summarize, Series.derive]
  case increaseLength => simp [Report.assemble, Report.summarize, Series.derive]
  case bugsLength => exact hbugs.symm
  case depthsTotal => simp [Report.assemble, Report.summarize, Series.derive, Tally.total_ofKeys]
  case totalSeeds_pos => exact List.length_pos_iff.mpr hne
  case depthsAscending => exact hdepths.ascending
  case depths_pos => exact hdepths.positive
  case initialSeeds =>
    refine Eq.trans ?_ (hdepths.count_eq 0).symm
    rw [List.count, List.countP_map]
    rfl
  case mutatedSeeds =>
    exact (countP_mutated rs).symm.trans (hdepths.total_filter fun d => 0 < d).symm
  case maxDepth =>
    have hkeys : {d | d ∈ (Tally.ofKeys (rs.map (·.depth))).map (·.1)}
        = {d | d ∈ rs.map (·.depth)} := Set.ext hdepths.mem_keys
    exact hkeys ▸ isGreatest_foldl_max (by simpa using hne)
  case totalBugs =>
    refine getLast?_map_eq_some (fun hnil => hne ?_) _ _
    exact List.length_eq_zero_iff.mp (hbugs ▸ List.length_eq_zero_iff.mpr hnil)
  case totalBugs_le => exact (totalBugs_derive rs g).trans_le List.countP_le_length
  case finalCoverage =>
    exact getLast?_map_eq_some (by simpa [Report.assemble, Series.derive] using hne) _ _
  case increasingSeeds => rfl
  case stateCounts => exact hstates
  case stateCounts_le => exact hstates.trans_le List.countP_le_length

namespace Source

variable {σ : Type} {s : Source (StateM σ)} {st : σ} {report : Report}

/-- In every report on a source the totals agree with the series and with the surviving records. -/
theorem report_totalsAgree (h : (s.report.run st).1 = .ok report) :
    ∃ g loaded, s.Reads st g loaded ∧ report.TotalsAgree (validate loaded.candidates).records := by
  obtain ⟨g, loaded, hreads, hreport⟩ := exists_reads h
  obtain ⟨hne, rfl⟩ := reportOn_eq_ok_iff.mp hreport
  exact ⟨g, loaded, hreads, totalsAgree_assemble hne g _⟩

/-- Seeds of which none is initial. Two share a depth, one of them states no processing state, and
the deepest one is no bug and gave nothing new. -/
def offspring : Source Id where
  location := "campaign"
  globalState := .ok ⟨7, 2500, some 7, none⟩
  candidates := .ok
    { candidates :=
        [⟨"c.json", ⟨some 7, some 4, some 5, some "TIMEOUT", none, some 2500, some 0, none⟩⟩,
          ⟨"a.json", ⟨some 3, some 1, some 2, some "", none, some 1500, some 1500, some "BUG"⟩⟩,
          ⟨"b.json", ⟨some 4, some 1, some 2, some "lost", none, some 2500, some 1000, some "BUG"⟩⟩]
      warnings := [] }

theorem traced_offspring_totalsAgree :
    ∃ report, (offspring.traced.report.run []).1 = .ok report ∧
      report.depths = [(2, 2), (5, 1)] ∧ report.summary.initialSeeds = 0 ∧
      report.summary.mutatedSeeds = 3 ∧ report.summary.stateCounts = [("TIMEOUT", 1), ("lost", 1)] ∧
      ∃ g loaded, offspring.traced.Reads [] g loaded ∧
        report.TotalsAgree (validate loaded.candidates).records :=
  ⟨_, rfl, rfl, rfl, rfl, rfl, report_totalsAgree rfl⟩

end Source

end FuzzCampaign
