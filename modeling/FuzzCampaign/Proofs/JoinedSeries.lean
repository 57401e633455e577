import FuzzCampaign.Proofs.Growth
import FuzzCampaign.Proofs.Totals

/-!
Series that are put together from those of two parts. A list of records can be cut anywhere and its
parts can be gone through apart, since all that the second part needs of the first one is the number
of bugs and the last record. Only the last coverage of the whole list is compared with the total one,
so what the first part says on its own last coverage is taken back. Main statement: the series of a
whole list are those of its parts, with bugs that are counted on, depths that are added up, and one
more warning if coverage falls from the one part to the other.
-/

namespace FuzzCampaign

open Seed

namespace Series

/-! ### What is carried over -/

/-- Bugs that were known before are added to each number of bugs. -/
theorem bugCounts_add (known before : Nat) (rs : List Record) :
    bugCounts (known + before) rs = (bugCounts before rs).map fun p => (p.1, known + p.2) := by
  induction rs generalizing before with
  | nil => rfl
  | cons r rest ih =>
    cases hbug : r.verdict.isBug
    · simp [bugCounts, hbug, ih]
    · simp [bugCounts, hbug, ← ih, Nat.add_assoc]

/-- A record before is seen by the first record alone. -/
theorem recordFindings_cons (g : GlobalState) (previous : Option Record) (r : Record)
    (rest : List Record) :
    recordFindings g previous (r :: rest)
      = regressionFindings previous r ++ recordFindings g none (r :: rest) := by
  simp [recordFindings, regressionFindings]

theorem finalFindings_append (g : GlobalState) (rs : List Record) {ss : List Record} (hne : ss ≠ []) :
    finalFindings g (rs ++ ss) = finalFindings g ss := by
  have hlast : (rs ++ ss).getLast? = ss.getLast? := by
    rw [List.getLast?_append, List.getLast?_eq_some_getLast hne]
    rfl
  rw [finalFindings, finalFindings, hlast]

/-- Without the one on the last coverage, the warnings on series are those on single records. -/
theorem filter_kind_derive (rs : List Record) (g : GlobalState) :
    (derive rs g).warnings.filter (·.kind ≠ .consistencyMismatch)
      = (recordFindings g none rs).map Finding.warning := by
  rw [← filter_isOfRecord_derive]
  refine List.filter_congr fun w hw => ?_
  have hkind := isOfSeries_of_mem hw
  revert hkind
  cases w.kind <;> decide

/-! ### Two parts -/

/-- The warning that coverage falls from the end of one list of records to the start of another one,
if it does. -/
def boundaryWarnings (rs ss : List Record) : List Warning :=
  match rs.getLast?, ss.head? with
  | some p, some r =>
    if r.newCoverage < p.newCoverage then
      [⟨.coverageRegression, some r.source,
        "coverage fell from " ++ natText p.newCoverage ++ " bp at id " ++ natText p.id ++ " to "
          ++ natText r.newCoverage ++ " bp at id " ++ natText r.id⟩]
    else []
  | _, _ => []

theorem map_warning_regressionFindings (rs : List Record) (r : Record) (rest : List Record) :
    (regressionFindings rs.getLast? r).map Finding.warning = boundaryWarnings rs (r :: rest) := by
  cases hlast : rs.getLast? with
  | none => simp [regressionFindings, boundaryWarnings, hlast]
  | some p =>
    by_cases hfall : r.newCoverage < p.newCoverage
    · simp [regressionFindings, boundaryWarnings, hlast, hfall, Finding.warning_regression]
    · simp [regressionFindings, boundaryWarnings, hlast, hfall]

/-- The warnings on a whole list, if its second part is not empty. -/
theorem warnings_derive_append (rs : List Record) {ss : List Record} (hne : ss ≠ []) (g : GlobalState) :
    (derive (rs ++ ss) g).warnings
      = (derive rs g).warnings.filter (·.kind ≠ .consistencyMismatch) ++ boundaryWarnings rs ss
        ++ (derive ss g).warnings := by
  have hparts : findings (rs ++ ss) g
      = recordFindings g none rs ++ (recordFindings g rs.getLast? ss ++ finalFindings g ss) := by
    rw [findings, recordFindings_append, Option.or_none, finalFindings_append g rs hne,
      List.append_assoc]
  obtain ⟨r, rest, rfl⟩ := List.exists_cons_of_ne_nil hne
  rw [recordFindings_cons, List.append_assoc] at hparts
  rw [filter_kind_derive, ← map_warning_regressionFindings, derive, hparts]
  simp [derive, findings]

/-- What the series of a list in two parts have to do with those of the parts. -/
structure IsJoined (rs ss : List Record) (g : GlobalState) : Prop where
  coverage : (derive (rs ++ ss) g).coverage = (derive rs g).coverage ++ (derive ss g).coverage
  increase : (derive (rs ++ ss) g).increase = (derive rs g).increase ++ (derive ss g).increase
  bugs : (derive (rs ++ ss) g).bugs = (derive rs g).bugs
    ++ (derive ss g).bugs.map fun p => (p.1, (derive rs g).totalBugs + p.2)
  depths : ∀ d, (derive (rs ++ ss) g).depths.count d
    = (derive rs g).depths.count d + (derive ss g).depths.count d
  mem_depths : ∀ d, d ∈ (derive (rs ++ ss) g).depths.map (·.1) ↔
    d ∈ (derive rs g).depths.map (·.1) ∨ d ∈ (derive ss g).depths.map (·.1)
  depthsAscending : ((derive (rs ++ ss) g).depths.map (·.1)).Pairwise (· < ·)
  warnings : ss ≠ [] → (derive (rs ++ ss) g).warnings
    = (derive rs g).warnings.filter (·.kind ≠ .consistencyMismatch) ++ boundaryWarnings rs ss
      ++ (derive ss g).warnings
  nothing : ss = [] → derive (rs ++ ss) g = derive rs g

/-- Series may be derived in parts, wherever a list is cut and whatever the order of its records. -/
theorem derive_joined (rs ss : List Record) (g : GlobalState) : IsJoined rs ss g where
  coverage := by simp [derive]
  increase := by simp [derive]
  bugs := by
    rw [totalBugs_derive]
    simp only [derive, bugCounts_append]
    rw [Nat.zero_add, ← bugCounts_add, Nat.add_zero]
  depths d := by simp [derive, Tally.count_ofKeys_append]
  mem_depths d := by simp [derive, (Tally.counts_ofKeys _).mem_keys]
  depthsAscending := (Tally.counts_ofKeys _).ascending
  warnings hne := warnings_derive_append rs hne g
  nothing hnil := by rw [hnil, List.append_nil]

end Series

end FuzzCampaign
