import FuzzCampaign.Proofs.Runs
import FuzzCampaign.Proofs.Stages
import Mathlib.Algebra.Ring.Nat
import Mathlib.Data.List.Chain

/-!
What the checks on coverage are worth together. One compares a record's increment with the growth of
its own coverage, where a fall counts as no growth; one compares the coverage of neighbours; and one
compares the last coverage with the total one. In a list of records each of which starts where the
one before has ended, the first two checks are silent exactly if the increments up to each record
add up to its coverage. Main statement: where a report on such records has no warning of the three
kinds, the increments add up to the total coverage.
-/

namespace FuzzCampaign

open Seed

/-- Whether the first record starts from a coverage, and each other one from that of the record
before it. -/
structure Unbroken (reached : Nat) (rs : List Record) : Prop where
  start : ∀ r ∈ rs.head?, r.oldCoverage = some reached
  links : rs.IsChain fun p r => r.oldCoverage = some p.newCoverage

/-- What all increments come to. -/
def incrementSum (rs : List Record) : Nat := (rs.map (·.increment)).sum

/-- Whether the increments up to each record, on top of a coverage, come to its own coverage. -/
def AddsUp (reached : Nat) (rs : List Record) : Prop :=
  ∀ front last, front ++ [last] <+: rs →
    reached + incrementSum (front ++ [last]) = last.newCoverage

section

variable {reached : Nat} {r : Record} {rs : List Record}

theorem Unbroken.head (h : Unbroken reached (r :: rs)) : r.oldCoverage = some reached :=
  h.start r rfl

theorem Unbroken.tail (h : Unbroken reached (r :: rs)) : Unbroken r.newCoverage rs where
  start s hs := by
    obtain ⟨rest, rfl⟩ := List.head?_eq_some_iff.mp hs
    exact (List.isChain_cons_cons.mp h.links).1
  links := h.links.tail

theorem addsUp_cons_iff :
    AddsUp reached (r :: rs) ↔ reached + r.increment = r.newCoverage ∧ AddsUp r.newCoverage rs := by
  have hsum : ∀ front last, reached + incrementSum (r :: front ++ [last])
      = reached + r.increment + incrementSum (front ++ [last]) := by
    intro front last
    simp [incrementSum, Nat.add_assoc]
  constructor
  · intro h
    have hr : reached + r.increment = r.newCoverage := by
      simpa [incrementSum] using h [] r (List.prefix_append [r] rs)
    refine ⟨hr, fun front last hprefix => ?_⟩
    have hlast := h (r :: front) last (List.cons_prefix_cons.mpr ⟨rfl, hprefix⟩)
    rwa [hsum, hr] at hlast
  · rintro ⟨hr, h⟩ front last hprefix
    cases front with
    | nil =>
      obtain rfl : last = r := (List.cons_prefix_cons.mp hprefix).1
      simpa [incrementSum] using hr
    | cons s front =>
      obtain ⟨rfl, hrest⟩ := List.cons_prefix_cons.mp hprefix
      rw [hsum, hr]
      exact h front last hrest

end

/-! ### Silent checks -/

/-- The coverage that was reached before a record. -/
def coverageBefore (previous : Option Record) : Nat := previous.elim 0 (·.newCoverage)

section

variable {g : GlobalState} {previous : Option Record} {r : Record} {rs : List Record}

theorem incrementFindings_eq_nil_iff {old : Nat} (h : r.oldCoverage = some old) :
    r.incrementFindings = [] ↔ r.newCoverage - old = r.increment := by
  simp [Record.incrementFindings, h]

theorem mem_incrementFindings {f : Finding} (h : f ∈ r.incrementFindings) :
    ∃ old ∈ r.oldCoverage,
      f = .incrementMismatch r.source r.id r.increment (r.newCoverage - old) := by
  unfold Record.incrementFindings at h
  split at h
  · next old hold =>
    split at h
    · exact ⟨old, hold, List.mem_singleton.mp h⟩
    · cases h
  · cases h

theorem regressionFindings_eq_nil_iff :
    Series.regressionFindings previous r = [] ↔ coverageBefore previous ≤ r.newCoverage := by
  cases previous <;> simp [Series.regressionFindings, coverageBefore]

/-- A fall in coverage hides behind the first check and a wrong increment behind the second one;
both are silent exactly if the increment leads from the coverage before to the one after. -/
theorem silent_iff (h : r.oldCoverage = some (coverageBefore previous)) :
    r.incrementFindings = [] ∧ Series.regressionFindings previous r = [] ↔
      coverageBefore previous + r.increment = r.newCoverage := by
  rw [incrementFindings_eq_nil_iff h, regressionFindings_eq_nil_iff]
  omega

theorem forall_kind_ne_regression_cons_iff :
    (∀ f ∈ Series.recordFindings g previous (r :: rs), f.kind ≠ .coverageRegression) ↔
      Series.regressionFindings previous r = [] ∧
        ∀ f ∈ Series.recordFindings g (some r) rs, f.kind ≠ .coverageRegression := by
  have hregression : (∀ f ∈ Series.regressionFindings previous r, f.kind ≠ .coverageRegression) ↔
      Series.regressionFindings previous r = [] := by
    rw [List.eq_nil_iff_forall_not_mem]
    refine forall_congr' fun f => ⟨fun hne hf => hne hf ?_, fun hnot hf => absurd hf hnot⟩
    obtain ⟨p, -, -, rfl⟩ := Series.mem_regressionFindings hf
    rfl
  have hallocation : ∀ f ∈ Series.allocationFindings g r, f.kind ≠ .coverageRegression := by
    intro f hf
    obtain ⟨-, rfl⟩ := Series.mem_allocationFindings hf
    exact Warning.Kind.noConfusion
  rw [Series.recordFindings, List.forall_mem_append, List.forall_mem_append, hregression,
    and_iff_left hallocation]

/-- Where each record starts from the coverage before it, the increments add up exactly if nothing
is found about an increment and coverage never falls. -/
theorem addsUp_iff (g : GlobalState) (h : Unbroken (coverageBefore previous) rs) :
    AddsUp (coverageBefore previous) rs ↔
      (∀ r ∈ rs, r.incrementFindings = []) ∧
        ∀ f ∈ Series.recordFindings g previous rs, f.kind ≠ .coverageRegression := by
  induction rs generalizing previous with
  | nil => simp [AddsUp, Series.recordFindings]
  | cons r rest ih =>
    have htail : Unbroken (coverageBefore (some r)) rest := h.tail
    have hcons : AddsUp (coverageBefore previous) (r :: rest) ↔
        coverageBefore previous + r.increment = r.newCoverage ∧
          AddsUp (coverageBefore (some r)) rest := addsUp_cons_iff
    rw [hcons, ← silent_iff h.head, ih htail, forall_kind_ne_regression_cons_iff,
      List.forall_mem_cons]
    exact and_and_and_comm

end

/-! ### Reports on unbroken records -/

/-- What is found about a surviving record's increment is among the findings of validation. -/
theorem mem_findings_of_mem_incrementFindings {cs : List Candidate} {r : Record} {f : Finding}
    (hr : r ∈ (validate cs).records) (hf : f ∈ r.incrementFindings) :
    f ∈ (validate cs).findings := by
  obtain ⟨c, hc, hcr⟩ := mem_records_iff.mp hr
  have hfound : f ∈ c.findings := by
    rw [Candidate.findings, hcr]
    exact List.mem_append_right _ hf
  exact List.mem_append_left _ (List.mem_flatMap.mpr ⟨c, hc.mem, hfound⟩)

/-- The last coverage is the total one if nothing is found about it. -/
theorem newCoverage_eq_of_finalFindings {g : GlobalState} {rs : List Record} {last : Record}
    (hlast : rs.getLast? = some last)
    (h : ∀ f ∈ Series.finalFindings g rs, f.kind ≠ .consistencyMismatch) :
    last.newCoverage = g.totalCoverage := by
  refine Decidable.byContradiction fun hne => ?_
  refine h (.finalMismatch last.id last.newCoverage g.totalCoverage) ?_ rfl
  simp [Series.finalFindings, hlast, hne]

namespace Source

variable {σ : Type} {s : Source (StateM σ)} {st : σ} {g : GlobalState} {loaded : Loaded}
  {report : Report}

/-- In a report on records that start from nothing and each from where the one before has ended,
with no warning that a record's increment is wrong and none that coverage fell, the increments up to
each record add up to its coverage. If there is no warning on the last coverage either, they all add
up to the total coverage. -/
theorem report_addsUp (h : (s.report.run st).1 = .ok report) (hreads : s.Reads st g loaded)
    (hunbroken : Unbroken 0 (validate loaded.candidates).records)
    (hincrement : ∀ r ∈ (validate loaded.candidates).records, ∀ old ∈ r.oldCoverage,
      (Finding.incrementMismatch r.source r.id r.increment (r.newCoverage - old)).warning
        ∉ report.warnings)
    (hregression : ∀ w ∈ report.warnings, w.kind ≠ .coverageRegression) :
    (∀ front last, front ++ [last] <+: (validate loaded.candidates).records →
      incrementSum (front ++ [last]) = last.newCoverage) ∧
    ((∀ w ∈ report.warnings, w.kind ≠ .consistencyMismatch) →
      incrementSum (validate loaded.candidates).records = g.totalCoverage) := by
  rw [hreads.report_eq] at h
  have hincrements : ∀ r ∈ (validate loaded.candidates).records, r.incrementFindings = [] := by
    intro r hr
    refine List.eq_nil_iff_forall_not_mem.mpr fun f hf => ?_
    have hreported := warning_mem_of_reportOn h (.inl (mem_findings_of_mem_incrementFindings hr hf))
    obtain ⟨old, hold, rfl⟩ := mem_incrementFindings hf
    exact hincrement r hr old hold hreported
  have hregressions : ∀ f ∈ Series.recordFindings g none (validate loaded.candidates).records,
      f.kind ≠ .coverageRegression := fun f hf =>
    hregression f.warning (warning_mem_of_reportOn h (.inr (List.mem_append_left _ hf)))
  have hsums : ∀ front last, front ++ [last] <+: (validate loaded.candidates).records →
      incrementSum (front ++ [last]) = last.newCoverage := by
    intro front last hprefix
    have hnone : Unbroken (coverageBefore none) (validate loaded.candidates).records := hunbroken
    have hadds := (addsUp_iff g hnone).mpr ⟨hincrements, hregressions⟩ front last hprefix
    rwa [coverageBefore, Option.elim_none, Nat.zero_add] at hadds
  refine ⟨hsums, fun hfinal => ?_⟩
  obtain ⟨hne, -⟩ := reportOn_eq_ok_iff.mp h
  have hlast := List.getLast?_eq_some_getLast hne
  obtain ⟨front, hsplit⟩ := List.getLast?_eq_some_iff.mp hlast
  rw [hsplit, hsums front _ (hsplit ▸ List.prefix_refl _)]
  exact newCoverage_eq_of_finalFindings hlast fun f hf =>
    hfinal f.warning (warning_mem_of_reportOn h (.inr (List.mem_append_right _ hf)))

/-- Seeds with three ids. The one that gives way to another states an increment of its own. -/
def steadySeeds : List Candidate :=
  [⟨"d.json", ⟨some 4, some 2, some 1, none, some 1500, some 2500, some 1000, some "BUG"⟩⟩,
    ⟨"b.json", ⟨some 2, some 1, some 1, none, some 1500, some 1500, some 0, none⟩⟩,
    ⟨"a.json", ⟨some 2, some 1, some 1, none, some 100, some 900, some 5, none⟩⟩,
    ⟨"c.json", ⟨some 1, none, some 0, none, some 0, some 1500, some 1500, none⟩⟩]

def steady : Source Id where
  location := "campaign"
  globalState := .ok ⟨3, 2500, none, none⟩
  candidates := .ok ⟨steadySeeds, [⟨.recordParseError, some "e.json", "unreadable"⟩]⟩

theorem traced_steady_addsUp :
    Unbroken 0 (validate steadySeeds).records ∧
    ∃ report, (steady.traced.report.run []).1 = .ok report ∧
      (∀ r ∈ (validate steadySeeds).records, ∀ old ∈ r.oldCoverage,
        (Finding.incrementMismatch r.source r.id r.increment (r.newCoverage - old)).warning
          ∉ report.warnings) ∧
      report.warnings.map Warning.kind
        = [.recordParseError, .incrementMismatch, .duplicateId, .idBeyondAllocation] ∧
      (∀ front last, front ++ [last] <+: (validate steadySeeds).records →
        incrementSum (front ++ [last]) = last.newCoverage) ∧
      incrementSum (validate steadySeeds).records = 2500 := by
  have hunbroken : Unbroken 0 (validate steadySeeds).records := ⟨by decide, by decide⟩
  obtain ⟨report, hreport⟩ : ∃ report, (steady.traced.report.run []).1 = .ok report := ⟨_, rfl⟩
  have hreads : steady.traced.Reads [] ⟨3, 2500, none, none⟩
      ⟨steadySeeds, [⟨.recordParseError, some "e.json", "unreadable"⟩]⟩ :=
    ⟨[.globalState], rfl, rfl⟩
  have hsilent : (∀ r ∈ (validate steadySeeds).records, ∀ old ∈ r.oldCoverage,
      (Finding.incrementMismatch r.source r.id r.increment (r.newCoverage - old)).warning
        ∉ report.warnings) ∧
      report.warnings.map Warning.kind
        = [.recordParseError, .incrementMismatch, .duplicateId, .idBeyondAllocation] := by
    obtain rfl := Except.ok.inj hreport
    decide
  have hkinds : ∀ w ∈ report.warnings,
      w.kind ≠ .coverageRegression ∧ w.kind ≠ .consistencyMismatch := by
    intro w hw
    have hkind := List.mem_map_of_mem (f := Warning.kind) hw
    rw [hsilent.2] at hkind
    revert hkind
    cases w.kind <;> decide
  obtain ⟨hsums, htotal⟩ := report_addsUp hreport hreads hunbroken hsilent.1
    fun w hw => (hkinds w hw).1
  exact ⟨hunbroken, report, hreport, hsilent.1, hsilent.2, hsums,
    htotal fun w hw => (hkinds w hw).2⟩

end Source

end FuzzCampaign
