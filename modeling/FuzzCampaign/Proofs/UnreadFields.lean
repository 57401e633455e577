import FuzzCampaign.Proofs.Essentials
import Mathlib.Data.List.Forall2

/-!
Fields of a candidate that nothing reads. The parent is kept in the record and never looked at; a
verdict counts as a bug or not, and an empty state is none. The coverage before a seed is compared
with the coverage after it, and that is all it is for. Main statement: where candidates are alike in
what is read, one by one, the run fails alike or the reports differ in the warnings on single
candidates only; and where the coverage before each seed is the same too, they are the same.
-/

namespace FuzzCampaign

open Seed

/-- Whether two candidates are alike in all that is read beside the coverage before the seed. -/
structure Seed.Candidate.Alike (c d : Candidate) : Prop where
  source : c.source = d.source
  id : c.metadata.id = d.metadata.id
  depth : c.metadata.depth = d.metadata.depth
  newCoverage : c.metadata.newCoverage = d.metadata.newCoverage
  increment : c.metadata.increment = d.metadata.increment
  verdict : c.metadata.verdict = some "BUG" ↔ d.metadata.verdict = some "BUG"
  state : c.metadata.state.getD "" = d.metadata.state.getD ""

/-- A verdict is a bug by its name alone. -/
theorem isBug_getD_ofText (verdict : Option String) :
    ((verdict.map Verdict.ofText).getD .unknown).isBug = decide (verdict = some "BUG") := by
  cases verdict with
  | none => rfl
  | some text =>
    rw [Option.map_some, Option.getD_some, Bool.eq_iff_iff, decide_eq_true_iff,
      Option.some_inj, ← Verdict.ofText_eq_bug_iff]
    cases Verdict.ofText text <;> simp [Verdict.isBug]

/-- An absent state is read like the empty one. -/
theorem filter_state_eq (state : Option String) :
    state.filter (· ≠ "") = if state.getD "" = "" then none else some (state.getD "") := by
  cases state with
  | none => rfl
  | some text =>
    rw [Option.filter_some, Option.getD_some]
    by_cases hempty : text = ""
    · rw [if_pos hempty, if_neg (by simpa using hempty)]
    · rw [if_neg hempty, if_pos (by simpa using hempty)]

namespace Seed.Candidate.Alike

variable {c d : Candidate}

/-- Alike candidates make records that are the same in what counts, or none both. -/
theorem map_essence (h : c.Alike d) :
    c.record?.map Record.essence = d.record?.map Record.essence := by
  obtain ⟨source, id, parent, depth, state, old, new, increment, verdict⟩ := c
  obtain ⟨source', id', parent', depth', state', old', new', increment', verdict'⟩ := d
  obtain ⟨hsource, hid, hdepth, hnew, hincrement, hverdict, hstate⟩ := h
  dsimp only at hsource hid hdepth hnew hincrement hverdict hstate
  subst hsource hid hdepth hnew hincrement
  rcases id with _ | id
  · rfl
  rcases new with _ | new
  · rfl
  rcases increment with _ | increment
  · rfl
  rcases depth with _ | depth
  · rfl
  simp only [record?, Option.map_some, Record.essence, isBug_getD_ofText, hverdict,
    filter_state_eq, hstate]

/-- And where the coverage before is the same too, so are the warnings on each by itself. -/
theorem ownWarnings_eq (h : c.Alike d) (hold : c.metadata.oldCoverage = d.metadata.oldCoverage) :
    c.ownWarnings = d.ownWarnings := by
  simp only [ownWarnings, Metadata.absentNames, h.source, h.id, h.depth, h.newCoverage,
    h.increment, hold]

end Seed.Candidate.Alike

section

variable {cs ds : List Candidate}

theorem map_essence_of_alike (h : List.Forall₂ Candidate.Alike cs ds) :
    (cs.filterMap Candidate.record?).map Record.essence
      = (ds.filterMap Candidate.record?).map Record.essence := by
  rw [List.map_filterMap, List.map_filterMap]
  induction h with
  | nil => rfl
  | cons hcd _ ih => simp only [List.filterMap_cons, hcd.map_essence, ih]

theorem ownWarnings_of_alike (h : List.Forall₂ Candidate.Alike cs ds)
    (hold : cs.map (·.metadata.oldCoverage) = ds.map (·.metadata.oldCoverage)) :
    cs.flatMap Candidate.ownWarnings = ds.flatMap Candidate.ownWarnings := by
  induction h with
  | nil => rfl
  | cons hcd _ ih =>
    rw [List.map_cons, List.map_cons, List.cons.injEq] at hold
    rw [List.flatMap_cons, List.flatMap_cons, hcd.ownWarnings_eq hold.1, ih hold.2]

end

/-- Reports that differ in the warnings on single candidates at most are the same where these are. -/
theorem Report.SameButSingle.eq {load single : List Warning} {report other : Report}
    (h : report.SameButSingle load single single other) : report = other := by
  obtain ⟨⟨hcoverage, hincrease, hbugs, hdepths, hsummary⟩, links, series, hwarnings, hwarnings',
    -, -⟩ := h
  obtain ⟨coverage, increase, bugs, depths, summary, warnings⟩ := report
  obtain ⟨coverage', increase', bugs', depths', summary', warnings'⟩ := other
  dsimp only at hcoverage hincrease hbugs hdepths hsummary hwarnings hwarnings'
  rw [hcoverage, hincrease, hbugs, hdepths, hsummary, hwarnings, hwarnings']

namespace Source

variable {σ σ' : Type} {s : Source (StateM σ)} {s' : Source (StateM σ')} {st : σ} {st' : σ'}

/-- Sources at one place that give the same global state and alike candidates are reported on alike:
both runs fail in the same way, or the reports differ in the warnings on single candidates at most.
Where the coverage before each seed is the same as well, so is the outcome as a whole. -/
theorem report_alike {g : GlobalState} {cs ds : List Candidate} {load : List Warning}
    (hreads : s.Reads st g ⟨cs, load⟩) (hreads' : s'.Reads st' g ⟨ds, load⟩)
    (hlocation : s.location = s'.location) (halike : List.Forall₂ Candidate.Alike cs ds) :
    ((∃ failure, (s.report.run st).1 = .error failure ∧
        (s'.report.run st').1 = .error failure) ∨
      ∃ report other, (s.report.run st).1 = .ok report ∧ (s'.report.run st').1 = .ok other ∧
        report.SameButSingle load (cs.flatMap Candidate.ownWarnings)
          (ds.flatMap Candidate.ownWarnings) other) ∧
    (∀ c ∈ cs ++ ds, ∀ w ∈ c.ownWarnings, w.kind.isOfCandidate) ∧
    (cs.map (·.metadata.oldCoverage) = ds.map (·.metadata.oldCoverage) →
      (s.report.run st).1 = (s'.report.run st').1) := by
  have hmap := map_essence_of_alike halike
  have houtcome := reportOn_of_essence_eq (keepsKey_essence.map_records_eq hmap)
    (keepsKey_essence.supersessions_eq hmap) s.location g load
  rw [hreads.report_eq, hreads'.report_eq, ← hlocation]
  refine ⟨houtcome, ?_, ?_⟩
  · intro c _ w hw
    exact (source_of_mem_ownWarnings hw).2
  · intro hold
    rw [ownWarnings_of_alike halike hold] at houtcome
    rcases houtcome with ⟨failure, hfail, hfail'⟩ | ⟨report, other, hreport, hother, hsame⟩
    · rw [hfail, hfail']
    · rw [hreport, hother, hsame.eq]

/-- Seeds with all that a seed can state, of which two have the same id. -/
def plain : List Candidate :=
  [⟨"a.json", ⟨some 1, none, some 0, some "", none, some 400, some 400, none⟩⟩,
    ⟨"b.json", ⟨some 2, some 1, some 1, none, some 400, some 900, some 500, some "BUG"⟩⟩,
    ⟨"c.json", ⟨some 1, some 2, some 1, some "CRASH", some 0, some 300, some 300, some "bug"⟩⟩]

/-- The same seeds with other parents, other verdicts that are no bugs, and no empty state. -/
def reworded : List Candidate :=
  [⟨"a.json", ⟨some 1, some 7, some 0, none, none, some 400, some 400, some ""⟩⟩,
    ⟨"b.json", ⟨some 2, none, some 1, some "", some 400, some 900, some 500, some "BUG"⟩⟩,
    ⟨"c.json", ⟨some 1, some 1, some 1, some "CRASH", some 0, some 300, some 300, none⟩⟩]

/-- A source whose state says what it gives. -/
def worded : Source (StateM (List Candidate)) where
  location := "campaign"
  globalState := return .ok ⟨2, 900, none, none⟩
  candidates := return .ok ⟨← get, []⟩

theorem worded_report_alike :
    List.Forall₂ Candidate.Alike plain reworded ∧
    plain.map (·.metadata.oldCoverage) = reworded.map (·.metadata.oldCoverage) ∧
    plain ≠ reworded ∧ ∃ report, (worded.report.run plain).1 = .ok report ∧
      (worded.report.run reworded).1 = .ok report ∧ report.bugs = [(1, 0), (2, 1)] := by
  have hreads : worded.Reads plain ⟨2, 900, none, none⟩ ⟨plain, []⟩ := ⟨plain, rfl, rfl⟩
  have hreads' : worded.Reads reworded ⟨2, 900, none, none⟩ ⟨reworded, []⟩ :=
    ⟨reworded, rfl, rfl⟩
  have halike : List.Forall₂ Candidate.Alike plain reworded := by
    refine .cons ?_ (.cons ?_ (.cons ?_ .nil))
    · exact ⟨rfl, rfl, rfl, rfl, rfl, by decide, rfl⟩
    · exact ⟨rfl, rfl, rfl, rfl, rfl, by decide, rfl⟩
    · exact ⟨rfl, rfl, rfl, rfl, rfl, by decide, rfl⟩
  obtain ⟨⟨failure, hfail, -⟩ | ⟨report, other, hreport, -, -⟩, -, hsame⟩ :=
    report_alike hreads hreads' rfl halike
  · cases hfail
  · refine ⟨halike, rfl, by decide, report, hreport, (hsame rfl).symm.trans hreport, ?_⟩
    obtain rfl := Except.ok.inj hreport
    rfl

end Source

end FuzzCampaign
