import FuzzCampaign.Proofs.Runs
import FuzzCampaign.Proofs.Stages
import Mathlib.Data.List.Pairwise

/-!
What the order of the candidates does to a report. Records are sorted by id and file name, and where
no two candidates share both, a list has one sorted arrangement only. So everything that is taken from
the sorted records stays as it is; only the warnings on single candidates follow the order given. Main
statement: any source that gives such candidates in another order fails alike, or gets a report that
differs in the order of these warnings at most.
-/

namespace FuzzCampaign

open Seed

/-- Whether two candidates are complete and have the same id and file name. -/
def Seed.Candidate.SharesKey (c d : Candidate) : Prop :=
  c.isComplete ∧ d.isComplete ∧ c.metadata.id = d.metadata.id ∧ c.source = d.source

/-- Whether no two complete candidates share both the id and the file name. -/
def DistinctKeys (cs : List Candidate) : Prop := cs.Pairwise fun c d => ¬c.SharesKey d

/-- Then candidates whose records have the same id and file name are the same. -/
theorem DistinctKeys.eq_of_record? {cs : List Candidate} (h : DistinctKeys cs) {c d : Candidate}
    {r s : Record} (hc : c ∈ cs) (hd : d ∈ cs) (hr : c.record? = some r) (hs : d.record? = some s)
    (hid : r.id = s.id) (hsource : r.source = s.source) : c = d := by
  have hcr := Candidate.makes_of_record? hr
  have hds := Candidate.makes_of_record? hs
  have hshares : c.SharesKey d := by
    refine ⟨Candidate.isComplete_iff.mpr ⟨r, hr⟩, Candidate.isComplete_iff.mpr ⟨s, hs⟩, ?_, ?_⟩
    · rw [hcr.id, hds.id, hid]
    · rw [← hcr.source, ← hds.source, hsource]
  have hsymm : Std.Symm fun c d : Candidate => ¬c.SharesKey d := by
    refine ⟨fun c d hcd hdc => hcd ?_⟩
    obtain ⟨hdcomplete, hccomplete, hids, hsources⟩ := hdc
    exact ⟨hccomplete, hdcomplete, hids.symm, hsources.symm⟩
  exact Decidable.byContradiction fun hne => h.forall hc hd hne hshares

/-- Records that may precede each other have the same id and file name. -/
theorem Record.eq_of_precedes {r s : Record} (hrs : r.precedes s) (hsr : s.precedes r) :
    r.id = s.id ∧ r.source = s.source := by
  simp only [Record.precedes, Bool.or_eq_true, Bool.and_eq_true, decide_eq_true_eq,
    beq_iff_eq] at hrs hsr
  rcases hrs with hlt | ⟨hid, hle⟩ <;> rcases hsr with hgt | ⟨hid', hge⟩
  case inr.inr => exact ⟨hid, String.le_antisymm hle hge⟩
  all_goals omega

section

variable {cs ds : List Candidate}

/-- Candidates in any order are sorted into one arrangement. -/
theorem ordered_eq_of_perm (hperm : cs.Perm ds) (hkeys : DistinctKeys cs) :
    Validation.ordered cs = Validation.ordered ds := by
  have hordered : (Validation.ordered cs).Perm (Validation.ordered ds) :=
    (sortBy_perm _ _).trans ((hperm.filterMap _).trans (sortBy_perm _ _).symm)
  have hsorted := fun cs : List Candidate => sortBy_pairwise Record.precedes_total
    Record.precedes_trans (cs.filterMap Candidate.record?)
  refine hordered.eq_of_pairwise (fun r s hr hs hrs hsr => ?_) (hsorted cs) (hsorted ds)
  obtain ⟨c, hc, hcr⟩ := List.mem_filterMap.mp (mem_sortBy.mp hr)
  obtain ⟨d, hd, hds⟩ := List.mem_filterMap.mp (mem_sortBy.mp hs)
  obtain ⟨hid, hsource⟩ := Record.eq_of_precedes hrs hsr
  obtain rfl := hkeys.eq_of_record? hc (hperm.mem_iff.mpr hd) hcr hds hid hsource
  exact Option.some.inj (hcr.symm.trans hds)

theorem records_eq_of_perm (hperm : cs.Perm ds) (hkeys : DistinctKeys cs) :
    (validate cs).records = (validate ds).records :=
  congrArg Validation.survivors (ordered_eq_of_perm hperm hkeys)

end

/-- Two candidates that share id and file name: the later one wins, so their order matters. -/
example :
    let c : Candidate := ⟨"a.json", ⟨some 1, none, some 0, none, none, some 5, some 5, none⟩⟩
    let d : Candidate := ⟨"a.json", ⟨some 1, none, some 0, none, none, some 6, some 6, none⟩⟩
    (validate [c, d]).records ≠ (validate [d, c]).records := by decide

/-! ### Reports on a source -/

/-- Whether two reports with the same load warnings differ at most in the order of the warnings on
single candidates. -/
structure Report.SameButOrder (load : List Warning) (report other : Report) : Prop
    extends report.SameFigures other where
  warnings : ∃ single single' links series : List Warning,
    report.warnings = load ++ single ++ links ++ series ∧
    other.warnings = load ++ single' ++ links ++ series ∧
    single.Perm single' ∧ (∀ w ∈ single, w.kind.isOfCandidate) ∧
    (∀ w ∈ links, w.kind = .duplicateId) ∧ ∀ w ∈ series, w.kind.isOfSeries

/-- What is said on candidates in two orders is the same failure, or reports that differ by order. -/
theorem reportOn_perm {cs ds : List Candidate} (hperm : cs.Perm ds) (hkeys : DistinctKeys cs)
    (location : String) (g : GlobalState) (load : List Warning) :
    (∃ failure, reportOn location g ⟨cs, load⟩ = .error failure ∧
      reportOn location g ⟨ds, load⟩ = .error failure) ∨
    ∃ report other, reportOn location g ⟨cs, load⟩ = .ok report ∧
      reportOn location g ⟨ds, load⟩ = .ok other ∧ report.SameButOrder load other := by
  have hordered := ordered_eq_of_perm hperm hkeys
  rcases reportOn_of_records_eq ⟨cs, load⟩ ⟨ds, load⟩
    (records_eq_of_perm hperm hkeys) location g with
    hfail | ⟨report, other, series, hreport, hother, hfigures, rfl, hwarnings, hwarnings'⟩
  · exact .inl hfail
  · refine .inr ⟨report, other, hreport, hother, hfigures,
      (cs.flatMap Candidate.findings).map Finding.warning,
      (ds.flatMap Candidate.findings).map Finding.warning,
      (Validation.supersessions (Validation.ordered cs)).map Finding.warning,
      (Series.derive (validate cs).records g).warnings, ?_, ?_, ?_, ?_, ?_, ?_⟩
    · simpa [validate] using hwarnings
    · simpa [validate, hordered] using hwarnings'
    · exact (hperm.flatMap_right _).map _
    · intro w hw
      rw [List.map_flatMap] at hw
      obtain ⟨c, -, hc⟩ := List.mem_flatMap.mp hw
      exact isOfCandidate_of_mem hc
    · exact fun w => kind_of_mem_supersessions
    · exact fun w => isOfSeries_of_mem

namespace Source

/-- The source that gives the same candidates in another order. -/
def rearranged {m : Type → Type} [Monad m] (s : Source m)
    (order : List Candidate → List Candidate) : Source m where
  location := s.location
  globalState := s.globalState
  candidates := do
    match ← s.candidates with
    | .error failure => return .error failure
    | .ok loaded => return .ok { loaded with candidates := order loaded.candidates }

variable {σ : Type}

theorem run_candidates_rearranged (s : Source (StateM σ)) (order : List Candidate → List Candidate)
    (st : σ) :
    (s.rearranged order).candidates.run st
      = match s.candidates.run st with
        | (.error failure, last) => (.error failure, last)
        | (.ok loaded, last) => (.ok { loaded with candidates := order loaded.candidates }, last) := by
  simp only [rearranged, StateT.run, bind, StateT.bind, pure]
  rcases s.candidates st with ⟨failure | loaded, last⟩
  · rfl
  · rfl

/-- Where no two complete candidates share id and file name, giving them in another order leads to the
same failure, or to a report that differs at most in the order of the warnings on single candidates. -/
theorem report_rearranged {s : Source (StateM σ)} {st : σ} {order : List Candidate → List Candidate}
    (hperm : ∀ cs : List Candidate, cs.Perm (order cs))
    (hkeys : ∀ g loaded, s.Reads st g loaded → DistinctKeys loaded.candidates) :
    (∃ failure, (s.report.run st).1 = .error failure ∧
      ((s.rearranged order).report.run st).1 = .error failure) ∨
    ∃ g loaded report other, s.Reads st g loaded ∧ (s.report.run st).1 = .ok report ∧
      ((s.rearranged order).report.run st).1 = .ok other ∧
      report.SameButOrder loaded.warnings other := by
  have hstate : (s.rearranged order).globalState = s.globalState := rfl
  have hlocation : (s.rearranged order).location = s.location := rfl
  simp only [run_report, hstate, hlocation, run_candidates_rearranged]
  rcases hg : s.globalState.run st with ⟨failure | g, mid⟩
  · exact .inl ⟨failure, rfl, rfl⟩
  · rcases hc : s.candidates.run mid with ⟨failure | loaded, last⟩
    · exact .inl ⟨failure, by simp only [hc], by simp only [hc]⟩
    · have hreads : s.Reads st g loaded := ⟨mid, hg, congrArg Prod.fst hc⟩
      simp only [hc]
      rcases reportOn_perm (hperm loaded.candidates) (hkeys g loaded hreads) s.location g
        loaded.warnings with hfail | ⟨report, other, hreport, hother, hsame⟩
      · exact .inl hfail
      · exact .inr ⟨g, loaded, report, other, hreads, hreport, hother, hsame⟩

/-- Candidates with a warning each, of which two share an id but not the file name, and two lack an id
and share all they have. -/
def untidy : Source Id where
  location := "campaign"
  globalState := .ok ⟨2, 12000, none, none⟩
  candidates := .ok
    { candidates :=
        [⟨"b.json", ⟨some 1, none, some 0, none, none, some 12000, some 9000, none⟩⟩,
          ⟨"c.json", ⟨none, none, some 0, none, none, some 100, some 100, none⟩⟩,
          ⟨"a.json", ⟨some 1, none, some 0, none, some 50, some 60, some 9, some "BUG"⟩⟩,
          ⟨"c.json", ⟨none, none, some 0, none, none, some 100, some 100, none⟩⟩]
      warnings := [⟨.recordParseError, some "d.json", "unreadable"⟩] }

theorem traced_untidy_rearranged :
    (∀ cs : List Candidate, cs.Perm cs.reverse) ∧
    (∀ g loaded, untidy.traced.Reads [] g loaded → DistinctKeys loaded.candidates) ∧
    ∃ g loaded report other, untidy.traced.Reads [] g loaded ∧
      (untidy.traced.report.run []).1 = .ok report ∧
      ((untidy.traced.rearranged List.reverse).report.run []).1 = .ok other ∧
      report.warnings ≠ other.warnings ∧ report.SameButOrder loaded.warnings other := by
  have hperm : ∀ cs : List Candidate, cs.Perm cs.reverse := fun cs => cs.reverse_perm.symm
  have hkeys : ∀ g loaded, untidy.traced.Reads [] g loaded → DistinctKeys loaded.candidates := by
    rintro g loaded ⟨mid, -, hc⟩
    obtain rfl := Except.ok.inj hc
    unfold DistinctKeys Candidate.SharesKey
    decide
  refine ⟨hperm, hkeys, ?_⟩
  rcases report_rearranged hperm hkeys with ⟨failure, hfail, -⟩ |
    ⟨g, loaded, report, other, hreads, hreport, hother, hsame⟩
  · cases hfail
  · refine ⟨g, loaded, report, other, hreads, hreport, hother, ?_, hsame⟩
    obtain rfl := Except.ok.inj hreport
    obtain rfl := Except.ok.inj hother
    decide

end Source

end FuzzCampaign
