import FuzzCampaign.Proofs.Runs
import FuzzCampaign.Proofs.Winners
import Mathlib.Data.Set.Card

/-!
What the published series say about the candidates that were read. Validation leaves one record for
each id in ascending order, so the running number of bugs at an id counts the ids up to it whose
winner is a bug. Main statement: in any report on any source, whatever state its reads work on, the
three series have the ids of the complete candidates, and their values are the winners'.
-/

namespace FuzzCampaign

open Seed

/-! ### The running number of bugs -/

section

variable {before : Nat} {rs : List Record}

/-- In records that ascend strictly, a point counts the bugs whose ids are no greater than its own. -/
theorem bugCounts_eq_map (h : rs.Pairwise fun r s => r.id < s.id) :
    Series.bugCounts before rs
      = rs.map fun r => (r.id, before + rs.countP fun s => s.verdict.isBug && s.id ≤ r.id) := by
  induction rs generalizing before with
  | nil => rfl
  | cons r rest ih =>
    obtain ⟨hr, hrest⟩ := List.pairwise_cons.mp h
    -- no later record counts at this one, and this one counts at every later one
    have hhead : (rest.countP fun s => s.verdict.isBug && s.id ≤ r.id) = 0 := by
      refine List.countP_eq_zero.mpr fun s hs => ?_
      simp [Nat.not_le.mpr (hr s hs)]
    rw [Series.bugCounts, List.map_cons, List.countP_cons, hhead, ih hrest]
    refine List.cons_eq_cons.mpr ⟨?_, List.map_congr_left fun s hs => ?_⟩
    · cases r.verdict.isBug <;> simp
    · have hrs : r.id ≤ s.id := Nat.le_of_lt (hr s hs)
      rw [List.countP_cons]
      cases r.verdict.isBug <;> simp [hrs]
      omega

/-- From one point to the next the number stays or grows by one. -/
theorem isChain_bugCounts (before : Nat) (rs : List Record) :
    (before :: (Series.bugCounts before rs).map (·.2)).IsChain fun a b => b = a ∨ b = a + 1 := by
  induction rs generalizing before with
  | nil => exact .singleton _
  | cons r rest ih =>
    rw [Series.bugCounts, List.map_cons]
    refine .cons_cons ?_ (ih _)
    cases r.verdict.isBug
    · exact .inl rfl
    · exact .inr rfl

/-- The last number counts all bugs. -/
theorem getLast?_bugCounts (before : Nat) (rs : List Record) :
    (before :: (Series.bugCounts before rs).map (·.2)).getLast?
      = some (before + rs.countP fun r => r.verdict.isBug) := by
  induction rs generalizing before with
  | nil => rfl
  | cons r rest ih =>
    rw [Series.bugCounts, List.map_cons, List.getLast?_cons_cons, ih, List.countP_cons]
    cases r.verdict.isBug <;> simp
    omega

end

/-- With ids that differ, counting records is counting ids. -/
theorem countP_eq_ncard {rs : List Record} (h : (rs.map (·.id)).Nodup) (p : Record → Bool) :
    rs.countP p = {k | ∃ r ∈ rs, p r ∧ r.id = k}.ncard := by
  have hset : {k | ∃ r ∈ rs, p r ∧ r.id = k} = ↑((rs.filter p).map (·.id)).toFinset := by
    ext k
    simp [and_assoc]
  rw [hset, Set.ncard_coe_finset, List.toFinset_card_of_nodup, List.length_map,
    List.countP_eq_length_filter]
  exact h.sublist (List.filter_sublist.map _)

/-! ### Bugs among the winners -/

/-- The ids whose candidates state the verdict of a bug. -/
def winningBugs (cs : List Candidate) : Set Nat :=
  {k | ∃ c, Wins cs k c ∧ c.metadata.verdict = some "BUG"}

theorem isBug_iff {c : Candidate} {r : Record} (h : c.record? = some r) :
    r.verdict.isBug ↔ c.metadata.verdict = some "BUG" := by
  have hbug : ∀ v : Verdict, v.isBug ↔ v = .bug := fun v => by cases v <;> simp [Verdict.isBug]
  rw [hbug, (Candidate.makes_of_record? h).verdict]
  cases c.metadata.verdict with
  | none => simp
  | some text => simpa using Verdict.ofText_eq_bug_iff

/-- A record of validation is a bug exactly when its id's winner is. -/
theorem mem_winningBugs_iff {cs : List Candidate} {k : Nat} :
    k ∈ winningBugs cs ↔ ∃ r ∈ (validate cs).records, r.verdict.isBug ∧ r.id = k := by
  constructor
  · rintro ⟨c, hc, hbug⟩
    obtain ⟨r, hr, hcr, hrk⟩ := hc.exists_record
    exact ⟨r, hr, (isBug_iff hcr).mpr hbug, hrk⟩
  · rintro ⟨r, hr, hbug, rfl⟩
    obtain ⟨c, hc, hcr⟩ := mem_records_iff.mp hr
    exact ⟨c, hc, (isBug_iff hcr).mp hbug⟩

theorem nodup_ids (cs : List Candidate) : ((validate cs).records.map (·.id)).Nodup :=
  List.pairwise_map.mpr ((records_pairwise cs).imp Nat.ne_of_lt)

theorem countP_isBug (cs : List Candidate) :
    ((validate cs).records.countP fun r => r.verdict.isBug) = (winningBugs cs).ncard := by
  rw [countP_eq_ncard (nodup_ids cs)]
  exact congrArg Set.ncard (Set.ext fun _ => mem_winningBugs_iff.symm)

theorem countP_isBug_le (cs : List Candidate) (k : Nat) :
    ((validate cs).records.countP fun r => r.verdict.isBug && r.id ≤ k)
      = {j ∈ winningBugs cs | j ≤ k}.ncard := by
  rw [countP_eq_ncard (nodup_ids cs)]
  refine congrArg Set.ncard (Set.ext fun j => ?_)
  rw [Set.mem_ofPred_eq, Set.mem_ofPred_eq, mem_winningBugs_iff]
  constructor
  · rintro ⟨r, hr, hp, rfl⟩
    obtain ⟨hbug, hle⟩ := (Bool.and_eq_true _ _).mp hp
    exact ⟨⟨r, hr, hbug, rfl⟩, of_decide_eq_true hle⟩
  · rintro ⟨⟨r, hr, hbug, rfl⟩, hle⟩
    exact ⟨r, hr, by simp [hbug, hle], rfl⟩

/-! ### Reports on a source -/

/-- What a report has to say about candidates: each series has one point at the id of every complete
candidate, with a value that the id's winner gives. -/
structure Report.ShowsWinners (report : Report) (cs : List Candidate) : Prop where
  ascending : (report.coverage.map (·.1)).Pairwise (· < ·)
  increaseIds : report.increase.map (·.1) = report.coverage.map (·.1)
  bugIds : report.bugs.map (·.1) = report.coverage.map (·.1)
  mem_ids : ∀ k, k ∈ report.coverage.map (·.1) ↔
    ∃ c ∈ cs, c.isComplete ∧ c.metadata.id = some k
  mem_coverage : ∀ k p, (k, p) ∈ report.coverage ↔
    ∃ c n, Wins cs k c ∧ c.metadata.newCoverage = some n ∧ p = Percent.ofBasisPoints n
  mem_increase : ∀ k p, (k, p) ∈ report.increase ↔
    ∃ c n, Wins cs k c ∧ c.metadata.increment = some n ∧ p = Percent.ofBasisPoints n
  mem_bugs : ∀ k n, (k, n) ∈ report.bugs ↔
    (∃ c, Wins cs k c) ∧ n = {j ∈ winningBugs cs | j ≤ k}.ncard
  steps : (0 :: report.bugs.map (·.2)).IsChain fun a b => b = a ∨ b = a + 1
  total : (report.bugs.map (·.2)).getLast? = some (winningBugs cs).ncard

/-- A series of the records' values has the points of the winners' values. -/
theorem mem_map_records_iff {β : Type} {cs : List Candidate} {field : Metadata → Option Nat}
    {value : Record → Nat} (hvalue : ∀ {c : Candidate} {r : Record}, c.record? = some r →
      field c.metadata = some (value r)) (f : Nat → β) (k : Nat) (b : β) :
    (k, b) ∈ (validate cs).records.map (fun r => (r.id, f (value r))) ↔
      ∃ c n, Wins cs k c ∧ field c.metadata = some n ∧ b = f n := by
  rw [List.mem_map]
  constructor
  · rintro ⟨r, hr, heq⟩
    obtain ⟨rfl, rfl⟩ := Prod.mk.inj heq
    obtain ⟨c, hc, hcr⟩ := mem_records_iff.mp hr
    exact ⟨c, value r, hc, hvalue hcr, rfl⟩
  · rintro ⟨c, n, hc, hn, rfl⟩
    obtain ⟨r, hr, hcr, hrk⟩ := hc.exists_record
    obtain rfl : value r = n := Option.some.inj ((hvalue hcr).symm.trans hn)
    exact ⟨r, hr, by rw [hrk]⟩

theorem showsWinners_assemble {cs : List Candidate} (hne : (validate cs).records ≠ [])
    (g : GlobalState) (earlier : List Warning) :
    (Report.assemble (validate cs).records g (Series.derive (validate cs).records g)
      earlier).ShowsWinners cs where
  ascending := by
    simpa [Report.assemble, Series.derive, List.pairwise_map] using records_pairwise cs
  increaseIds := by simp [Report.assemble, Series.derive]
  bugIds := by
    simp [Report.assemble, Series.derive, bugCounts_eq_map (records_pairwise cs)]
  mem_ids k := by
    rw [← exists_record_iff]
    simp [Report.assemble, Series.derive]
  mem_coverage := mem_map_records_iff (fun h => (Candidate.makes_of_record? h).newCoverage) _
  mem_increase := mem_map_records_iff (fun h => (Candidate.makes_of_record? h).increment) _
  mem_bugs k n := by
    change (k, n) ∈ Series.bugCounts 0 (validate cs).records ↔ _
    rw [bugCounts_eq_map (records_pairwise cs), List.mem_map]
    constructor
    · rintro ⟨r, hr, heq⟩
      obtain ⟨rfl, rfl⟩ := Prod.mk.inj heq
      obtain ⟨c, hc, -⟩ := mem_records_iff.mp hr
      exact ⟨⟨c, hc⟩, by rw [Nat.zero_add, countP_isBug_le]⟩
    · rintro ⟨⟨c, hc⟩, rfl⟩
      obtain ⟨r, hr, -, rfl⟩ := hc.exists_record
      exact ⟨r, hr, by rw [Nat.zero_add, countP_isBug_le]⟩
  steps := isChain_bugCounts 0 _
  total := by
    have hlast := getLast?_bugCounts 0 (validate cs).records
    obtain ⟨r, rest, hrs⟩ := List.exists_cons_of_ne_nil hne
    rw [Nat.zero_add, countP_isBug] at hlast
    rw [← hlast]
    change ((Series.bugCounts 0 (validate cs).records).map (·.2)).getLast? = _
    rw [hrs, Series.bugCounts, List.map_cons, List.getLast?_cons_cons]

namespace Source

variable {σ : Type} {s : Source (StateM σ)} {st : σ} {report : Report}

/-- Every report on a source shows the winners among the candidates that were read. -/
theorem report_showsWinners (h : (s.report.run st).1 = .ok report) :
    ∃ g loaded, s.Reads st g loaded ∧ report.ShowsWinners loaded.candidates := by
  obtain ⟨g, loaded, hreads, hreport⟩ := exists_reads h
  obtain ⟨hne, rfl⟩ := reportOn_eq_ok_iff.mp hreport
  exact ⟨g, loaded, hreads, showsWinners_assemble hne g _⟩

/-- Three files for two ids. The one that takes over the first id does not state a bug. -/
def rivals : Source Id where
  location := "campaign"
  globalState := .ok ⟨2, 2500, none, none⟩
  candidates := .ok
    { candidates :=
        [⟨"b.json", ⟨some 1, none, some 0, none, none, some 1500, some 1500, some "NORMAL"⟩⟩,
          ⟨"c.json", ⟨some 2, some 1, some 1, none, some 1500, some 2500, some 1000, some "BUG"⟩⟩,
          ⟨"a.json", ⟨some 1, none, some 0, none, none, some 1400, some 1400, some "BUG"⟩⟩]
      warnings := [] }

theorem traced_rivals_showsWinners :
    ∃ report, (rivals.traced.report.run []).1 = .ok report ∧ report.bugs = [(1, 0), (2, 1)] ∧
      ∃ g loaded, rivals.traced.Reads [] g loaded ∧ report.ShowsWinners loaded.candidates :=
  ⟨_, rfl, rfl, report_showsWinners rfl⟩

end Source

end FuzzCampaign
