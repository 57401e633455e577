import FuzzCampaign.Proofs.Tallies
import FuzzCampaign.Proofs.WinningSeries

/-!
How often a report counts each processing state. A state is read from a text, kept if the text is not
empty, and written again under the same text, so what is counted are texts as the candidates state them.
Main statement: any report on any source counts, for each text that is not empty, the winners among the
candidates that state it, and no other text is counted.
-/

namespace FuzzCampaign

open Seed

/-! ### Winners and their records -/

/-- A record shows the text that its candidate states, unless that is empty. -/
theorem map_text_state {c : Candidate} {r : Record} (h : c.record? = some r) :
    r.state.map State.text = c.metadata.state.filter (· ≠ "") := by
  rw [(Candidate.makes_of_record? h).state, Option.map_map]
  have hsame : State.text ∘ State.ofText = id := funext State.text_ofText
  rw [hsame, Option.map_id_fun, id]

/-- Counting records is counting the candidates that stand for an id. -/
theorem countP_records_eq_ncard {cs : List Candidate} {p : Record → Bool} {q : Candidate → Prop}
    (h : ∀ {c : Candidate} {r : Record}, c.record? = some r → (p r ↔ q c)) :
    (validate cs).records.countP p = {c | (∃ k, Wins cs k c) ∧ q c}.ncard := by
  have hid : ∀ {k c}, Wins cs k c → c.metadata.id = some k := fun ⟨_, _, _, hk, _⟩ => hk
  rw [countP_eq_ncard (nodup_ids cs)]
  refine (Set.ncard_congr (fun c _ => c.metadata.id.getD 0) ?_ ?_ ?_).symm
  · rintro c ⟨⟨k, hc⟩, hq⟩
    obtain ⟨r, hr, hcr, hrk⟩ := hc.exists_record
    exact ⟨r, hr, (h hcr).mpr hq, by rw [hid hc, hrk, Option.getD_some]⟩
  · rintro c d ⟨⟨j, hc⟩, -⟩ ⟨⟨k, hd⟩, -⟩ hsame
    rw [hid hc, hid hd, Option.getD_some, Option.getD_some] at hsame
    exact hc.unique (hsame ▸ hd)
  · rintro k ⟨r, hr, hp, rfl⟩
    obtain ⟨c, hc, hcr⟩ := mem_records_iff.mp hr
    exact ⟨c, ⟨⟨r.id, hc⟩, (h hcr).mp hp⟩, by rw [hid hc, Option.getD_some]⟩

/-- The winners among candidates that state a text. -/
def winnersIn (cs : List Candidate) (text : String) : Set Candidate :=
  {c | (∃ k, Wins cs k c) ∧ c.metadata.state = some text}

/-! ### Texts of states -/

/-- The texts of the states that are counted. -/
def stateTexts (rs : List Record) : List String := (rs.filterMap (·.state)).map State.text

theorem stateTexts_eq (rs : List Record) :
    stateTexts rs = rs.filterMap fun r => r.state.map State.text := by
  rw [stateTexts, List.map_filterMap]

/-- A text that is not empty is counted once for each winner that states it. -/
theorem count_stateTexts (cs : List Candidate) {text : String} (h : text ≠ "") :
    (stateTexts (validate cs).records).count text = (winnersIn cs text).ncard := by
  rw [stateTexts_eq, List.count_filterMap]
  refine countP_records_eq_ncard ?_
  intro c r hcr
  rw [map_text_state hcr, beq_iff_eq, Option.filter_eq_some_iff]
  simp [h]

theorem mem_stateTexts (cs : List Candidate) (text : String) :
    text ∈ stateTexts (validate cs).records ↔ text ≠ "" ∧ (winnersIn cs text).Nonempty := by
  rw [stateTexts_eq, List.mem_filterMap]
  constructor
  · rintro ⟨r, hr, htext⟩
    obtain ⟨c, hc, hcr⟩ := mem_records_iff.mp hr
    rw [map_text_state hcr, Option.filter_eq_some_iff] at htext
    exact ⟨of_decide_eq_true htext.2, c, ⟨r.id, hc⟩, htext.1⟩
  · rintro ⟨hne, c, ⟨k, hc⟩, hstate⟩
    obtain ⟨r, hr, hcr, -⟩ := hc.exists_record
    refine ⟨r, hr, ?_⟩
    rw [map_text_state hcr, Option.filter_eq_some_iff]
    exact ⟨hstate, decide_eq_true hne⟩

theorem length_stateTexts (cs : List Candidate) :
    (stateTexts (validate cs).records).length
      = {c | (∃ k, Wins cs k c) ∧ ∃ text, text ≠ "" ∧ c.metadata.state = some text}.ncard := by
  rw [stateTexts_eq, List.length_filterMap_eq_countP]
  refine countP_records_eq_ncard ?_
  intro c r hcr
  rw [map_text_state hcr, Option.isSome_iff_exists]
  simp only [Option.filter_eq_some_iff, decide_eq_true_eq]
  exact exists_congr fun text => And.comm

/-! ### Reports on a source -/

/-- What a report has to say about the states of candidates: each text that a winner states, unless it is
empty, once and in ascending order, with the number of the winners that state it. -/
structure Report.CountsStates (report : Report) (cs : List Candidate) : Prop where
  ascending : (report.summary.stateCounts.map (·.1)).Pairwise (· < ·)
  mem_texts : ∀ text, text ∈ report.summary.stateCounts.map (·.1) ↔
    text ≠ "" ∧ ∃ k c, Wins cs k c ∧ c.metadata.state = some text
  count_eq : ∀ text n, (text, n) ∈ report.summary.stateCounts → n = (winnersIn cs text).ncard
  total : report.summary.stateCounts.total
    = {c | (∃ k, Wins cs k c) ∧ ∃ text, text ≠ "" ∧ c.metadata.state = some text}.ncard

theorem countsStates_assemble (cs : List Candidate) (g : GlobalState) (earlier : List Warning) :
    (Report.assemble (validate cs).records g (Series.derive (validate cs).records g)
      earlier).CountsStates cs := by
  have hcounts := Tally.counts_ofKeys (stateTexts (validate cs).records)
  constructor
  case ascending => exact hcounts.ascending
  case mem_texts =>
    intro text
    refine (hcounts.mem_keys text).trans ((mem_stateTexts cs text).trans (and_congr_right fun _ => ?_))
    exact ⟨fun ⟨c, ⟨k, hc⟩, hstate⟩ => ⟨k, c, hc, hstate⟩, fun ⟨k, c, hc, hstate⟩ => ⟨c, ⟨k, hc⟩, hstate⟩⟩
  case count_eq =>
    intro text n hmem
    have hne : text ≠ "" :=
      ((mem_stateTexts cs text).mp ((hcounts.mem_keys text).mp (List.mem_map_of_mem hmem))).1
    rw [← count_stateTexts cs hne, ← hcounts.count_eq text]
    exact (Tally.count_of_mem (hcounts.ascending.imp ne_of_irrefl) hmem).symm
  case total => exact (Tally.total_ofKeys _).trans (length_stateTexts cs)

namespace Source

variable {σ : Type} {s : Source (StateM σ)} {st : σ} {report : Report}

/-- Every report on a source counts the states that the winners among the candidates state. -/
theorem report_countsStates (h : (s.report.run st).1 = .ok report) :
    ∃ g loaded, s.Reads st g loaded ∧ report.CountsStates loaded.candidates := by
  obtain ⟨g, loaded, hreads, hreport⟩ := exists_reads h
  obtain ⟨-, rfl⟩ := reportOn_eq_ok_iff.mp hreport
  exact ⟨g, loaded, hreads, countsStates_assemble _ g _⟩

/-- Seeds in known states and in unknown ones, one without a state and one in the empty one. A seed that is
superseded is the only one that timed out. -/
def crashed : Source Id where
  location := "campaign"
  globalState := .ok ⟨6, 900, none, none⟩
  candidates := .ok
    { candidates :=
        [⟨"f.json", ⟨some 6, some 1, some 1, some "CRASH", none, some 900, some 0, none⟩⟩,
          ⟨"a.json", ⟨some 1, none, some 0, some "TIMEOUT", none, some 100, some 100, none⟩⟩,
          ⟨"b.json", ⟨some 1, none, some 0, some "CRASH", none, some 500, some 500, none⟩⟩,
          ⟨"c.json", ⟨some 3, some 1, some 1, some "", none, some 900, some 400, none⟩⟩,
          ⟨"d.json", ⟨some 4, some 1, some 1, some "Crash", none, some 900, some 0, some "BUG"⟩⟩,
          ⟨"e.json", ⟨some 5, some 1, some 1, none, none, some 900, some 0, none⟩⟩]
      warnings := [] }

theorem traced_crashed_countsStates :
    ∃ report, (crashed.traced.report.run []).1 = .ok report ∧
      report.summary.stateCounts = [("CRASH", 2), ("Crash", 1)] ∧
      ∃ g loaded, crashed.traced.Reads [] g loaded ∧ report.CountsStates loaded.candidates :=
  ⟨_, rfl, rfl, report_countsStates rfl⟩

end Source

end FuzzCampaign
