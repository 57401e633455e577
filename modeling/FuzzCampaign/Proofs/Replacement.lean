import FuzzCampaign.Proofs.Compaction
import FuzzCampaign.Proofs.Essentials

/-!
What a candidate that loses its id can say. It takes part in putting records in order, and so in the
warnings on supersessions, by its id and file name only; and as it does not stand for its id, no
record is taken from it. Main statement: whatever else such a candidate states, as long as it is
complete, the report is the same but for the warnings on this candidate by itself.
-/

namespace FuzzCampaign

open Seed

/-- Whether a candidate that stands between others loses its id: one of them has the id and a file
name with greater bytes, or has the id and the same file name and stands behind it. -/
def Loses (front back : List Candidate) (c : Candidate) : Prop :=
  (∃ e ∈ front ++ back, e.isComplete ∧ e.metadata.id = c.metadata.id ∧
    Text.encode c.source < Text.encode e.source) ∨
  ∃ e ∈ back, e.isComplete ∧ e.metadata.id = c.metadata.id ∧ e.source = c.source

section

variable {front back : List Candidate} {c d e : Candidate} {k : Nat}

/-- A candidate that loses its id has a rival that is greater, or behind it and not lesser. -/
theorem Loses.exists_rival (h : Loses front back c) (hck : c.Contends k) :
    (∃ e ∈ front, e.Contends k ∧ c.source < e.source) ∨
      ∃ e ∈ back, e.Contends k ∧ c.source ≤ e.source := by
  rcases h with ⟨e, he, hcomplete, hid, hlt⟩ | ⟨e, he, hcomplete, hid, hsource⟩
  · have hek : e.Contends k := ⟨hcomplete, hid.trans hck.2⟩
    have hlt' := Text.encode_lt_encode_iff.mp hlt
    rcases List.mem_append.mp he with hfront | hback
    · exact .inl ⟨e, hfront, hek, hlt'⟩
    · exact .inr ⟨e, hback, hek, Std.le_of_lt hlt'⟩
  · exact .inr ⟨e, he, ⟨hcomplete, hid.trans hck.2⟩, hsource ▸ String.le_refl _⟩

/-- A candidate that loses its id can be left out of the question who wins. -/
theorem Loses.wins_iff (h : Loses front back c) :
    Wins (front ++ c :: back) k e ↔ Wins (front ++ back) k e := by
  simp only [wins_append_iff, wins_cons_iff, List.forall_mem_cons]
  constructor
  · rintro (⟨hwin, -, hback⟩ | ⟨⟨hwin, -⟩ | ⟨rfl, hek, hback⟩, hfront⟩)
    · exact .inl ⟨hwin, hback⟩
    · exact .inr ⟨hwin, hfront⟩
    · -- it cannot stand for the id itself, as its rival is not beaten
      rcases h.exists_rival hek with ⟨x, hx, hxk, hlt⟩ | ⟨x, hx, hxk, hle⟩
      · exact absurd (hfront x hx hxk) (String.not_le.mpr hlt)
      · exact absurd (hback x hx hxk) (String.not_lt.mpr hle)
  · rintro (⟨hwin, hback⟩ | ⟨hwin, hfront⟩)
    · refine .inl ⟨hwin, ?_, hback⟩
      intro hck
      rcases h.exists_rival hck with ⟨x, hx, hxk, hlt⟩ | ⟨x, hx, hxk, hle⟩
      · exact Std.lt_of_lt_of_le hlt (hwin.source_le hx hxk)
      · exact Std.lt_of_le_of_lt hle (hback x hx hxk)
    · refine .inr ⟨.inl ⟨hwin, ?_⟩, hfront⟩
      intro hck
      rcases h.exists_rival hck with ⟨x, hx, hxk, hlt⟩ | ⟨x, hx, hxk, hle⟩
      · exact Std.le_of_lt (Std.lt_of_lt_of_le hlt (hfront x hx hxk))
      · exact String.le_trans hle (hwin.source_le hx hxk)

/-- Another candidate with the same id and file name loses the id too. -/
theorem Loses.of_same_key (h : Loses front back c) (hid : d.metadata.id = c.metadata.id)
    (hsource : d.source = c.source) : Loses front back d := by
  unfold Loses
  rw [hid, hsource]
  exact h

/-- No record is taken from a candidate that loses its id. -/
theorem Loses.records_eq (h : Loses front back c) (hid : d.metadata.id = c.metadata.id)
    (hsource : d.source = c.source) :
    (validate (front ++ c :: back)).records = (validate (front ++ d :: back)).records :=
  records_congr fun _ _ => h.wins_iff.trans (h.of_same_key hid hsource).wins_iff.symm

end

/-! ### The key of a record -/

/-- A record of which only the id and the file name are left. -/
def Seed.Record.bare (r : Record) : Record :=
  ⟨r.id, 0, 0, none, 0, none, .unknown, none, r.source⟩

theorem keepsKey_bare : KeepsKey Record.bare where
  id _ := rfl
  source _ := rfl

/-- The records of candidates with the same id and file name have the same bare record. -/
theorem bare_eq_of_record? {c d : Candidate} {r q : Record} (hr : c.record? = some r)
    (hq : d.record? = some q) (hid : d.metadata.id = c.metadata.id)
    (hsource : d.source = c.source) : q.bare = r.bare := by
  have hcr := Candidate.makes_of_record? hr
  have hdq := Candidate.makes_of_record? hq
  have hids : q.id = r.id := by
    rw [hcr.id, hdq.id, Option.some_inj] at hid
    exact hid
  have hsources : q.source = r.source := by rw [hdq.source, hcr.source, hsource]
  rw [Record.bare, Record.bare, hids, hsources]

/-- So replacing one by the other changes nothing about which records supersede which. -/
theorem supersessions_replaced {front back : List Candidate} {c d : Candidate} (hc : c.isComplete)
    (hd : d.isComplete) (hid : d.metadata.id = c.metadata.id) (hsource : d.source = c.source) :
    Validation.supersessions (Validation.ordered (front ++ c :: back))
      = Validation.supersessions (Validation.ordered (front ++ d :: back)) := by
  obtain ⟨r, hr⟩ := Candidate.isComplete_iff.mp hc
  obtain ⟨q, hq⟩ := Candidate.isComplete_iff.mp hd
  refine keepsKey_bare.supersessions_eq ?_
  simp only [List.filterMap_append, List.filterMap_cons_some hr, List.filterMap_cons_some hq,
    List.map_append, List.map_cons, bare_eq_of_record? hr hq hid hsource]

namespace Source

variable {σ σ' : Type} {s : Source (StateM σ)} {s' : Source (StateM σ')} {st : σ} {st' : σ'}

/-- A complete candidate that loses its id can be replaced by any other complete one with its id and
file name. There is a report before and after, both have the same series, depths and summary, and of
their warnings only those on the candidate by itself can differ. -/
theorem report_loser_replaced {g : GlobalState} {front back : List Candidate} {c d : Candidate}
    {load : List Warning} (hreads : s.Reads st g ⟨front ++ c :: back, load⟩)
    (hreads' : s'.Reads st' g ⟨front ++ d :: back, load⟩) (hc : c.isComplete)
    (hloses : Loses front back c) (hd : d.isComplete) (hid : d.metadata.id = c.metadata.id)
    (hsource : d.source = c.source) :
    ∃ report other, (s.report.run st).1 = .ok report ∧ (s'.report.run st').1 = .ok other ∧
      report.SameButSingle load
        (front.flatMap Candidate.ownWarnings ++ c.ownWarnings
          ++ back.flatMap Candidate.ownWarnings)
        (front.flatMap Candidate.ownWarnings ++ d.ownWarnings
          ++ back.flatMap Candidate.ownWarnings) other ∧
      (∀ w ∈ front.flatMap Candidate.ownWarnings ++ back.flatMap Candidate.ownWarnings,
        w.kind.isOfCandidate) ∧
      ∀ w ∈ c.ownWarnings ++ d.ownWarnings, w.source = some c.source ∧ w.kind.isOfCandidate := by
  have hlocation : ∀ report, reportOn s.location g ⟨front ++ d :: back, load⟩ = .ok report →
      reportOn s'.location g ⟨front ++ d :: back, load⟩ = .ok report := by
    intro report h
    exact reportOn_eq_ok_iff.mpr (reportOn_eq_ok_iff.mp h)
  have hessence := congrArg (List.map Record.essence) (hloses.records_eq hid hsource)
  rcases reportOn_of_essence_eq hessence (supersessions_replaced hc hd hid hsource) s.location g
    load with ⟨failure, hfail, -⟩ | ⟨report, other, hreport, hother, hsame⟩
  · -- the candidate is complete, so there is a record
    obtain ⟨hnil, -⟩ := reportOn_eq_error_iff.mp hfail
    exact absurd hnil (records_ne_nil_iff.mpr ⟨c, by simp, hc⟩)
  · refine ⟨report, other, hreads.report_eq.trans hreport,
      hreads'.report_eq.trans (hlocation other hother), ?_, ?_, ?_⟩
    · simpa using hsame
    · intro w hw
      rw [← List.flatMap_append] at hw
      obtain ⟨e, -, he⟩ := List.mem_flatMap.mp hw
      exact (source_of_mem_ownWarnings he).2
    · intro w hw
      rcases List.mem_append.mp hw with hw | hw
      · exact source_of_mem_ownWarnings hw
      · rw [← hsource]
        exact source_of_mem_ownWarnings hw

/-- Seeds around one that has the first id too. It gives way to the one behind it. -/
def neighbours : List Candidate × List Candidate :=
  ([⟨"a.json", ⟨some 1, none, some 0, none, none, some 400, some 400, none⟩⟩],
    [⟨"b.json", ⟨some 1, none, some 0, some "CRASH", none, some 500, some 500, some "BUG"⟩⟩,
      ⟨"c.json", ⟨some 2, some 1, some 1, none, some 500, some 900, some 400, none⟩⟩])

/-- The seed between them, and one that states nothing else alike than id and file name. -/
def loser : Candidate × Candidate :=
  (⟨"b.json", ⟨some 1, none, some 0, none, none, some 450, some 450, none⟩⟩,
    ⟨"b.json", ⟨some 1, some 9, some 7, some "lost", some 5, some 20000, some 3, some "BUG"⟩⟩)

/-- A source whose state says which of the two it gives. -/
def disputed : Source (StateM Bool) where
  location := "campaign"
  globalState := return .ok ⟨2, 900, none, none⟩
  candidates := do
    match ← get with
    | false => return .ok ⟨neighbours.1 ++ loser.1 :: neighbours.2, []⟩
    | true => return .ok ⟨neighbours.1 ++ loser.2 :: neighbours.2, []⟩

theorem disputed_loser_replaced :
    loser.1.isComplete ∧ Loses neighbours.1 neighbours.2 loser.1 ∧ loser.2.isComplete ∧
    loser.2.metadata.id = loser.1.metadata.id ∧ loser.2.source = loser.1.source ∧
    ∃ report other, (disputed.report.run false).1 = .ok report ∧
      (disputed.report.run true).1 = .ok other ∧
      report.bugs = [(1, 1), (2, 1)] ∧ report.SameFigures other ∧
      report.warnings.map Warning.kind = [.duplicateId, .duplicateId] ∧
      other.warnings.map Warning.kind
        = [.invalidRecord, .incrementMismatch, .duplicateId, .duplicateId] := by
  have hreads : disputed.Reads false ⟨2, 900, none, none⟩
      ⟨neighbours.1 ++ loser.1 :: neighbours.2, []⟩ := ⟨false, rfl, rfl⟩
  have hreads' : disputed.Reads true ⟨2, 900, none, none⟩
      ⟨neighbours.1 ++ loser.2 :: neighbours.2, []⟩ := ⟨true, rfl, rfl⟩
  have hloses : Loses neighbours.1 neighbours.2 loser.1 :=
    .inr ⟨_, List.mem_cons_self, rfl, rfl, rfl⟩
  obtain ⟨report, other, hreport, hother, hsame, -, -⟩ :=
    report_loser_replaced hreads hreads' rfl hloses rfl rfl rfl
  refine ⟨rfl, hloses, rfl, rfl, rfl, report, other, hreport, hother, ?_, hsame.toSameFigures,
    ?_, ?_⟩
  · obtain rfl := Except.ok.inj hreport
    rfl
  · obtain rfl := Except.ok.inj hreport
    rfl
  · obtain rfl := Except.ok.inj hother
    rfl

end Source

end FuzzCampaign
