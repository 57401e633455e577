import FuzzCampaign.Proofs.WarningText
import FuzzCampaign.Proofs.Winners

/-!
The warnings of validation, word for word. Each candidate gives its own first, in the order of the
candidates; then every complete candidate with a successor of the same id is superseded by it. Main
statement: the warnings are these and no others, and those of one id form a chain that leads from
each candidate to the next one and ends at the candidate that keeps the id.
-/

namespace FuzzCampaign

open Seed

/-! ### The warnings on one candidate -/

/-- The names of the required fields that metadata lacks. -/
def Seed.Metadata.absentNames (m : Metadata) : List String :=
  (if m.id.isNone then ["id"] else []) ++ (if m.newCoverage.isNone then ["new_cov"] else [])
    ++ (if m.increment.isNone then ["cov_incr"] else []) ++ (if m.depth.isNone then ["depth"] else [])

/-- The warning on a share, if it is above 10000. -/
def excessWarnings (source : String) (id : Nat) (name : String) (value : Nat) : List Warning :=
  if 10000 < value then
    [⟨.invalidRecord, some source, "id " ++ natText id ++ ": " ++ name ++ " = " ++ natText value
      ++ " exceeds 10000 basis points"⟩]
  else []

/-- The warning on an increment that differs from what coverage grew by. -/
def growthWarnings (source : String) (id increment growth : Nat) : List Warning :=
  if growth ≠ increment then
    [⟨.incrementMismatch, some source, "id " ++ natText id ++ ": cov_incr = " ++ natText increment
      ++ " but new_cov - old_cov = " ++ natText growth⟩]
  else []

/-- The warnings on a candidate by itself. -/
def Seed.Candidate.ownWarnings (c : Candidate) : List Warning :=
  match c.metadata.id, c.metadata.newCoverage, c.metadata.increment, c.metadata.depth with
  | some id, some new, some increment, some _ =>
    excessWarnings c.source id "new_cov" new ++ excessWarnings c.source id "cov_incr" increment
      ++ match c.metadata.oldCoverage with
        | some old => excessWarnings c.source id "old_cov" old
            ++ growthWarnings c.source id increment (new - old)
        | none => []
  | _, _, _, _ =>
    [⟨.invalidRecord, some c.source,
      "missing required field(s): " ++ String.intercalate ", " c.metadata.absentNames⟩]

theorem map_name_missing (c : Candidate) :
    c.missing.map RequiredField.name = c.metadata.absentNames := by
  obtain ⟨source, id, parent, depth, state, oldCov, newCov, increment, verdict⟩ := c
  cases id <;> cases newCov <;> cases increment <;> cases depth <;> rfl

theorem map_warning_aboveFull (source : String) (id : Nat) : ∀ shares : List (Share × Nat),
    ((shares.filter fun s => fullCoverage < s.2).map fun s =>
        (Finding.aboveFull source id s.1 s.2).warning)
      = shares.flatMap fun s => excessWarnings source id s.1.name s.2
  | [] => rfl
  | (share, value) :: rest => by
    rw [List.flatMap_cons, ← map_warning_aboveFull source id rest]
    by_cases h : fullCoverage < value
    · rw [List.filter_cons_of_pos (by simpa using h), List.map_cons, Finding.warning_aboveFull,
        excessWarnings, if_pos (show 10000 < value from h), List.singleton_append]
      simp only [String.append_assoc]
    · rw [List.filter_cons_of_neg (by simpa using h), excessWarnings,
        if_neg (show ¬10000 < value from h), List.nil_append]

theorem map_warning_rangeFindings (r : Record) :
    r.rangeFindings.map Finding.warning = excessWarnings r.source r.id "new_cov" r.newCoverage
      ++ excessWarnings r.source r.id "cov_incr" r.increment
      ++ r.oldCoverage.elim [] (excessWarnings r.source r.id "old_cov") := by
  rw [Record.rangeFindings, List.map_map]
  refine (map_warning_aboveFull r.source r.id r.shares).trans ?_
  cases hold : r.oldCoverage <;> simp [Record.shares, hold, Share.name]

theorem map_warning_incrementFindings (r : Record) :
    r.incrementFindings.map Finding.warning = r.oldCoverage.elim [] fun old =>
      growthWarnings r.source r.id r.increment (r.newCoverage - old) := by
  cases hold : r.oldCoverage with
  | none => simp [Record.incrementFindings, hold]
  | some old =>
    by_cases h : r.newCoverage - old = r.increment
    · simp [Record.incrementFindings, hold, growthWarnings, h]
    · simp [Record.incrementFindings, hold, growthWarnings, h, Finding.warning_incrementMismatch]

/-- What is found in a candidate makes the candidate's own warnings. -/
theorem map_warning_findings (c : Candidate) :
    c.findings.map Finding.warning = c.ownWarnings := by
  cases hr : c.record? with
  | none =>
    have hown : c.ownWarnings = [⟨.invalidRecord, some c.source,
        "missing required field(s): " ++ String.intercalate ", " c.metadata.absentNames⟩] := by
      unfold Candidate.ownWarnings
      split
      · next hid hnew hincr hdepth => simp [Candidate.record?, hid, hnew, hincr, hdepth] at hr
      · rfl
    rw [Candidate.findings, hr, hown, ← map_name_missing]
    rfl
  | some r =>
    have hmade := Candidate.makes_of_record? hr
    rw [Candidate.findings, hr, Candidate.ownWarnings, hmade.id, hmade.newCoverage,
      hmade.increment, hmade.depth, ← hmade.oldCoverage, ← hmade.source, List.map_append,
      map_warning_rangeFindings, map_warning_incrementFindings]
    cases r.oldCoverage <;> simp

/-- What can be found in a candidate by itself. -/
theorem Seed.Candidate.mem_findings {c : Candidate} {f : Finding} (h : f ∈ c.findings) :
    (c.record? = none ∧ f = .incomplete c.source c.missing) ∨
      ∃ r, c.record? = some r ∧ ((∃ share value, f = .aboveFull r.source r.id share value) ∨
        ∃ difference, f = .incrementMismatch r.source r.id r.increment difference) := by
  unfold Candidate.findings at h
  cases hr : c.record? with
  | none =>
    rw [hr] at h
    exact .inl ⟨rfl, List.mem_singleton.mp h⟩
  | some r =>
    rw [hr] at h
    refine .inr ⟨r, rfl, ?_⟩
    rcases List.mem_append.mp h with hrange | hincr
    · obtain ⟨s, -, rfl⟩ := List.mem_map.mp hrange
      exact .inl ⟨s.1, s.2, rfl⟩
    · unfold Record.incrementFindings at hincr
      split at hincr
      · split at hincr
        · exact .inr ⟨_, List.mem_singleton.mp hincr⟩
        · cases hincr
      · cases hincr

/-! ### Links between neighbours -/

/-- The warning on a candidate that gives way to the next one with its id. -/
def Entry.supersededBy (e f : Entry) : Warning :=
  ⟨.duplicateId, some e.candidate.source,
    "id " ++ natText e.record.id ++ " superseded by " ++ f.candidate.source⟩

/-- Whether a warning says that a candidate with an id was superseded. -/
def isLinkOf (k : Nat) (w : Warning) : Bool :=
  w.kind = .duplicateId ∧ w.detail.startsWith ("id " ++ natText k ++ " superseded by ")

theorem isLinkOf_supersededBy {k : Nat} {e f : Entry} :
    isLinkOf k (e.supersededBy f) ↔ e.record.id = k := by
  rw [isLinkOf, decide_eq_true_iff]
  constructor
  · rintro ⟨-, h⟩
    exact Finding.startsWith_supersededWords_iff.mp h
  · intro h
    exact ⟨rfl, Finding.startsWith_supersededWords_iff.mpr h⟩

/-- The links between the neighbours in a list that have one id. -/
def links (L : List Entry) : List Warning :=
  ((L.zip L.tail).filter fun p => p.1.record.id = p.2.record.id).map fun p => p.1.supersededBy p.2

theorem links_cons_cons (e f : Entry) (rest : List Entry) :
    links (e :: f :: rest)
      = if e.record.id = f.record.id then e.supersededBy f :: links (f :: rest)
        else links (f :: rest) := by
  by_cases h : e.record.id = f.record.id <;> simp [links, h]

theorem map_warning_supersessions : ∀ L : List Entry,
    (Validation.supersessions (L.map Entry.record)).map Finding.warning = links L
  | [] => rfl
  | [_] => rfl
  | e :: f :: rest => by
    have he := (Candidate.makes_of_record? e.made).source
    have hf := (Candidate.makes_of_record? f.made).source
    have ih := map_warning_supersessions (f :: rest)
    rw [List.map_cons] at ih
    rw [links_cons_cons, List.map_cons, List.map_cons, Validation.supersessions]
    by_cases h : e.record.id = f.record.id
    · rw [if_pos h, if_pos h, List.map_cons, ih, Finding.warning_superseded, he, hf]
      rfl
    · rw [if_neg h, if_neg h, ih]

/-- In an ordered list the links of an id run through the entries with the id, one after another. -/
theorem filter_links {k : Nat} : ∀ {L : List Entry},
    L.Pairwise (fun e f => e.record.id ≤ f.record.id) →
    (links L).filter (isLinkOf k)
      = List.zipWith Entry.supersededBy (L.filter (·.record.id = k))
          (L.filter (·.record.id = k)).tail
  | [], _ => rfl
  | [e], _ => by by_cases he : e.record.id = k <;> simp [links, he]
  | e :: f :: rest, h => by
    obtain ⟨hle, hrest⟩ := List.pairwise_cons.mp h
    have ih := filter_links (k := k) hrest
    rw [links_cons_cons]
    by_cases he : e.record.id = k
    · by_cases hf : f.record.id = k
      · rw [if_pos (he.trans hf.symm), List.filter_cons_of_pos (isLinkOf_supersededBy.mpr he), ih]
        simp [he, hf]
      · -- all that follow have greater ids, so the chain ends here
        have hnone : (f :: rest).filter (·.record.id = k) = [] := by
          refine List.filter_eq_nil_iff.mpr fun g hg => ?_
          have hfg := Entry.id_le_of_mem_cons hrest hg
          have hef := hle f List.mem_cons_self
          simp only [decide_eq_true_eq]
          omega
        rw [if_neg (fun hef => hf (hef.symm.trans he)), ih, hnone,
          List.filter_cons_of_pos (by simpa using he), hnone]
        rfl
    · rw [List.filter_cons_of_neg (by simpa using he), ← ih]
      by_cases hef : e.record.id = f.record.id
      · rw [if_pos hef, List.filter_cons_of_neg (fun hlink => he (isLinkOf_supersededBy.mp hlink))]
      · rw [if_neg hef]

/-- No candidate by itself gives a link. -/
theorem filter_isLinkOf_ownWarnings (k : Nat) (cs : List Candidate) :
    (cs.flatMap Candidate.ownWarnings).filter (isLinkOf k) = [] := by
  refine List.filter_eq_nil_iff.mpr fun w hw => ?_
  obtain ⟨c, -, hwc⟩ := List.mem_flatMap.mp hw
  rw [← map_warning_findings] at hwc
  obtain ⟨f, hf, rfl⟩ := List.mem_map.mp hwc
  have hkind : f.warning.kind ≠ .duplicateId := by
    rcases Candidate.mem_findings hf with ⟨-, rfl⟩ | ⟨r, -, ⟨share, value, rfl⟩ | ⟨d, rfl⟩⟩
    · exact Warning.Kind.noConfusion
    · exact Warning.Kind.noConfusion
    · exact Warning.Kind.noConfusion
  simp [isLinkOf, hkind]

/-! ### The chain of an id -/

/-- As many entries have an id as complete candidates do. -/
theorem length_filter_arrangement (cs : List Candidate) (k : Nat) :
    ((arrangement cs).filter (·.record.id = k)).length
      = cs.countP fun c => c.isComplete ∧ c.metadata.id = some k := by
  have hmap : ∀ L : List Entry, L.countP (·.record.id = k)
      = (L.map Entry.record).countP (·.id = k) := fun L => by rw [List.countP_map]; rfl
  rw [← List.countP_eq_length_filter, hmap, map_record_arrangement, Validation.ordered,
    (sortBy_perm _ _).countP_eq, List.countP_filterMap]
  refine List.countP_congr fun c _ => ?_
  rw [decide_eq_true_iff, Candidate.isComplete_and_id_iff]
  cases c.record? <;> simp

/-- The entry at the end of a chain keeps the id. -/
theorem record_mem_of_getLast? {cs : List Candidate} {k : Nat} {e : Entry}
    (h : ((arrangement cs).filter (·.record.id = k)).getLast? = some e) :
    e.record ∈ (validate cs).records := by
  obtain ⟨front, hsplit⟩ := List.getLast?_eq_some_iff.mp h
  have hsorted : (front ++ [e]).Pairwise Entry.Before :=
    hsplit ▸ (arrangement_pairwise cs).sublist List.filter_sublist
  have hmem : ∀ f, f ∈ front ++ [e] ↔ f ∈ arrangement cs ∧ f.record.id = k := by
    intro f
    rw [← hsplit, List.mem_filter, decide_eq_true_iff]
  obtain ⟨he, hek⟩ := (hmem e).mp (by simp)
  have hlast : e.IsLast (arrangement cs) := by
    refine ⟨he, fun f hf hid => ?_⟩
    rcases List.mem_append.mp ((hmem f).mpr ⟨hf, hid.trans hek⟩) with hfront | hfe
    · exact .inr ((List.pairwise_append.mp hsorted).2.2 f hfront e (by simp))
    · exact .inl (List.mem_singleton.mp hfe)
  exact mem_records_iff.mpr ⟨e.candidate, wins_iff.mpr ⟨e, hlast, rfl, rfl⟩, e.made⟩

/-- The warnings of validation are those of the candidates in the order given and then the links
between neighbours in the one strict order of the complete candidates. The links of an id join the
candidates that have it, in order and each to the next one, and the last of these keeps the id. -/
theorem validate_warnings_eq (cs : List Candidate) :
    ∃ L : List Entry, (∀ e, e ∈ L ↔ cs[e.place]? = some e.candidate) ∧ L.Pairwise Entry.Before ∧
      (validate cs).findings.map Finding.warning
        = cs.flatMap Candidate.ownWarnings
          ++ ((L.zip L.tail).filter fun p => p.1.record.id = p.2.record.id).map
            (fun p => p.1.supersededBy p.2) ∧
      ∀ k, ((validate cs).findings.map Finding.warning).filter (isLinkOf k)
          = List.zipWith Entry.supersededBy (L.filter (·.record.id = k))
              (L.filter (·.record.id = k)).tail ∧
        (((validate cs).findings.map Finding.warning).filter (isLinkOf k)).length
          = (cs.countP fun c => c.isComplete ∧ c.metadata.id = some k) - 1 ∧
        ∀ e, (L.filter (·.record.id = k)).getLast? = some e →
          e.record ∈ (validate cs).records := by
  have hall : (validate cs).findings.map Finding.warning
      = cs.flatMap Candidate.ownWarnings ++ links (arrangement cs) := by
    rw [validate, List.map_append, List.map_flatMap, funext map_warning_findings,
      ← map_record_arrangement, map_warning_supersessions]
  have hchain : ∀ k, ((validate cs).findings.map Finding.warning).filter (isLinkOf k)
      = List.zipWith Entry.supersededBy ((arrangement cs).filter (·.record.id = k))
          ((arrangement cs).filter (·.record.id = k)).tail := by
    intro k
    rw [hall, List.filter_append, filter_isLinkOf_ownWarnings, List.nil_append,
      filter_links ((arrangement_pairwise cs).imp Entry.Before.id_le)]
  refine ⟨arrangement cs, fun e => mem_arrangement, arrangement_pairwise cs, hall, fun k =>
    ⟨hchain k, ?_, fun e => record_mem_of_getLast?⟩⟩
  rw [hchain, List.length_zipWith, List.length_tail, length_filter_arrangement]
  omega

end FuzzCampaign
