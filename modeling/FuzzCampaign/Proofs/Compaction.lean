import FuzzCampaign.Proofs.FileAccounting

/-!
What can be left out before candidates are validated. An id goes to the candidate with the greatest
file name and, of those with that name, to the latest, and this can be found out piece by piece: who
wins in two lists is decided between the winners of each. Main statement: candidates that come
first, or that follow others, can be replaced by their winners in any order without changing a
record; the winners by themselves lose nothing; and of the warnings on superseded candidates none is
lost or given twice on the way.
-/

namespace FuzzCampaign

open Seed

/-- Whether a candidate can stand for an id. -/
def Seed.Candidate.Contends (k : Nat) (c : Candidate) : Prop :=
  c.isComplete ∧ c.metadata.id = some k

instance (k : Nat) (c : Candidate) : Decidable (c.Contends k) :=
  inferInstanceAs (Decidable (_ ∧ _))

/-! ### Winners of lists that are put together -/

section

variable {as as' bs bs' cs : List Candidate} {k : Nat} {c d : Candidate}

theorem Wins.contends (h : Wins cs k c) : c.Contends k := by
  obtain ⟨i, -, hcomplete, hk, -⟩ := h
  exact ⟨hcomplete, hk⟩

/-- No candidate with the id has a greater file name than the winner. -/
theorem Wins.source_le (h : Wins cs k c) (hd : d ∈ cs) (hdk : d.Contends k) :
    d.source ≤ c.source := by
  obtain ⟨i, -, -, -, hmax⟩ := h
  obtain ⟨j, hj⟩ := List.mem_iff_getElem?.mp hd
  rcases hmax j d hj hdk.1 hdk.2 with hlt | ⟨heq, -⟩
  · exact Std.le_of_lt (Text.encode_lt_encode_iff.mp hlt)
  · exact heq ▸ String.le_refl _

/-- A candidate in front wins only over lesser file names, and is beaten by any that is not lesser.
-/
theorem wins_cons_iff :
    Wins (d :: cs) k c ↔
      Wins cs k c ∧ (d.Contends k → d.source ≤ c.source) ∨
        c = d ∧ d.Contends k ∧ ∀ e ∈ cs, e.Contends k → e.source < d.source := by
  constructor
  · intro h
    have hle : d.Contends k → d.source ≤ c.source := h.source_le List.mem_cons_self
    obtain ⟨i, hi, hcomplete, hk, hmax⟩ := h
    cases i with
    | zero =>
      obtain rfl : d = c := by simpa using hi
      refine .inr ⟨rfl, ⟨hcomplete, hk⟩, fun e he hek => ?_⟩
      obtain ⟨j, hj⟩ := List.mem_iff_getElem?.mp he
      rcases hmax (j + 1) e hj hek.1 hek.2 with hlt | ⟨-, hplace⟩
      · exact Text.encode_lt_encode_iff.mp hlt
      · omega
    | succ i =>
      refine .inl ⟨⟨i, hi, hcomplete, hk, fun j e hj he hek => ?_⟩, hle⟩
      rcases hmax (j + 1) e hj he hek with hlt | ⟨heq, hplace⟩
      · exact .inl hlt
      · exact .inr ⟨heq, Nat.le_of_succ_le_succ hplace⟩
  · rintro (⟨⟨i, hi, hcomplete, hk, hmax⟩, hle⟩ | ⟨rfl, ⟨hcomplete, hk⟩, hlt⟩)
    · refine ⟨i + 1, hi, hcomplete, hk, fun j e hj he hek => ?_⟩
      cases j with
      | zero =>
        obtain rfl : d = e := by simpa using hj
        by_cases hsource : d.source = c.source
        · exact .inr ⟨hsource, Nat.zero_le _⟩
        · exact .inl (Text.encode_lt_encode_iff.mpr (Std.lt_of_le_of_ne (hle ⟨he, hek⟩) hsource))
      | succ j =>
        exact (hmax j e hj he hek).imp_right fun ⟨heq, hplace⟩ => ⟨heq, Nat.succ_le_succ hplace⟩
    · refine ⟨0, rfl, hcomplete, hk, fun j e hj he hek => ?_⟩
      cases j with
      | zero =>
        obtain rfl : c = e := by simpa using hj
        exact .inr ⟨rfl, Nat.le_refl _⟩
      | succ j =>
        exact .inl (Text.encode_lt_encode_iff.mpr (hlt e (List.mem_of_getElem? hj) ⟨he, hek⟩))

theorem not_wins_nil : ¬Wins [] k c := fun h => List.not_mem_nil h.mem

instance decidableWins : ∀ (cs : List Candidate) (k : Nat) (c : Candidate), Decidable (Wins cs k c)
  | [], _, _ => isFalse not_wins_nil
  | _ :: cs, k, c =>
    have := decidableWins cs k c
    decidable_of_iff _ wins_cons_iff.symm

/-- The winner of two lists is the one of the first list, if none of the second list is as great, or
else the one of the second list. -/
theorem wins_append_iff :
    Wins (as ++ bs) k c ↔
      Wins as k c ∧ (∀ d ∈ bs, d.Contends k → d.source < c.source) ∨
        Wins bs k c ∧ ∀ d ∈ as, d.Contends k → d.source ≤ c.source := by
  induction as with
  | nil => simp [not_wins_nil]
  | cons a rest ih =>
    rw [List.cons_append, wins_cons_iff, wins_cons_iff, ih]
    simp only [List.forall_mem_cons, List.forall_mem_append]
    constructor
    · rintro (⟨⟨hc, hbs⟩ | ⟨hc, hrest⟩, ha⟩ | ⟨rfl, hk, hrest, hbs⟩)
      · exact .inl ⟨.inl ⟨hc, ha⟩, hbs⟩
      · exact .inr ⟨hc, ha, hrest⟩
      · exact .inl ⟨.inr ⟨rfl, hk, hrest⟩, hbs⟩
    · rintro (⟨⟨hc, ha⟩ | ⟨rfl, hk, hrest⟩, hbs⟩ | ⟨hc, ha, hrest⟩)
      · exact .inl ⟨.inl ⟨hc, hbs⟩, ha⟩
      · exact .inr ⟨rfl, hk, hrest, hbs⟩
      · exact .inl ⟨.inr ⟨hc, hrest⟩, ha⟩

/-- What bounds the winner's file name bounds those of all candidates with the id. -/
theorem forall_contends_iff {P : String → Prop} (hP : ∀ s t, s ≤ t → P t → P s) :
    (∀ d ∈ cs, d.Contends k → P d.source) ↔ ∀ d, Wins cs k d → P d.source := by
  constructor
  · exact fun h d hd => h d hd.mem hd.contends
  · intro h d hd hdk
    obtain ⟨c, hc⟩ := exists_wins ⟨d, hd, hdk⟩
    exact hP _ _ (hc.source_le hd hdk) (h c hc)

/-- The winners of two lists are known from the winners of each. -/
theorem wins_append_congr (has : ∀ k c, Wins as k c ↔ Wins as' k c)
    (hbs : ∀ k c, Wins bs k c ↔ Wins bs' k c) (k : Nat) (c : Candidate) :
    Wins (as ++ bs) k c ↔ Wins (as' ++ bs') k c := by
  have hlt : ∀ s t : String, s ≤ t → t < c.source → s < c.source := fun s t => Std.lt_of_le_of_lt
  have hle : ∀ s t : String, s ≤ t → t ≤ c.source → s ≤ c.source := fun s t => String.le_trans
  simp only [wins_append_iff, forall_contends_iff hlt, forall_contends_iff hle, has, hbs]

/-- Lists with the same winners have the same records. -/
theorem records_congr (h : ∀ k c, Wins as k c ↔ Wins bs k c) :
    (validate as).records = (validate bs).records :=
  eq_records_of_winners (records_pairwise as) fun r =>
    mem_records_iff.trans (exists_congr fun c => and_congr_left' (h r.id c))

end

/-! ### Lists of winners -/

/-- Whether a list holds the winners of another one, each once and in whatever order. -/
structure IsWinners (cs ws : List Candidate) : Prop where
  mem_iff : ∀ c, c ∈ ws ↔ ∃ k, Wins cs k c
  nodup : ws.Nodup

theorem exists_isWinners (cs : List Candidate) : ∃ ws, IsWinners cs ws := by
  classical
  refine ⟨cs.dedup.filter fun c => ∃ k, Wins cs k c, fun c => ?_, cs.nodup_dedup.filter _⟩
  rw [List.mem_filter, List.mem_dedup, decide_eq_true_iff, and_iff_right_iff_imp]
  rintro ⟨k, hc⟩
  exact hc.mem

/-- Candidates that win and have the ids of all records are the winners. -/
theorem isWinners_of_forall {cs ws : List Candidate} (hnodup : ws.Nodup)
    (hwins : ∀ c ∈ ws, ∃ k ∈ c.metadata.id, Wins cs k c)
    (hids : ∀ r ∈ (validate cs).records, ∃ c ∈ ws, c.metadata.id = some r.id) :
    IsWinners cs ws where
  nodup := hnodup
  mem_iff c := by
    constructor
    · intro hc
      obtain ⟨k, -, hwin⟩ := hwins c hc
      exact ⟨k, hwin⟩
    · rintro ⟨k, hc⟩
      obtain ⟨r, hr, -, rfl⟩ := hc.exists_record
      obtain ⟨d, hd, hdr⟩ := hids r hr
      obtain ⟨j, hj, hwin⟩ := hwins d hd
      obtain rfl : r.id = j := Option.some.inj (hdr.symm.trans hj)
      exact hc.unique hwin ▸ hd

namespace IsWinners

variable {cs ws : List Candidate}

/-- Winners for one id are the same. -/
theorem eq_of_contends (h : IsWinners cs ws) {c d : Candidate} {k : Nat} (hc : c ∈ ws) (hd : d ∈ ws)
    (hck : c.Contends k) (hdk : d.Contends k) : c = d := by
  have hwins : ∀ e ∈ ws, e.Contends k → Wins cs k e := by
    intro e he hek
    obtain ⟨j, hj⟩ := (h.mem_iff e).mp he
    obtain rfl : j = k := Option.some.inj (hj.contends.2.symm.trans hek.2)
    exact hj
  exact (hwins c hc hck).unique (hwins d hd hdk)

/-- Among themselves the winners win again. -/
theorem wins_iff (h : IsWinners cs ws) (k : Nat) (c : Candidate) : Wins ws k c ↔ Wins cs k c := by
  constructor
  · intro hc
    obtain ⟨j, hj⟩ := (h.mem_iff c).mp hc.mem
    obtain rfl : j = k := Option.some.inj (hj.contends.2.symm.trans hc.contends.2)
    exact hj
  · intro hc
    have hmem : c ∈ ws := (h.mem_iff c).mpr ⟨k, hc⟩
    obtain ⟨d, hd⟩ := exists_wins ⟨c, hmem, hc.contends⟩
    obtain rfl := h.eq_of_contends hmem hd.mem hc.contends hd.contends
    exact hd

/-- No two records of winners have one id. -/
theorem ids_ne (h : IsWinners cs ws) :
    (Validation.ordered ws).Pairwise fun r s => r.id ≠ s.id := by
  refine (sortBy_perm _ _).symm.pairwise ?_ fun hrs => hrs.symm
  refine List.pairwise_filterMap.mpr (h.nodup.imp_of_mem fun {c d} hc hd hne r hr s hs hid => ?_)
  have hcr : c.Contends r.id := Candidate.isComplete_and_id_iff.mpr ⟨r, hr, rfl⟩
  have hds : d.Contends r.id := Candidate.isComplete_and_id_iff.mpr ⟨s, hs, hid.symm⟩
  exact hne (h.eq_of_contends hc hd hcr hds)

/-- There is one winner for the id of each record, and no other one. -/
theorem ids_perm (h : IsWinners cs ws) :
    (ws.map (·.metadata.id)).Perm ((validate cs).records.map fun r => some r.id) := by
  have hwinners : (ws.map (·.metadata.id)).Nodup := by
    refine List.pairwise_map.mpr (h.nodup.imp_of_mem fun {c d} hc hd hne hid => hne ?_)
    obtain ⟨k, hk⟩ := (h.mem_iff c).mp hc
    obtain ⟨j, hj⟩ := (h.mem_iff d).mp hd
    exact h.eq_of_contends hc hd hk.contends ⟨hj.contends.1, hid ▸ hk.contends.2⟩
  have hrecords : ((validate cs).records.map fun r => some r.id).Nodup :=
    List.pairwise_map.mpr ((records_pairwise cs).imp fun hlt heq =>
      Nat.ne_of_lt hlt (Option.some.inj heq))
  refine (List.perm_ext_iff_of_nodup hwinners hrecords).mpr fun id => ?_
  rw [List.mem_map, List.mem_map]
  constructor
  · rintro ⟨c, hc, rfl⟩
    obtain ⟨k, hk⟩ := (h.mem_iff c).mp hc
    obtain ⟨r, hr, -, rfl⟩ := hk.exists_record
    exact ⟨r, hr, hk.contends.2.symm⟩
  · rintro ⟨r, hr, rfl⟩
    obtain ⟨c, hc, -⟩ := mem_records_iff.mp hr
    exact ⟨c, (h.mem_iff c).mpr ⟨r.id, hc⟩, hc.contends.2⟩

end IsWinners

/-! ### Warnings on superseded candidates -/

namespace Validation

/-- Records of different ids do not supersede each other. -/
theorem supersessions_eq_nil {rs : List Record} (h : rs.Pairwise fun r s => r.id ≠ s.id) :
    supersessions rs = [] := by
  fun_induction supersessions rs with
  | case1 r s rest hid ih => exact absurd hid ((List.pairwise_cons.mp h).1 s List.mem_cons_self)
  | case2 r s rest hid ih => exact ih h.tail
  | case3 => rfl

/-- Each record either has a finding or survives. -/
theorem length_supersessions_add (rs : List Record) :
    (supersessions rs).length + (survivors rs).length = rs.length := by
  fun_induction survivors rs with
  | case1 => rfl
  | case2 r => rfl
  | case3 r s rest hid ih =>
    rw [supersessions, if_pos hid, List.length_cons, List.length_cons, ← ih]
    omega
  | case4 r s rest hid ih =>
    rw [supersessions, if_neg hid, List.length_cons, List.length_cons, ← ih]
    omega

end Validation

/-- The number of warnings of validation on superseded candidates. -/
def supersededCount (cs : List Candidate) : Nat :=
  ((validate cs).findings.map Finding.warning).countP (·.kind = .duplicateId)

theorem supersededCount_eq (cs : List Candidate) :
    supersededCount cs = (Validation.supersessions (Validation.ordered cs)).length := by
  have hsingle : (cs.flatMap fun c => c.findings.map Finding.warning).countP
      (·.kind = .duplicateId) = 0 := by
    refine List.countP_eq_zero.mpr fun w hw hkind => ?_
    obtain ⟨c, -, hc⟩ := List.mem_flatMap.mp hw
    have hcandidate := isOfCandidate_of_mem hc
    rw [of_decide_eq_true hkind] at hcandidate
    exact Bool.false_ne_true hcandidate
  have hlinks : ((Validation.supersessions (Validation.ordered cs)).map Finding.warning).countP
      (·.kind = .duplicateId) = (Validation.supersessions (Validation.ordered cs)).length := by
    rw [List.countP_eq_length.mpr fun w hw => decide_eq_true (kind_of_mem_supersessions hw),
      List.length_map]
  rw [supersededCount, validate, List.map_append, List.countP_append, List.map_flatMap, hsingle,
    hlinks, Nat.zero_add]

/-- Each complete candidate is superseded or keeps its id. -/
theorem supersededCount_add (cs : List Candidate) :
    supersededCount cs + (validate cs).records.length = cs.countP Candidate.isComplete := by
  have hlength : (Validation.ordered cs).length = cs.countP Candidate.isComplete := by
    rw [Validation.ordered, (sortBy_perm _ _).length_eq, List.length_filterMap_eq_countP]
    refine List.countP_congr fun c _ => ?_
    rw [Option.isSome_iff_exists, Candidate.isComplete_iff]
  rw [supersededCount_eq, ← hlength]
  exact Validation.length_supersessions_add _

theorem IsWinners.droppedFiles_eq_nil {cs ws : List Candidate} (h : IsWinners cs ws) :
    droppedFiles (validate ws).findings = [] := by
  have hcomplete : droppedFiles (ws.flatMap Candidate.findings) = [] := by
    rw [droppedFiles, List.filterMap_flatMap, List.flatMap_eq_nil_iff]
    intro c hc
    obtain ⟨k, hk⟩ := (h.mem_iff c).mp hc
    obtain ⟨r, hr⟩ := Candidate.isComplete_iff.mp hk.contends.1
    change droppedFiles c.findings = []
    rw [droppedFiles_findings, hr]
    rfl
  rw [validate, droppedFiles_append, hcomplete, Validation.supersessions_eq_nil h.ids_ne]
  rfl

/-! ### Compaction -/

/-- Every list has its winners, one for the id of each of its records, in whatever order. Put in the
place of the list in front of others, or behind others, they lead to the same records; by themselves
they have its records, and none of them is superseded or lacks a field. The candidates superseded in two
lists are those superseded in the first one and then those superseded between its winners and the second
one. -/
theorem validate_compacted (as bs : List Candidate) :
    (∃ ws, IsWinners as ws) ∧ (∃ vs, IsWinners bs vs) ∧
    ∀ ws vs, IsWinners as ws → IsWinners bs vs →
      (ws.map (·.metadata.id)).Perm ((validate as).records.map fun r => some r.id) ∧
      (validate (as ++ bs)).records = (validate (ws ++ bs)).records ∧
      (validate (as ++ bs)).records = (validate (as ++ vs)).records ∧
      (validate ws).records = (validate as).records ∧
      (∀ w ∈ (validate ws).findings.map Finding.warning, w.isDropping = false) ∧
      supersededCount (as ++ bs) = supersededCount as + supersededCount (ws ++ bs) := by
  refine ⟨exists_isWinners as, exists_isWinners bs, fun ws vs hws hvs => ?_⟩
  have hfront : (validate (as ++ bs)).records = (validate (ws ++ bs)).records :=
    records_congr (wins_append_congr (fun k c => (hws.wins_iff k c).symm) fun _ _ => Iff.rfl)
  have hback : (validate (as ++ bs)).records = (validate (as ++ vs)).records :=
    records_congr (wins_append_congr (fun _ _ => Iff.rfl) fun k c => (hvs.wins_iff k c).symm)
  have hself : (validate ws).records = (validate as).records := records_congr hws.wins_iff
  refine ⟨hws.ids_perm, hfront, hback, hself, fun w hw => ?_, ?_⟩
  · have hnone := countP_isDropping (validate ws).findings
    rw [hws.droppedFiles_eq_nil, List.length_nil, List.countP_eq_zero] at hnone
    exact Bool.eq_false_iff.mpr (hnone w hw)
  · have hws0 : supersededCount ws = 0 := by
      rw [supersededCount_eq, Validation.supersessions_eq_nil hws.ids_ne, List.length_nil]
    -- both sides count the complete candidates that keep no id
    have hall := supersededCount_add (as ++ bs)
    have has := supersededCount_add as
    have hwinners := supersededCount_add ws
    have hmixed := supersededCount_add (ws ++ bs)
    rw [List.countP_append] at hall hmixed
    rw [hself] at hwinners
    rw [← hfront] at hmixed
    omega

/-- Seeds of which two share an id, two share the file name too, and one lacks its coverage. -/
def oldSeeds : List Candidate :=
  [⟨"b.json", ⟨some 1, none, some 0, none, none, some 500, some 500, none⟩⟩,
    ⟨"a.json", ⟨some 1, none, some 0, none, none, some 400, some 400, none⟩⟩,
    ⟨"a.json", ⟨some 2, none, some 0, none, none, some 600, some 600, none⟩⟩,
    ⟨"a.json", ⟨some 2, none, some 0, none, none, some 700, some 700, none⟩⟩,
    ⟨"z.json", ⟨some 1, none, some 0, none, none, none, some 900, none⟩⟩]

/-- Seeds of which some take over an id from the old ones and some do not. -/
def newSeeds : List Candidate :=
  [⟨"b.json", ⟨some 1, none, some 0, none, none, some 510, some 510, none⟩⟩,
    ⟨"a.json", ⟨some 1, none, some 0, none, none, some 410, some 410, none⟩⟩,
    ⟨"0.json", ⟨some 2, none, some 0, none, none, some 610, some 610, none⟩⟩]

theorem oldSeeds_compacted :
    let ws : List Candidate :=
      [⟨"a.json", ⟨some 2, none, some 0, none, none, some 700, some 700, none⟩⟩,
        ⟨"b.json", ⟨some 1, none, some 0, none, none, some 500, some 500, none⟩⟩]
    let vs : List Candidate :=
      [⟨"0.json", ⟨some 2, none, some 0, none, none, some 610, some 610, none⟩⟩,
        ⟨"b.json", ⟨some 1, none, some 0, none, none, some 510, some 510, none⟩⟩]
    IsWinners oldSeeds ws ∧ IsWinners newSeeds vs ∧
    (ws.map (·.metadata.id)).Perm ((validate oldSeeds).records.map fun r => some r.id) ∧
    (validate (oldSeeds ++ newSeeds)).records = (validate (ws ++ newSeeds)).records ∧
    (validate (oldSeeds ++ newSeeds)).records = (validate (oldSeeds ++ vs)).records ∧
    (validate ws).records = (validate oldSeeds).records ∧
    (∀ w ∈ (validate ws).findings.map Finding.warning, w.isDropping = false) ∧
    supersededCount (oldSeeds ++ newSeeds)
      = supersededCount oldSeeds + supersededCount (ws ++ newSeeds) := by
  intro ws vs
  have hws : IsWinners oldSeeds ws :=
    isWinners_of_forall (by decide) (by decide) (by decide)
  have hvs : IsWinners newSeeds vs :=
    isWinners_of_forall (by decide) (by decide) (by decide)
  exact ⟨hws, hvs, (validate_compacted oldSeeds newSeeds).2.2 ws vs hws hvs⟩

end FuzzCampaign
