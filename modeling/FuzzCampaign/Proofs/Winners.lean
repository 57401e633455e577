import FuzzCampaign.Proofs.Arrangement

/-!
Which candidate stands for an id. Of the complete candidates with an id, the one with the greatest
file name wins, and of those with that name the latest; the others leave no record. Main statement:
validation's records are the winners' records in strictly ascending order of their ids, and no other
list is.
-/

namespace FuzzCampaign

open Seed

/-- Whether a candidate stands for an id: it is complete and has the id, and every other such one has
a file name with lesser bytes, or the same file name and an earlier place. -/
def Wins (cs : List Candidate) (k : Nat) (c : Candidate) : Prop :=
  ∃ i, cs[i]? = some c ∧ c.isComplete ∧ c.metadata.id = some k ∧
    ∀ (j : Nat) (d : Candidate), cs[j]? = some d → d.isComplete → d.metadata.id = some k →
      Text.encode d.source < Text.encode c.source ∨ d.source = c.source ∧ j ≤ i

/-- Two candidates that stand for one id are the same. -/
theorem Wins.unique {cs : List Candidate} {k : Nat} {c d : Candidate} (hc : Wins cs k c)
    (hd : Wins cs k d) : c = d := by
  obtain ⟨i, hi, hcc, hck, hcmax⟩ := hc
  obtain ⟨j, hj, hdc, hdk, hdmax⟩ := hd
  rcases hcmax j d hj hdc hdk with hlt | ⟨heq, hji⟩ <;>
    rcases hdmax i c hi hcc hck with hlt' | ⟨heq', hij⟩
  · exact absurd hlt' (List.lt_asymm hlt)
  · exact absurd (heq' ▸ hlt) (List.lt_irrefl _)
  · exact absurd (heq ▸ hlt') (List.lt_irrefl _)
  · obtain rfl : i = j := by omega
    exact Option.some.inj (hi.symm.trans hj)

theorem Wins.mem {cs : List Candidate} {k : Nat} {c : Candidate} (h : Wins cs k c) : c ∈ cs := by
  obtain ⟨i, hi, -⟩ := h
  exact List.mem_of_getElem? hi

/-- The last entry with its id. -/
def Entry.IsLast (L : List Entry) (e : Entry) : Prop :=
  e ∈ L ∧ ∀ f ∈ L, f.record.id = e.record.id → f = e ∨ f.Before e

/-- A candidate stands for an id exactly when its entry is the last with the id. -/
theorem wins_iff {cs : List Candidate} {k : Nat} {c : Candidate} :
    Wins cs k c ↔ ∃ e : Entry, e.IsLast (arrangement cs) ∧ e.record.id = k ∧ e.candidate = c := by
  constructor
  · rintro ⟨i, hi, hcomplete, hk, hmax⟩
    obtain ⟨r, hr, hrk⟩ := Candidate.isComplete_and_id_iff.mp ⟨hcomplete, hk⟩
    refine ⟨⟨i, c, r, hr⟩, ⟨mem_arrangement.mpr hi, fun f hf hfid => ?_⟩, hrk, rfl⟩
    obtain ⟨hfcomplete, hfk⟩ :=
      Candidate.isComplete_and_id_iff.mpr ⟨f.record, f.made, hfid.trans hrk⟩
    have hfat := mem_arrangement.mp hf
    rcases hmax f.place f.candidate hfat hfcomplete hfk with hs | ⟨hs, hp⟩
    · exact .inr (.inr ⟨hfid, .inl hs⟩)
    · rcases Nat.lt_or_eq_of_le hp with hp | hp
      · exact .inr (.inr ⟨hfid, .inr ⟨hs, hp⟩⟩)
      · have hfc : f.candidate = c := Option.some.inj (hfat.symm.trans (hp ▸ hi))
        exact .inl (Entry.ext_candidate hp hfc)
  · rintro ⟨e, ⟨he, hlast⟩, rfl, rfl⟩
    obtain ⟨hcomplete, hk⟩ := Candidate.isComplete_and_id_iff.mpr ⟨e.record, e.made, rfl⟩
    refine ⟨e.place, mem_arrangement.mp he, hcomplete, hk, fun j d hj hd hdk => ?_⟩
    obtain ⟨s, hs, hsid⟩ := Candidate.isComplete_and_id_iff.mp ⟨hd, hdk⟩
    rcases hlast ⟨j, d, s, hs⟩ (mem_arrangement.mpr hj) hsid with rfl | hid | ⟨-, hsrc | ⟨hsrc, hp⟩⟩
    · exact .inr ⟨rfl, Nat.le_refl _⟩
    · exact absurd hsid (Nat.ne_of_lt hid)
    · exact .inl hsrc
    · exact .inr ⟨hsrc, Nat.le_of_lt hp⟩

/-! ### Survivors of an ordered list -/

theorem survivors_sublist (rs : List Record) : (Validation.survivors rs).Sublist rs := by
  fun_induction Validation.survivors rs with
  | case1 => exact .slnil
  | case2 r => exact .refl _
  | case3 r s rest _ ih => exact ih.cons r
  | case4 r s rest _ ih => exact ih.cons_cons r

/-- No id is lost. -/
theorem id_mem_survivors (rs : List Record) (k : Nat) :
    (∃ r ∈ Validation.survivors rs, r.id = k) ↔ ∃ r ∈ rs, r.id = k := by
  fun_induction Validation.survivors rs with
  | case1 => rfl
  | case2 r => rfl
  | case3 r s rest hid ih =>
    rw [ih]
    constructor
    · rintro ⟨t, ht, rfl⟩
      exact ⟨t, List.mem_cons_of_mem r ht, rfl⟩
    · rintro ⟨t, ht, rfl⟩
      rcases List.mem_cons.mp ht with rfl | ht
      · exact ⟨s, List.mem_cons_self, hid.symm⟩
      · exact ⟨t, ht, rfl⟩
  | case4 r s rest hid ih => simp only [List.mem_cons, exists_eq_or_imp] at ih ⊢; rw [ih]

theorem survivors_pairwise {rs : List Record} (h : rs.Pairwise fun r s => r.id ≤ s.id) :
    (Validation.survivors rs).Pairwise fun r s => r.id < s.id := by
  fun_induction Validation.survivors rs with
  | case1 => exact .nil
  | case2 r => exact List.pairwise_singleton _ _
  | case3 r s rest hid ih => exact ih h.tail
  | case4 r s rest hid ih =>
    obtain ⟨hr, hrest⟩ := List.pairwise_cons.mp h
    refine List.pairwise_cons.mpr ⟨fun t ht => ?_, ih hrest⟩
    -- the neighbour's id is greater, and every later one is at least the neighbour's
    have hrs : r.id < s.id := Nat.lt_of_le_of_ne (hr s List.mem_cons_self) hid
    rcases List.mem_cons.mp ((survivors_sublist _).subset ht) with rfl | ht
    · exact hrs
    · exact Nat.lt_of_lt_of_le hrs ((List.pairwise_cons.mp hrest).1 t ht)

/-! ### The last entries of an ordered list -/

section

variable {L : List Entry} {e f : Entry} {r : Record}

/-- An entry in front changes nothing about which of the others are last. -/
theorem Entry.isLast_cons_iff (h : (e :: L).Pairwise Entry.Before) (hf : f ∈ L) :
    f.IsLast (e :: L) ↔ f.IsLast L := by
  constructor
  · rintro ⟨-, hlast⟩
    exact ⟨hf, fun g hg => hlast g (List.mem_cons_of_mem e hg)⟩
  · rintro ⟨-, hlast⟩
    refine ⟨List.mem_cons_of_mem e hf, fun g hg hid => ?_⟩
    rcases List.mem_cons.mp hg with rfl | hg
    · exact .inr ((List.pairwise_cons.mp h).1 f hf)
    · exact hlast g hg hid

/-- The first entry is last with its id only if no other one has it. -/
theorem Entry.isLast_cons_self_iff (h : (e :: L).Pairwise Entry.Before) :
    e.IsLast (e :: L) ↔ ∀ g ∈ L, g.record.id ≠ e.record.id := by
  constructor
  · rintro ⟨-, hlast⟩ g hg hid
    have heg : e.Before g := (List.pairwise_cons.mp h).1 g hg
    rcases hlast g (List.mem_cons_of_mem e hg) hid with rfl | hge
    · exact heg.asymm heg
    · exact heg.asymm hge
  · intro hne
    refine ⟨List.mem_cons_self, fun g hg hid => ?_⟩
    rcases List.mem_cons.mp hg with rfl | hg
    · exact .inl rfl
    · exact absurd hid (hne g hg)

theorem exists_isLast_cons_iff (h : (e :: L).Pairwise Entry.Before) :
    (∃ g : Entry, g.IsLast (e :: L) ∧ g.record = r) ↔
      (∀ g ∈ L, g.record.id ≠ e.record.id) ∧ r = e.record ∨
        ∃ g : Entry, g.IsLast L ∧ g.record = r := by
  constructor
  · rintro ⟨g, hg, rfl⟩
    rcases List.mem_cons.mp hg.1 with rfl | hmem
    · exact .inl ⟨(Entry.isLast_cons_self_iff h).mp hg, rfl⟩
    · exact .inr ⟨g, (Entry.isLast_cons_iff h hmem).mp hg, rfl⟩
  · rintro (⟨hne, rfl⟩ | ⟨g, hg, hr⟩)
    · exact ⟨e, (Entry.isLast_cons_self_iff h).mpr hne, rfl⟩
    · exact ⟨g, (Entry.isLast_cons_iff h hg.1).mpr hg, hr⟩

end

/-- Of an ordered list of entries the last ones of their ids survive. -/
theorem mem_survivors_iff : ∀ {L : List Entry}, L.Pairwise Entry.Before → ∀ {r : Record},
    r ∈ Validation.survivors (L.map Entry.record) ↔ ∃ e : Entry, e.IsLast L ∧ e.record = r
  | [], _, r => by simp [Validation.survivors, Entry.IsLast]
  | [e], h, r => by
    rw [exists_isLast_cons_iff h]
    simp [Validation.survivors, Entry.IsLast]
  | e :: f :: rest, h, r => by
    obtain ⟨he, hrest⟩ := List.pairwise_cons.mp h
    have hef : e.Before f := he f List.mem_cons_self
    rw [exists_isLast_cons_iff h, ← mem_survivors_iff hrest]
    simp only [List.map_cons, Validation.survivors]
    by_cases hid : e.record.id = f.record.id
    · rw [if_pos hid, iff_or_self]
      rintro ⟨hne, -⟩
      exact absurd hid.symm (hne f List.mem_cons_self)
    · -- the ids behind are at least the neighbour's, so none of them is this one
      have hne : ∀ g ∈ f :: rest, g.record.id ≠ e.record.id := by
        intro g hg hge
        have hfg := Entry.id_le_of_mem_cons (hrest.imp Entry.Before.id_le) hg
        have := hef.id_le
        omega
      rw [if_neg hid, List.mem_cons]
      exact or_congr_left ⟨fun hr => ⟨hne, hr⟩, And.right⟩

/-! ### The records of a list of candidates -/

theorem ordered_pairwise (cs : List Candidate) :
    (Validation.ordered cs).Pairwise fun r s => r.id ≤ s.id := by
  rw [← map_record_arrangement, List.pairwise_map]
  exact (arrangement_pairwise cs).imp Entry.Before.id_le

theorem records_pairwise (cs : List Candidate) :
    (validate cs).records.Pairwise fun r s => r.id < s.id :=
  survivors_pairwise (ordered_pairwise cs)

/-- A record is kept exactly when its candidate stands for its id. -/
theorem mem_records_iff {cs : List Candidate} {r : Record} :
    r ∈ (validate cs).records ↔ ∃ c, Wins cs r.id c ∧ c.record? = some r := by
  have hrecords : (validate cs).records
      = Validation.survivors ((arrangement cs).map Entry.record) := by
    rw [map_record_arrangement]; rfl
  rw [hrecords, mem_survivors_iff (arrangement_pairwise cs)]
  constructor
  · rintro ⟨e, he, rfl⟩
    exact ⟨e.candidate, wins_iff.mpr ⟨e, he, rfl, rfl⟩, e.made⟩
  · rintro ⟨c, hc, hr⟩
    obtain ⟨e, he, -, rfl⟩ := wins_iff.mp hc
    exact ⟨e, he, Option.some.inj (e.made.symm.trans hr)⟩

/-- A winner's record is kept. -/
theorem Wins.exists_record {cs : List Candidate} {k : Nat} {c : Candidate} (h : Wins cs k c) :
    ∃ r ∈ (validate cs).records, c.record? = some r ∧ r.id = k := by
  obtain ⟨i, -, hcomplete, hk, -⟩ := id h
  obtain ⟨r, hr, hrk⟩ := Candidate.isComplete_and_id_iff.mp ⟨hcomplete, hk⟩
  exact ⟨r, mem_records_iff.mpr ⟨c, hrk ▸ h, hr⟩, hr, hrk⟩

/-- An id has a record exactly when a complete candidate has it. -/
theorem exists_record_iff {cs : List Candidate} {k : Nat} :
    (∃ r ∈ (validate cs).records, r.id = k) ↔
      ∃ c ∈ cs, c.isComplete ∧ c.metadata.id = some k := by
  have hordered : ∀ r, r ∈ Validation.ordered cs ↔ ∃ c ∈ cs, c.record? = some r := by
    intro r
    rw [Validation.ordered, mem_sortBy, List.mem_filterMap]
  rw [validate, id_mem_survivors]
  constructor
  · rintro ⟨r, hr, hk⟩
    obtain ⟨c, hc, hcr⟩ := (hordered r).mp hr
    exact ⟨c, hc, Candidate.isComplete_and_id_iff.mpr ⟨r, hcr, hk⟩⟩
  · rintro ⟨c, hc, hck⟩
    obtain ⟨r, hcr, hk⟩ := Candidate.isComplete_and_id_iff.mp hck
    exact ⟨r, (hordered r).mpr ⟨c, hc, hcr⟩, hk⟩

/-- Some record is left exactly when some candidate is complete. -/
theorem records_ne_nil_iff {cs : List Candidate} :
    (validate cs).records ≠ [] ↔ ∃ c ∈ cs, c.isComplete := by
  constructor
  · intro hne
    obtain ⟨r, hr⟩ := List.exists_mem_of_ne_nil _ hne
    obtain ⟨c, hc, hcomplete, -⟩ := exists_record_iff.mp ⟨r, hr, rfl⟩
    exact ⟨c, hc, hcomplete⟩
  · rintro ⟨c, hc, hcomplete⟩
    obtain ⟨s, hs⟩ := Candidate.isComplete_iff.mp hcomplete
    have hid := (Candidate.makes_of_record? hs).id
    obtain ⟨r, hr, -⟩ := exists_record_iff.mpr ⟨c, hc, hcomplete, hid⟩
    exact List.ne_nil_of_mem hr

theorem records_eq_nil_iff {cs : List Candidate} :
    (validate cs).records = [] ↔ ∀ c ∈ cs, ¬c.isComplete := by
  rw [← Decidable.not_iff_not, ← ne_eq, records_ne_nil_iff]
  simp

/-- Some candidate stands for the id of every complete candidate. -/
theorem exists_wins {cs : List Candidate} {k : Nat}
    (h : ∃ c ∈ cs, c.isComplete ∧ c.metadata.id = some k) : ∃ c, Wins cs k c := by
  obtain ⟨r, hr, rfl⟩ := exists_record_iff.mpr h
  obtain ⟨c, hc, -⟩ := mem_records_iff.mp hr
  exact ⟨c, hc⟩

/-- Records that ascend strictly by id and are those of the winners are the ones of validation. -/
theorem eq_records_of_winners {cs : List Candidate} {rs : List Record}
    (hasc : rs.Pairwise fun r s => r.id < s.id)
    (hmem : ∀ r, r ∈ rs ↔ ∃ c, Wins cs r.id c ∧ c.record? = some r) :
    rs = (validate cs).records :=
  eq_of_pairwise_of_mem_iff (fun _ _ => Nat.lt_asymm) hasc (records_pairwise cs)
    fun r => (hmem r).trans mem_records_iff.symm

/-- The records of validation are exactly those that ascend strictly by id, have the ids of the
complete candidates, and are each the record of the candidate that stands for the id. -/
theorem eq_validate_records_iff (cs : List Candidate) (rs : List Record) :
    rs = (validate cs).records ↔
      (rs.map (·.id)).Pairwise (· < ·) ∧
      (∀ k, k ∈ rs.map (·.id) ↔ ∃ c ∈ cs, c.isComplete ∧ c.metadata.id = some k) ∧
      ∀ r ∈ rs, ∃ c, Wins cs r.id c ∧ c.record? = some r := by
  simp only [List.pairwise_map, List.mem_map]
  constructor
  · rintro rfl
    exact ⟨records_pairwise cs, fun k => exists_record_iff, fun r => mem_records_iff.mp⟩
  · rintro ⟨hasc, hids, hwin⟩
    refine eq_records_of_winners hasc fun r => ⟨hwin r, ?_⟩
    -- the id of a winner has a record, and it can only be the winner's
    rintro ⟨c, hc, hr⟩
    obtain ⟨i, hi, hcomplete, hk, -⟩ := id hc
    obtain ⟨s, hs, hsr⟩ := (hids r.id).mpr ⟨c, List.mem_of_getElem? hi, hcomplete, hk⟩
    obtain ⟨d, hd, hds⟩ := hwin s hs
    obtain rfl := hc.unique (hsr ▸ hd)
    obtain rfl : s = r := Option.some.inj (hds.symm.trans hr)
    exact hs

end FuzzCampaign
