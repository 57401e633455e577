import FuzzCampaign.Proofs.ByteOrder
import FuzzCampaign.Proofs.StableSort
import FuzzCampaign.Validation

/-!
The complete candidates of a list, each with its place, in the one order that their ids, the bytes of
their file names and their places give. Two candidates never share a place, so the order is strict
and the arrangement is known from its members. Main statement: the records of the arrangement are the
records that validation puts in order.
-/

namespace FuzzCampaign

open Seed

namespace Seed.Candidate

/-- Whether a candidate has every required field. -/
def isComplete (c : Candidate) : Bool :=
  c.metadata.id.isSome && c.metadata.newCoverage.isSome && c.metadata.increment.isSome
    && c.metadata.depth.isSome

/-- What the record of a candidate says of each field of its metadata. -/
structure Makes (c : Candidate) (r : Record) : Prop where
  id : c.metadata.id = some r.id
  newCoverage : c.metadata.newCoverage = some r.newCoverage
  increment : c.metadata.increment = some r.increment
  depth : c.metadata.depth = some r.depth
  oldCoverage : r.oldCoverage = c.metadata.oldCoverage
  parent : r.parent = c.metadata.parent
  verdict : r.verdict = (c.metadata.verdict.map Verdict.ofText).getD .unknown
  state : r.state = (c.metadata.state.filter (· ≠ "")).map State.ofText
  source : r.source = c.source

theorem makes_of_record? {c : Candidate} {r : Record} (h : c.record? = some r) : c.Makes r := by
  unfold record? at h
  split at h
  · next hid hnew hincr hdepth =>
    obtain rfl := Option.some.inj h
    exact ⟨hid, hnew, hincr, hdepth, rfl, rfl, rfl, rfl, rfl⟩
  · cases h

theorem isComplete_iff {c : Candidate} : c.isComplete ↔ ∃ r, c.record? = some r := by
  obtain ⟨source, id, parent, depth, state, oldCov, newCov, increment, verdict⟩ := c
  cases id <;> cases newCov <;> cases increment <;> cases depth <;> simp [isComplete, record?]

theorem id_eq_some_iff {c : Candidate} {r : Record} {k : Nat} (h : c.record? = some r) :
    c.metadata.id = some k ↔ r.id = k := by
  rw [(makes_of_record? h).id, Option.some_inj]

/-- The complete candidates with an id are those whose record has it. -/
theorem isComplete_and_id_iff {c : Candidate} {k : Nat} :
    c.isComplete ∧ c.metadata.id = some k ↔ ∃ r, c.record? = some r ∧ r.id = k := by
  constructor
  · rintro ⟨hcomplete, hk⟩
    obtain ⟨r, hr⟩ := isComplete_iff.mp hcomplete
    exact ⟨r, hr, (id_eq_some_iff hr).mp hk⟩
  · rintro ⟨r, hr, hk⟩
    exact ⟨isComplete_iff.mpr ⟨r, hr⟩, (id_eq_some_iff hr).mpr hk⟩

end Seed.Candidate

/-- A complete candidate of a list: where it stands, and the record that it makes. -/
structure Entry where
  place : Nat
  candidate : Candidate
  record : Record
  made : candidate.record? = some record

namespace Entry

/-- Entries are told apart by their places and candidates. -/
theorem ext_candidate {e f : Entry} (hp : e.place = f.place) (hc : e.candidate = f.candidate) :
    e = f := by
  obtain ⟨p, c, r, hr⟩ := e
  obtain ⟨q, d, s, hs⟩ := f
  obtain rfl : p = q := hp
  obtain rfl : c = d := hc
  obtain rfl : r = s := Option.some.inj (hr.symm.trans hs)
  rfl

/-- The order by id, then by the bytes of the file name, then by place. -/
def Before (e f : Entry) : Prop :=
  e.record.id < f.record.id ∨ e.record.id = f.record.id ∧
    (Text.encode e.candidate.source < Text.encode f.candidate.source ∨
      e.candidate.source = f.candidate.source ∧ e.place < f.place)

theorem Before.asymm {e f : Entry} (h : e.Before f) : ¬f.Before e := by
  rintro (hid | ⟨hid, hs | ⟨hs, hp⟩⟩) <;> rcases h with hid' | ⟨hid', hs' | ⟨hs', hp'⟩⟩
  case inr.inl.inr.inl => exact List.lt_asymm hs hs'
  case inr.inl.inr.inr => exact List.lt_irrefl _ (hs' ▸ hs)
  case inr.inr.inr.inl => exact List.lt_irrefl _ (hs ▸ hs')
  all_goals omega

theorem Before.id_le {e f : Entry} (h : e.Before f) : e.record.id ≤ f.record.id := by
  rcases h with h | ⟨h, -⟩ <;> omega

/-- The first of entries that ascend by id has the least id. -/
theorem id_le_of_mem_cons {e f : Entry} {L : List Entry}
    (h : (e :: L).Pairwise fun e f => e.record.id ≤ f.record.id) (hf : f ∈ e :: L) :
    e.record.id ≤ f.record.id := by
  rcases List.mem_cons.mp hf with rfl | hf
  · exact Nat.le_refl _
  · exact (List.pairwise_cons.mp h).1 f hf

/-- Of two that may precede each other as records, the place decides. -/
theorem before_of_precedes {e f : Entry}
    (h : e.record.precedes f.record ∧ (f.record.precedes e.record → e.place < f.place)) :
    e.Before f := by
  have he := (Candidate.makes_of_record? e.made).source
  have hf := (Candidate.makes_of_record? f.made).source
  simp only [Record.precedes, Bool.or_eq_true, Bool.and_eq_true, decide_eq_true_eq, beq_iff_eq,
    he, hf] at h
  obtain ⟨hid | ⟨hid, hs⟩, hp⟩ := h
  · exact .inl hid
  · refine .inr ⟨hid, ?_⟩
    by_cases hs' : f.candidate.source ≤ e.candidate.source
    · exact .inr ⟨String.le_antisymm hs hs', hp (.inr ⟨hid.symm, hs'⟩)⟩
    · exact .inl (Text.encode_lt_encode_iff.mpr (String.not_le.mp hs'))

end Entry

/-- The entry of a candidate at a place, if it is complete. -/
def completeAt? (x : Candidate × Nat) : Option Entry :=
  match h : x.1.record? with
  | some r => some ⟨x.2, x.1, r, h⟩
  | none => none

theorem completeAt?_eq_some_iff {x : Candidate × Nat} {e : Entry} :
    completeAt? x = some e ↔ x = (e.candidate, e.place) := by
  constructor
  · intro h
    unfold completeAt? at h
    split at h
    · obtain rfl := Option.some.inj h
      rfl
    · cases h
  · rintro rfl
    unfold completeAt?
    split
    · exact congrArg some (Entry.ext_candidate rfl rfl)
    · next h => exact absurd (h.symm.trans e.made) (by simp)

theorem map_record_completeAt? (x : Candidate × Nat) :
    (completeAt? x).map Entry.record = x.1.record? := by
  unfold completeAt?
  split
  · next h => exact h.symm
  · next h => exact h.symm

/-- The complete candidates of a list, as they stand in it. -/
def entries (cs : List Candidate) : List Entry := cs.zipIdx.filterMap completeAt?

theorem mem_entries {cs : List Candidate} {e : Entry} :
    e ∈ entries cs ↔ cs[e.place]? = some e.candidate := by
  simp only [entries, List.mem_filterMap, completeAt?_eq_some_iff, exists_eq_right]
  exact List.mem_zipIdx_iff_getElem?

theorem entries_pairwise (cs : List Candidate) :
    (entries cs).Pairwise fun e f => e.place < f.place := by
  have hplaces : cs.zipIdx.Pairwise fun x y => x.2 < y.2 := by
    rw [← List.pairwise_map (f := Prod.snd), List.zipIdx_map_snd]
    exact List.pairwise_lt_range'
  refine List.pairwise_filterMap.mpr (hplaces.imp fun {x y} hxy e he f hf => ?_)
  rw [completeAt?_eq_some_iff] at he hf
  simpa [he, hf] using hxy

theorem map_record_entries (cs : List Candidate) :
    (entries cs).map Entry.record = cs.filterMap Candidate.record? := by
  rw [entries, List.map_filterMap, funext map_record_completeAt?]
  conv => rhs; rw [← List.zipIdx_map_fst 0 cs, List.filterMap_map]
  rfl

/-- The complete candidates of a list in order. -/
def arrangement (cs : List Candidate) : List Entry :=
  sortBy (fun e f => e.record.precedes f.record) (entries cs)

theorem mem_arrangement {cs : List Candidate} {e : Entry} :
    e ∈ arrangement cs ↔ cs[e.place]? = some e.candidate := mem_sortBy.trans mem_entries

theorem arrangement_pairwise (cs : List Candidate) : (arrangement cs).Pairwise Entry.Before :=
  (sortBy_stable (fun e f => Record.precedes_total e.record f.record)
    (fun e f g => Record.precedes_trans e.record f.record g.record)
    (entries_pairwise cs)).imp Entry.before_of_precedes

/-- The records that validation puts in order are those of the arrangement. -/
theorem map_record_arrangement (cs : List Candidate) :
    (arrangement cs).map Entry.record = Validation.ordered cs := by
  rw [arrangement, sortBy_map Record.precedes Entry.record, map_record_entries, Validation.ordered]

end FuzzCampaign
