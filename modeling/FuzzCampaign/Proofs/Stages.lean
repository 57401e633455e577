import FuzzCampaign.Proofs.Supersession
import FuzzCampaign.Series

/-!
Which stage raises which finding, and on what grounds. Main statements: a link between two records
means that both have the id; a finding on the series means a fall of coverage, an id that was never
given out, or a last coverage that is not the total one; and so each stage has kinds of warnings of
its own.
-/

namespace FuzzCampaign

open Seed

/-- Whether a kind is raised on single candidates. -/
def Warning.Kind.isOfCandidate (k : Warning.Kind) : Bool :=
  k = .invalidRecord ∨ k = .incrementMismatch

/-- Whether a kind is raised on series. -/
def Warning.Kind.isOfSeries (k : Warning.Kind) : Bool :=
  k = .coverageRegression ∨ k = .idBeyondAllocation ∨ k = .consistencyMismatch

theorem Validation.mem_supersessions {rs : List Record} {f : Finding}
    (h : f ∈ Validation.supersessions rs) :
    ∃ r ∈ rs, ∃ s ∈ rs, r.id = s.id ∧ f = .superseded r.source r.id s.source := by
  fun_induction Validation.supersessions rs with
  | case1 r s rest hid ih =>
    rcases List.mem_cons.mp h with rfl | h
    · exact ⟨r, by simp, s, by simp, hid, rfl⟩
    · obtain ⟨t, ht, u, hu, hf⟩ := ih h
      exact ⟨t, List.mem_cons_of_mem r ht, u, List.mem_cons_of_mem r hu, hf⟩
  | case2 r s rest hid ih =>
    obtain ⟨t, ht, u, hu, hf⟩ := ih h
    exact ⟨t, List.mem_cons_of_mem r ht, u, List.mem_cons_of_mem r hu, hf⟩
  | case3 => cases h

namespace Series

variable {g : GlobalState} {f : Finding}

theorem mem_regressionFindings {previous : Option Record} {r : Record}
    (h : f ∈ regressionFindings previous r) :
    ∃ p, previous = some p ∧ r.newCoverage < p.newCoverage ∧
      f = .regression r.source p.id p.newCoverage r.id r.newCoverage := by
  unfold regressionFindings at h
  split at h
  · next p =>
    split at h
    · next hfall => exact ⟨p, rfl, hfall, List.mem_singleton.mp h⟩
    · cases h
  · cases h

theorem mem_allocationFindings {r : Record} (h : f ∈ allocationFindings g r) :
    g.lastAllocated < r.id ∧ f = .beyondAllocation r.source r.id g.lastAllocated := by
  unfold allocationFindings at h
  split at h
  · next hid => exact ⟨hid, List.mem_singleton.mp h⟩
  · cases h

theorem mem_recordFindings {previous : Option Record} {rs : List Record}
    (h : f ∈ recordFindings g previous rs) :
    ∃ r ∈ rs, (∃ p, (previous = some p ∨ p ∈ rs) ∧ r.newCoverage < p.newCoverage ∧
        f = .regression r.source p.id p.newCoverage r.id r.newCoverage) ∨
      g.lastAllocated < r.id ∧ f = .beyondAllocation r.source r.id g.lastAllocated := by
  induction rs generalizing previous with
  | nil => cases h
  | cons r rest ih =>
    rw [recordFindings, List.mem_append, List.mem_append] at h
    rcases h with (h | h) | h
    · obtain ⟨p, hp, hf⟩ := mem_regressionFindings h
      exact ⟨r, by simp, .inl ⟨p, .inl hp, hf⟩⟩
    · exact ⟨r, by simp, .inr (mem_allocationFindings h)⟩
    · obtain ⟨s, hs, ⟨p, hp, hf⟩ | hf⟩ := ih h
      · -- what came before the rest is the first record or lies in the rest
        have hmem : p ∈ r :: rest := by
          rcases hp with hp | hp
          · exact Option.some.inj hp ▸ List.mem_cons_self
          · exact List.mem_cons_of_mem r hp
        exact ⟨s, List.mem_cons_of_mem r hs, .inl ⟨p, .inr hmem, hf⟩⟩
      · exact ⟨s, List.mem_cons_of_mem r hs, .inr hf⟩

theorem mem_finalFindings {rs : List Record} (h : f ∈ finalFindings g rs) :
    ∃ r, rs.getLast? = some r ∧ r.newCoverage ≠ g.totalCoverage ∧
      f = .finalMismatch r.id r.newCoverage g.totalCoverage := by
  unfold finalFindings at h
  split at h
  · next r hr =>
    split at h
    · next hne => exact ⟨r, hr, hne, List.mem_singleton.mp h⟩
    · cases h
  · cases h

/-- What can be found in series. -/
theorem mem_findings {rs : List Record} (h : f ∈ findings rs g) :
    (∃ r ∈ rs, ∃ p ∈ rs, r.newCoverage < p.newCoverage ∧
      f = .regression r.source p.id p.newCoverage r.id r.newCoverage) ∨
    (∃ r ∈ rs, g.lastAllocated < r.id ∧ f = .beyondAllocation r.source r.id g.lastAllocated) ∨
    ∃ r, rs.getLast? = some r ∧ r.newCoverage ≠ g.totalCoverage ∧
      f = .finalMismatch r.id r.newCoverage g.totalCoverage := by
  rcases List.mem_append.mp h with h | h
  · obtain ⟨r, hr, ⟨p, hp, hf⟩ | hf⟩ := mem_recordFindings h
    · exact .inl ⟨r, hr, p, hp.resolve_left (by simp), hf⟩
    · exact .inr (.inl ⟨r, hr, hf⟩)
  · exact .inr (.inr (mem_finalFindings h))

end Series

/-! ### Kinds of warnings -/

theorem isOfCandidate_of_mem {c : Candidate} {w : Warning}
    (h : w ∈ c.findings.map Finding.warning) : w.kind.isOfCandidate := by
  obtain ⟨f, hf, rfl⟩ := List.mem_map.mp h
  rcases Candidate.mem_findings hf with ⟨-, rfl⟩ | ⟨r, -, ⟨share, value, rfl⟩ | ⟨d, rfl⟩⟩
  · rfl
  · rfl
  · rfl

theorem kind_of_mem_supersessions {rs : List Record} {w : Warning}
    (h : w ∈ (Validation.supersessions rs).map Finding.warning) : w.kind = .duplicateId := by
  obtain ⟨f, hf, rfl⟩ := List.mem_map.mp h
  obtain ⟨r, -, s, -, -, rfl⟩ := Validation.mem_supersessions hf
  rfl

theorem kind_of_mem_validate {cs : List Candidate} {w : Warning}
    (h : w ∈ (validate cs).findings.map Finding.warning) :
    w.kind.isOfCandidate ∨ w.kind = .duplicateId := by
  rw [validate, List.map_append, List.mem_append, List.map_flatMap] at h
  rcases h with h | h
  · obtain ⟨c, -, hc⟩ := List.mem_flatMap.mp h
    exact .inl (isOfCandidate_of_mem hc)
  · exact .inr (kind_of_mem_supersessions h)

theorem isOfSeries_of_mem {rs : List Record} {g : GlobalState} {w : Warning}
    (h : w ∈ (Series.derive rs g).warnings) : w.kind.isOfSeries := by
  obtain ⟨f, hf, rfl⟩ := List.mem_map.mp h
  rcases Series.mem_findings hf with ⟨r, -, p, -, -, rfl⟩ | ⟨r, -, -, rfl⟩ | ⟨r, -, -, rfl⟩
  · rfl
  · rfl
  · rfl

end FuzzCampaign
