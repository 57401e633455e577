import FuzzCampaign.Proofs.MetadataText
import FuzzCampaign.Proofs.ReportText

/-!
What a report says of a seed. The text of a report is an object, and an object is read as a seed's
metadata whatever its members are, as long as each field is given in its own way or not at all. Main
statement: no key of a report is that of a field, so in either layout its text states nothing.
-/

namespace FuzzCampaign

namespace Json

theorem exists_mem_of_allOf {α β : Type} {content : α → Option β} {elements : List α} {said : List β}
    (h : allOf content elements = some said) : ∀ a ∈ elements, ∃ b ∈ said, content a = some b := by
  induction elements generalizing said with
  | nil => exact fun a ha => nomatch ha
  | cons a rest ih =>
    rw [allOf, Option.bind_eq_some_iff] at h
    obtain ⟨b, hb, hrest⟩ := h
    obtain ⟨more, hmore, rfl⟩ := Option.map_eq_some_iff.mp hrest
    refine List.forall_mem_cons.mpr ⟨⟨b, List.mem_cons_self, hb⟩, ?_⟩
    intro c hc
    obtain ⟨d, hd, hcd⟩ := ih hmore c hc
    exact ⟨d, List.mem_cons_of_mem b hd, hcd⟩

/-- What says an object is an object, and its keys are texts that the other one has as keys. -/
theorem Value.exists_members {v : Value} {said : List (String × Json)}
    (h : v.json? = some (.object said)) :
    ∃ members, v = .object members ∧
      ∀ m ∈ members, ∃ key, m.1.text? = some key ∧ key ∈ said.map (·.1) := by
  cases v with
  | object members =>
    refine ⟨members, rfl, ?_⟩
    rw [json?, membersJson?_eq, Option.map_eq_some_iff] at h
    obtain ⟨said', hall, heq⟩ := h
    obtain rfl := Json.object.inj heq
    intro m hm
    obtain ⟨b, hb, hmember⟩ := exists_mem_of_allOf hall m hm
    rw [memberJson?, Option.bind_eq_some_iff] at hmember
    obtain ⟨key, hkey, hvalue⟩ := hmember
    obtain ⟨j, -, rfl⟩ := Option.map_eq_some_iff.mp hvalue
    exact ⟨key, hkey, List.mem_map_of_mem hb⟩
  | null | boolean => simp [json?] at h
  | number | string | array => simp [json?] at h

end Json

namespace Seed.Metadata

open Json

/-- Members under keys that are no fields' state nothing. -/
theorem stated_eq_empty {members : List (StringToken × Value)}
    (h : ∀ m ∈ members, ∃ key, m.1.text? = some key ∧ ∀ k : MetadataKey, key ≠ k.name) :
    Admissible members ∧ stated members = .empty := by
  have hvalues : ∀ k : MetadataKey, valuesOf k.name members = [] := by
    intro k
    refine List.filterMap_eq_nil_iff.mpr fun m hm => ?_
    obtain ⟨key, hkey, hne⟩ := h m hm
    exact if_neg fun hname => hne k (Option.some.inj (hkey.symm.trans hname))
  have hsaid : ∀ k : MetadataKey, said members k = none := by
    intro k
    rw [said, hvalues, List.head?_nil, Option.bind_none]
  refine ⟨⟨?_, ?_, ?_⟩, ?_⟩
  · intro m hm
    obtain ⟨key, hkey, -⟩ := h m hm
    rw [hkey, Option.isSome_some]
  · intro k
    rw [hvalues]
    exact Nat.zero_le 1
  · intro k v hv
    rw [hvalues] at hv
    cases hv
  · simp only [stated, hsaid]
    rfl

/-- A written object of which no key is that of a field is read as metadata that states nothing. -/
theorem parse_of_foreign {members : List (String × Json)} (hproper : Proper (object members))
    (hforeign : ∀ k : MetadataKey, k.name ∉ members.map (·.1)) (layout : Layout) :
    parse (Text.encode ((object members).text layout)) = .ok .empty := by
  obtain ⟨v, hv⟩ := hproper.exists_writtenAs
  obtain ⟨written, rfl, hkeys⟩ := Value.exists_members hv.json?_eq
  obtain ⟨hadmissible, hempty⟩ : Admissible written ∧ stated written = .empty := by
    refine stated_eq_empty fun m hm => ?_
    obtain ⟨key, hkey, hmem⟩ := hkeys m hm
    refine ⟨key, hkey, ?_⟩
    rintro k rfl
    exact hforeign k hmem
  exact (parse_eq_ok_iff (hv.spread_text layout)).mpr ⟨hadmissible, hempty.symm⟩

end Seed.Metadata

/-- In either layout a report states nothing of a seed. -/
theorem Report.parse_metadata (records : List Seed.Record) (g : GlobalState) (earlier : List Warning)
    (layout : Layout) :
    Seed.Metadata.parse (Text.encode ((derived records g earlier).text layout)) = .ok .empty := by
  refine Seed.Metadata.parse_of_foreign (proper_derived records g earlier) ?_ layout
  intro k
  cases k <;> simp [Seed.MetadataKey.name]

end FuzzCampaign
