import FuzzCampaign.Proofs.Json.Members
import FuzzCampaign.Proofs.Json.Scalars
import FuzzCampaign.Proofs.Json.Skipping

/-!
What the text of an object is read as. A known member is read behind its colon by the reader of its
field, any other one is passed over, and a comma or the end of the object follows. Main statement: an
object is read as a structure exactly when its members make it.
-/

namespace FuzzCampaign.Json

open Shape (Progress)

namespace Schema

variable {σ : Type} {shape : Shape σ} (s : Schema shape)

theorem find?_fields (name : String) :
    shape.fields.find? (·.name = name) = (s.key? name).map s.field := by
  rw [s.fields_eq, List.find?_map, key?]
  rfl

/-- Whether the fields named by members are read as their values say. -/
def Senses (sense : (k : s.Key) → Value → Option (s.Content k))
    (members : List (StringToken × Value)) : Prop :=
  ∀ m ∈ members, ∀ k, m.1.text? = some (s.name k) → ∀ draft,
    ReadsAs ((s.field k).read draft) m.2 ((sense k m.2).map (s.put k draft))

end Schema

namespace Shape

variable {σ : Type} {shape : Shape σ} {bytes : List UInt8} {ts : List Token}

theorem readColon_eq_ok (h : Spread ([ascii ':'] :: ts) bytes) :
    ∃ rest, readColon bytes = .ok rest ∧ Spread ts rest := by
  obtain ⟨rest, hskip, hrest⟩ := h.skipBlanks_eq (by decide)
  exact ⟨rest, by rw [readColon, hskip]; rfl, hrest⟩

variable {s : Schema shape} {sense : (k : s.Key) → Value → Option (s.Content k)}

/-- A member is read as it is taken. -/
theorem gives_readMember {m : StringToken × Value} (hsense : s.Senses sense [m]) (p : Progress σ)
    (h : Spread (Value.tokensOfMember m ++ ts) bytes) (hends : Ends ts) :
    Gives (readMember shape p (skipBlanks bytes)) (s.take sense p m) (Spread ts) := by
  rw [Value.tokensOfMember, List.cons_append, List.cons_append, StringToken.bytes] at h
  obtain ⟨rest, hskip, hrest⟩ := h.skipBlanks_eq (by decide)
  have hkey := readText_token (s := m.1) rfl hrest
  rw [hskip, readMember, if_pos rfl]
  refine hkey.bind (fun fault hfault => by simp only [hfault]) ?_
  intro name behind hok hname hbehind
  obtain ⟨left, hcolon, hleft⟩ := readColon_eq_ok hbehind
  simp only [hok, readMemberValue, s.find?_fields, hcolon, Schema.takeNamed]
  cases hk : s.key? name with
  | none =>
    obtain ⟨last, hskipped, hlast⟩ := skipValue_value m.2 hleft hends
    exact ⟨last, by simp only [Option.map_none, hskipped], hlast⟩
  | some k =>
    simp only [Option.map_some]
    by_cases hseen : name ∈ p.seen
    · rw [if_pos hseen, if_pos hseen]
      exact ⟨_, rfl⟩
    · rw [if_neg hseen, if_neg hseen]
      rw [← Schema.key?_eq_some_iff.mp hk] at hname
      have hread := hsense m List.mem_cons_self k hname p.draft ts left hleft hends
      have hstore := hread.map fun draft => (⟨name :: p.seen, draft⟩ : Progress σ)
      rw [Option.map_map] at hstore
      exact hstore

/-- Behind a comma stands a member. -/
theorem readNextMember_comma {m : StringToken × Value} (p : Progress σ)
    (h : Spread (Value.tokensOfMember m ++ ts) bytes) :
    readNextMember shape p (ascii ',' :: bytes) = readMember shape p (skipBlanks bytes) := by
  rw [Value.tokensOfMember, List.cons_append, StringToken.bytes] at h
  obtain ⟨rest, hskip, -⟩ := h.skipBlanks_eq (by decide)
  have hmember : ascii '"' ≠ ascii '\x7d' := by decide
  rw [readNextMember, if_pos rfl, hskip]
  exact if_neg hmember

/-- The members behind the first one are taken one by one, up to the end of the object. -/
theorem gives_readMoreMembers {members : List (StringToken × Value)}
    (hsense : s.Senses sense members) (p : Progress σ) {bound : Nat}
    (hbound : members.length < bound)
    (h : Spread (further (members.map Value.tokensOfMember) ++ [ascii '\x7d'] :: ts) bytes) :
    Gives (readMoreMembers shape bound p bytes) (members.foldlM (s.take sense) p)
      (Spread ([ascii '\x7d'] :: ts)) := by
  induction members generalizing p bound bytes with
  | nil =>
    obtain ⟨bound, rfl⟩ := Nat.exists_eq_add_one.mpr hbound
    obtain ⟨rest, hskip, hrest⟩ := h.skipBlanks_eq (by decide)
    refine ⟨_, ?_, h.of_skipBlanks (by decide)⟩
    rw [readMoreMembers, hskip]
    rfl
  | cons m members ih =>
    obtain ⟨bound, rfl⟩ := Nat.exists_eq_add_one.mpr (Nat.zero_lt_of_lt hbound)
    rw [List.map_cons, further, List.flatMap_cons, List.cons_append, List.cons_append,
      List.append_assoc] at h
    obtain ⟨rest, hskip, hrest⟩ := h.skipBlanks_eq (by decide)
    obtain ⟨hm, hmembers⟩ := List.forall_mem_cons.mp hsense
    have hend : atObjectEnd (ascii ',' :: rest) = false := rfl
    have hread := gives_readMember (List.forall_mem_singleton.mpr hm) p hrest
      (ends_further .object _ ts)
    rw [readMoreMembers, hskip, List.nil_append, hend, if_neg Bool.false_ne_true,
      readNextMember_comma p hrest, List.foldlM_cons]
    refine hread.bind (fun fault hfault => by simp only [hfault]) ?_
    intro q left hok _ hleft
    simp only [hok]
    exact ih hmembers q (Nat.lt_of_succ_lt_succ hbound) hleft

/-- A text has no fewer bytes than its tokens. -/
theorem length_flatten_le (h : Spread ts bytes) : ts.flatten.length ≤ bytes.length := by
  induction h with
  | nil hgap => exact Nat.zero_le _
  | cons hgap h ih =>
    simp only [List.flatten_cons, List.length_append]
    omega

theorem length_le_further (elements : List (List Token)) :
    elements.length ≤ (further elements).flatten.length := by
  induction elements with
  | nil => exact Nat.le_refl 0
  | cons element elements ih =>
    rw [further] at ih
    simp only [further, List.flatMap_cons, List.flatten_append, List.flatten_cons,
      List.length_append, List.length_cons, List.length_nil]
    omega

/-- All members of an object are taken one by one. -/
theorem gives_readMembers {members : List (StringToken × Value)} (hsense : s.Senses sense members)
    (h : Spread (divided (members.map Value.tokensOfMember) ++ [ascii '\x7d'] :: ts) bytes) :
    Gives (readMembers shape bytes) (members.foldlM (s.take sense) ⟨[], shape.blank⟩)
      (Spread ([ascii '\x7d'] :: ts)) := by
  cases members with
  | nil =>
    obtain ⟨rest, hskip, hrest⟩ := h.skipBlanks_eq (by decide)
    refine ⟨_, ?_, .cons (List.nil_subset _) hrest⟩
    rw [readMembers, hskip]
    rfl
  | cons m members =>
    rw [List.map_cons, divided, List.append_assoc] at h
    obtain ⟨hm, hmembers⟩ := List.forall_mem_cons.mp hsense
    have hread := gives_readMember (List.forall_mem_singleton.mpr hm) ⟨[], shape.blank⟩ h
      (ends_further .object _ ts)
    rw [Value.tokensOfMember, List.cons_append, StringToken.bytes] at h
    obtain ⟨rest, hskip, -⟩ := h.skipBlanks_eq (by decide)
    have hmember : ascii '"' ≠ ascii '\x7d' := by decide
    rw [hskip] at hread
    rw [readMembers, hskip, List.foldlM_cons]
    simp only [if_neg hmember]
    refine hread.bind (fun fault hfault => by simp only [hfault]) ?_
    intro q left hok _ hleft
    simp only [hok]
    refine gives_readMoreMembers hmembers q ?_ hleft
    -- each member that is left takes a comma at least, and the end takes a byte more
    have hbytes := length_flatten_le hleft
    have hcommas := length_le_further (members.map Value.tokensOfMember)
    simp only [List.flatten_append, List.flatten_cons, List.length_append, List.length_cons,
      List.length_nil, List.length_map] at hbytes hcommas
    omega

/-- The end of an object is passed over. -/
theorem pastObject_eq (h : Spread ([ascii '\x7d'] :: ts) bytes) : Spread ts (pastObject bytes) := by
  obtain ⟨rest, hskip, hrest⟩ := h.skipBlanks_eq (by decide)
  rw [pastObject, hskip]
  exact hrest

/-- An object is read as what its members say. -/
theorem readsAs_object {members : List (StringToken × Value)} (hsense : s.Senses sense members) :
    ReadsAs (read shape) (.object members) (s.value? sense members) := by
  intro ts bytes hspread _
  rw [Value.tokens, Value.memberTokens_eq_map, List.cons_append, List.append_assoc,
    List.singleton_append] at hspread
  obtain ⟨rest, hskip, hrest⟩ := hspread.skipBlanks_eq (by decide)
  have hread := gives_readMembers hsense hrest
  have hobject : read shape bytes = readObject shape rest := by
    rw [read, hskip]
    rfl
  rw [hobject, readObject, Schema.value?]
  cases htake : members.foldlM (s.take sense) ⟨[], shape.blank⟩ with
  | none =>
    rw [htake] at hread
    obtain ⟨fault, hfault⟩ := hread
    exact ⟨fault.settle pastObject, by simp only [hfault]⟩
  | some p =>
    rw [htake] at hread
    obtain ⟨left, hok, hleft⟩ := hread
    simp only [hok]
    cases habsent : absentField? shape p.seen with
    | none => exact ⟨_, rfl, pastObject_eq hleft⟩
    | some field => exact ⟨_, rfl⟩

/-- A text that is an object is read as what its members say. -/
theorem parse_eq_ok_iff {members : List (StringToken × Value)} (hsense : s.Senses sense members)
    (h : Spread (Value.object members).tokens bytes) {x : σ} :
    parse shape bytes = .ok x ↔ s.value? sense members = some x := by
  rw [← List.append_nil (Value.object members).tokens] at h
  have hread := readsAs_object hsense [] bytes h trivial
  cases hvalue : s.value? sense members with
  | none =>
    rw [hvalue] at hread
    obtain ⟨fault, hfault⟩ := hread
    simp [parse, hfault]
  | some y =>
    rw [hvalue] at hread
    obtain ⟨rest, hok, hrest⟩ := hread
    simp [parse, hok, hrest.skipBlanks_nil]

end Shape

/-- A text that is an object is read as a structure exactly when its keys are texts, and each field of
the structure is as the members state. -/
theorem Shape.parse_object_iff {σ : Type} {shape : Shape σ} {s : Schema shape}
    {sense : (k : s.Key) → Value → Option (s.Content k)} {members : List (StringToken × Value)}
    {bytes : List UInt8} (hsense : s.Senses sense members)
    (h : Spread (Value.object members).tokens bytes) {x : σ} :
    shape.parse bytes = .ok x ↔
      (∀ m ∈ members, m.1.text?.isSome) ∧ ∀ k, s.States sense members x k :=
  (Shape.parse_eq_ok_iff hsense h).trans Schema.value?_eq_some_iff

end FuzzCampaign.Json
