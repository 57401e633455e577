import FuzzCampaign.Proofs.Json.Objects
import FuzzCampaign.Seed.Format

/-!
What the text of a seed's metadata says. Each of the eight fields may be given once or not at all, as
`null` or as a value of its kind, and anything else in the object is passed over. Main statement: an
object is read exactly when this holds of it, a field that is absent or `null` is absent from what is
read, every other one is as it was written, and neither the order of the members nor the members that
are no fields make a difference.
-/

namespace FuzzCampaign.Seed

open Json

/-- The fields of a seed's metadata. -/
inductive MetadataKey where
  | id
  | parent
  | depth
  | state
  | oldCoverage
  | newCoverage
  | increment
  | verdict
deriving DecidableEq, Repr

namespace MetadataKey

/-- All fields in order. -/
def all : List MetadataKey :=
  [id, parent, depth, state, oldCoverage, newCoverage, increment, verdict]

/-- The key of a field in an object. -/
def name : MetadataKey → String
  | id => "id"
  | parent => "parent_id"
  | depth => "depth"
  | state => "state"
  | oldCoverage => "old_cov"
  | newCoverage => "new_cov"
  | increment => "cov_incr"
  | verdict => "oracle_verdict"

/-- What a field holds if it is there. -/
def Content : MetadataKey → Type
  | id => Nat
  | parent => Nat
  | depth => Nat
  | state => String
  | oldCoverage => Nat
  | newCoverage => Nat
  | increment => Nat
  | verdict => String

/-- What a value says as the value of a field. Numbers are below `2 ^ 64`, and depths below `2 ^ 32`.
-/
def content? : (k : MetadataKey) → Value → Option k.Content
  | id => Value.natural? 64
  | parent => Value.natural? 64
  | depth => Value.natural? 32
  | state => Value.text?
  | oldCoverage => Value.natural? 64
  | newCoverage => Value.natural? 64
  | increment => Value.natural? 64
  | verdict => Value.text?

/-- Whether a value can be given for a field. -/
def Admits (k : MetadataKey) (v : Value) : Prop := v = .null ∨ (k.content? v).isSome

/-- A field of metadata. -/
def get : (k : MetadataKey) → Metadata → Option k.Content
  | id => Metadata.id
  | parent => Metadata.parent
  | depth => Metadata.depth
  | state => Metadata.state
  | oldCoverage => Metadata.oldCoverage
  | newCoverage => Metadata.newCoverage
  | increment => Metadata.increment
  | verdict => Metadata.verdict

/-- Metadata with another field. -/
def put : (k : MetadataKey) → Metadata → Option k.Content → Metadata
  | id => fun m a => { m with id := a }
  | parent => fun m a => { m with parent := a }
  | depth => fun m a => { m with depth := a }
  | state => fun m a => { m with state := a }
  | oldCoverage => fun m a => { m with oldCoverage := a }
  | newCoverage => fun m a => { m with newCoverage := a }
  | increment => fun m a => { m with increment := a }
  | verdict => fun m a => { m with verdict := a }

/-- The reader of a field that is not `null`. -/
def reader : (k : MetadataKey) → Reader k.Content
  | id => readNatural 64
  | parent => readNatural 64
  | depth => readNatural 32
  | state => readString
  | oldCoverage => readNatural 64
  | newCoverage => readNatural 64
  | increment => readNatural 64
  | verdict => readString

theorem readsAs_reader (k : MetadataKey) (v : Value) : ReadsAs k.reader v (k.content? v) := by
  cases k with
  | depth => exact readsAs_natural (by decide) v
  | state => exact readsAs_string v
  | verdict => exact readsAs_string v
  | id | parent | oldCoverage | newCoverage | increment => exact readsAs_natural (by decide) v

theorem content?_null (k : MetadataKey) : k.content? .null = none := by
  cases k <;> rfl

end MetadataKey

namespace Metadata

/-- The fields of the metadata's shape by their keys. -/
def schema : Schema shape where
  Key := MetadataKey
  Content k := Option k.Content
  keys := MetadataKey.all
  field k := .of k.name .faultInList (readOption k.reader) k.put
  get := MetadataKey.get
  put := MetadataKey.put
  fields_eq := rfl
  mem_keys k := by cases k <;> decide
  eq_of_name_eq k l h := by
    cases k <;> cases l <;> first | rfl | exact absurd h (by decide)
  get_put_self k m a := by cases k <;> rfl
  get_put_of_ne k l m a h := by
    cases k <;> cases l <;> first | rfl | exact absurd rfl h
  ext x y h := by
    obtain ⟨id, parent, depth, state, old, new, increment, verdict⟩ := x
    obtain rfl : id = _ := h .id
    obtain rfl : parent = _ := h .parent
    obtain rfl : depth = _ := h .depth
    obtain rfl : state = _ := h .state
    obtain rfl : old = _ := h .oldCoverage
    obtain rfl : new = _ := h .newCoverage
    obtain rfl : increment = _ := h .increment
    obtain rfl : verdict = _ := h .verdict
    rfl

/-- What a value says as the value of a field, or that it is `null`. -/
def sense (k : MetadataKey) (v : Value) : Option (Option k.Content) := v.nullable k.content?

theorem senses (members : List (StringToken × Value)) : schema.Senses sense members := by
  intro m _ k _ draft
  exact readsAs_field (readsAs_option (k.readsAs_reader m.2)) k.name .faultInList k.put draft

/-- A value is taken for a field if it can be given for it. -/
theorem sense_eq_some_iff {k : MetadataKey} {v : Value} {content : Option k.Content} :
    sense k v = some content ↔ k.Admits v ∧ content = k.content? v := by
  cases v with
  | null =>
    have hnull : sense k .null = some none := rfl
    rw [hnull, k.content?_null, Option.some_inj]
    constructor
    · intro h
      exact ⟨.inl rfl, h.symm⟩
    · intro h
      exact h.2.symm
  | boolean | number | string | array | object =>
    simp only [sense, Value.nullable, MetadataKey.Admits, reduceCtorEq, false_or]
    cases k.content? _ with
    | none => simp
    | some a => simp [eq_comm]

/-- Whether members can be those of a seed's metadata: their keys are texts, no field comes again, and
each has a value that can be given for it. -/
structure Admissible (members : List (StringToken × Value)) : Prop where
  texts : ∀ m ∈ members, m.1.text?.isSome
  once : ∀ k : MetadataKey, (valuesOf k.name members).length ≤ 1
  admitted : ∀ k : MetadataKey, ∀ v ∈ valuesOf k.name members, k.Admits v

/-- What members state of a field. -/
def said (members : List (StringToken × Value)) (k : MetadataKey) : Option k.Content :=
  (valuesOf k.name members).head?.bind k.content?

/-- What members state of all fields. -/
def stated (members : List (StringToken × Value)) : Metadata :=
  ⟨said members .id, said members .parent, said members .depth, said members .state,
    said members .oldCoverage, said members .newCoverage, said members .increment,
    said members .verdict⟩

theorem get_stated (members : List (StringToken × Value)) (k : MetadataKey) :
    k.get (stated members) = said members k := by
  cases k <;> rfl

variable {members : List (StringToken × Value)} {text : List UInt8} {x : Metadata}

/-- What is stated of a field, by its values. -/
theorem states_iff {k : MetadataKey} : schema.States sense members x k ↔
    (valuesOf k.name members).length ≤ 1 ∧ (∀ v ∈ valuesOf k.name members, k.Admits v) ∧
      k.get x = said members k := by
  have hblank : k.get shape.blank = none := by
    cases k <;> rfl
  change (valuesOf k.name members = [] ∧ Absence.faultInList ≠ .fault ∧
      k.get x = k.get shape.blank ∨
    ∃ v, valuesOf k.name members = [v] ∧ sense k v = some (k.get x)) ↔ _
  rw [hblank, said]
  match valuesOf k.name members with
  | [] => simp
  | [v] => simp [sense_eq_some_iff]
  | v :: w :: values => simp

/-- An object is read as what its members state, if they are admissible. -/
theorem parse_eq_ok_iff (h : Spread (Value.object members).tokens text) :
    parse text = .ok x ↔ Admissible members ∧ x = stated members := by
  refine (Shape.parse_object_iff (senses members) h).trans ?_
  constructor
  · rintro ⟨htexts, hstates⟩
    have hkeys := fun k : MetadataKey => states_iff.mp (hstates k)
    refine ⟨⟨htexts, fun k => (hkeys k).1, fun k => (hkeys k).2.1⟩, ?_⟩
    refine schema.ext _ _ ?_
    intro k
    exact (hkeys k).2.2.trans (get_stated members k).symm
  · rintro ⟨⟨htexts, honce, hadmitted⟩, rfl⟩
    exact ⟨htexts, fun k => states_iff.mpr ⟨honce k, hadmitted k, get_stated members k⟩⟩

/-- The same values under the name of each field make the same statements. -/
theorem Admissible.of_perm {members' : List (StringToken × Value)} (h : Admissible members)
    (htexts : ∀ m ∈ members', m.1.text?.isSome)
    (hperm : ∀ k : MetadataKey, (valuesOf k.name members).Perm (valuesOf k.name members')) :
    Admissible members' ∧ stated members' = stated members := by
  refine ⟨⟨htexts, ?_, ?_⟩, ?_⟩
  · intro k
    rw [← (hperm k).length_eq]
    exact h.once k
  · intro k v hv
    exact h.admitted k v ((hperm k).mem_iff.mpr hv)
  · refine schema.ext _ _ ?_
    intro (k : MetadataKey)
    change k.get (stated members') = k.get (stated members)
    rw [get_stated, get_stated, said, said]
    have honce := h.once k
    have hk := hperm k
    match hvalues : valuesOf k.name members with
    | [] =>
      rw [hvalues] at hk
      rw [List.nil_perm.mp hk]
    | [v] =>
      rw [hvalues] at hk
      rw [List.singleton_perm.mp hk]
    | v :: w :: values =>
      rw [hvalues] at honce
      simp at honce

/-- A text that is an object is read exactly when its members are admissible. What is read then has
every field that is given other than as `null`, as it is given, and no other field. Two such texts whose
keys are all texts, with the same values under the name of each field in any order, are read alike. -/
theorem parse_object (h : Spread (Value.object members).tokens text) :
    ((∃ x, parse text = .ok x) ↔ Admissible members) ∧
    (∀ x, parse text = .ok x → ∀ k : MetadataKey,
      (∀ v ∈ valuesOf k.name members, v ≠ .null →
        ∃ a, k.content? v = some a ∧ k.get x = some a) ∧
      ((∀ v ∈ valuesOf k.name members, v = .null) → k.get x = none)) ∧
    ∀ members' text', Spread (Value.object members').tokens text' →
      (∀ m ∈ members ++ members', m.1.text?.isSome) →
      (∀ k : MetadataKey, (valuesOf k.name members).Perm (valuesOf k.name members')) →
      ∀ x, parse text = .ok x ↔ parse text' = .ok x := by
  refine ⟨⟨?_, ?_⟩, ?_, ?_⟩
  · rintro ⟨x, hx⟩
    exact ((parse_eq_ok_iff h).mp hx).1
  · intro hmembers
    exact ⟨_, (parse_eq_ok_iff h).mpr ⟨hmembers, rfl⟩⟩
  · intro x hx k
    obtain ⟨⟨-, honce, hadmitted⟩, rfl⟩ := (parse_eq_ok_iff h).mp hx
    rw [get_stated, said]
    have honce := honce k
    have hadmitted := hadmitted k
    match hvalues : valuesOf k.name members with
    | [] => simp
    | [v] =>
      rw [hvalues] at hadmitted
      constructor
      · intro w hw hnull
        obtain rfl := List.mem_singleton.mp hw
        obtain ⟨a, ha⟩ := Option.isSome_iff_exists.mp
          ((hadmitted w List.mem_cons_self).resolve_left hnull)
        exact ⟨a, ha, ha⟩
      · intro hnull
        obtain rfl := hnull v List.mem_cons_self
        exact k.content?_null
    | v :: w :: values =>
      rw [hvalues] at honce
      simp at honce
  · intro members' text' h' htexts hperm x
    rw [List.forall_mem_append] at htexts
    rw [parse_eq_ok_iff h, parse_eq_ok_iff h']
    constructor
    · rintro ⟨hmembers, rfl⟩
      obtain ⟨hmembers', heq⟩ := hmembers.of_perm htexts.2 hperm
      exact ⟨hmembers', heq.symm⟩
    · rintro ⟨hmembers', rfl⟩
      obtain ⟨hmembers, heq⟩ := hmembers'.of_perm htexts.1 fun k => (hperm k).symm
      exact ⟨hmembers, heq.symm⟩

/-- An id under a key with an escape, between two members that share a key and are no fields, of which
the first one has a field's key inside. -/
def scattered : List (StringToken × Value) :=
  [([.plain 'x' (by decide)],
      .array [.object [([.plain 'i' (by decide), .plain 'd' (by decide)], .null)]]),
    ([.code ⟨⟨0, false⟩, ⟨0, false⟩, ⟨6, false⟩, ⟨9, false⟩⟩, .plain 'd' (by decide)],
      .number ⟨false, ⟨1, [2]⟩, none, none, by decide⟩),
    ([.plain 'x' (by decide)], .boolean true)]

/-- The members in a text with two blanks in front of each token. -/
def scatteredText : List UInt8 :=
  (Value.object scattered).tokens.flatMap ([ascii '\n', ascii ' '] ++ ·)

theorem parse_scatteredText :
    Spread (Value.object scattered).tokens scatteredText ∧ Admissible scattered ∧
      ∃ x, parse scatteredText = .ok x ∧ x.id = some 12 ∧ x.depth = none := by
  have hspread : Spread (Value.object scattered).tokens scatteredText :=
    .flatMap (by decide) _
  obtain ⟨hok, hfields, -⟩ := parse_object hspread
  have hadmissible : Admissible scattered := hok.mp ⟨⟨some 12, none, none, none, none, none, none,
    none⟩, rfl⟩
  obtain ⟨x, hx⟩ := hok.mpr hadmissible
  obtain ⟨a, ha, hid⟩ := (hfields x hx .id).1 _ List.mem_cons_self Value.noConfusion
  obtain rfl := Option.some.inj ha
  refine ⟨hspread, hadmissible, x, hx, hid, (hfields x hx .depth).2 ?_⟩
  intro v hv
  cases hv

end Metadata

end FuzzCampaign.Seed
