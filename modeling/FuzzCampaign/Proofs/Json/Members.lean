import FuzzCampaign.Json.Shape
import FuzzCampaign.Proofs.Json.Grammar

/-!
What the members of an object say, once they are told from the text. A member with the name of a field
is taken into that field unless the name came before, and any other member changes nothing. Main
statement: members make a structure exactly when their keys are texts, each field is given once and with
a value that it takes, or not at all where that is allowed, and the structure then has these values.
-/

namespace FuzzCampaign.Json

open Shape (Progress)

/-- A structure whose fields are told apart by keys, each with the values that it can hold. -/
structure Schema {σ : Type} (shape : Shape σ) where
  Key : Type
  Content : Key → Type
  keys : List Key
  field : Key → Field σ
  get : (k : Key) → σ → Content k
  put : (k : Key) → σ → Content k → σ
  fields_eq : shape.fields = keys.map field
  mem_keys : ∀ k, k ∈ keys
  eq_of_name_eq : ∀ k l, (field k).name = (field l).name → k = l
  get_put_self : ∀ k x a, get k (put k x a) = a
  get_put_of_ne : ∀ k l x a, l ≠ k → get l (put k x a) = get l x
  ext : ∀ x y, (∀ k, get k x = get k y) → x = y

/-- The values of the members with a name, in order. -/
def valuesOf (name : String) (members : List (StringToken × Value)) : List Value :=
  members.filterMap fun m => if m.1.text? = some name then some m.2 else none

/-- Whether there is one value and it says something. -/
def Once {α : Type} (content : Value → Option α) (values : List Value) (a : α) : Prop :=
  ∃ v, values = [v] ∧ content v = some a

namespace Schema

variable {σ : Type} {shape : Shape σ} (s : Schema shape)

/-- The name of a field. -/
def name (k : s.Key) : String := (s.field k).name

/-- The key of the field with a name, if there is one. -/
def key? (name : String) : Option s.Key := s.keys.find? fun k => s.name k = name

variable {s}

theorem key?_eq_some_iff {name : String} {k : s.Key} : s.key? name = some k ↔ s.name k = name := by
  constructor
  · intro h
    simpa using List.find?_some h
  · intro hk
    cases hfound : s.key? name with
    | none =>
      have hnone := List.find?_eq_none.mp hfound k (s.mem_keys k)
      exact absurd hk (by simpa using hnone)
    | some l =>
      have hl : s.name l = name := by simpa using List.find?_some hfound
      rw [s.eq_of_name_eq l k (hl.trans hk.symm)]

variable (s) (sense : (k : s.Key) → Value → Option (s.Content k))

/-- What a value under a name does to what was read so far, if it is not at fault. -/
def takeNamed (p : Progress σ) (name : String) (v : Value) : Option (Progress σ) :=
  match s.key? name with
  | none => some p
  | some k =>
    if name ∈ p.seen then none
    else (sense k v).map fun a => ⟨name :: p.seen, s.put k p.draft a⟩

/-- What a member does, whose key must be a text. -/
def take (p : Progress σ) (m : StringToken × Value) : Option (Progress σ) :=
  m.1.text?.bind fun name => s.takeNamed sense p name m.2

/-- What an object says, if it is not at fault. -/
def value? (members : List (StringToken × Value)) : Option σ :=
  match members.foldlM (s.take sense) ⟨[], shape.blank⟩ with
  | none => none
  | some p => if (shape.absentField? p.seen).isSome then none else some p.draft

end Schema

/-! ### Members one by one -/

section

variable {name : String} {m : StringToken × Value}

theorem valuesOf_cons (name : String) (m : StringToken × Value)
    (members : List (StringToken × Value)) :
    valuesOf name (m :: members) = valuesOf name [m] ++ valuesOf name members :=
  List.filterMap_append (l := [m])

theorem valuesOf_singleton_of_eq (h : m.1.text? = some name) : valuesOf name [m] = [m.2] := by
  simp [valuesOf, h]

theorem valuesOf_singleton_of_ne (h : m.1.text? ≠ some name) : valuesOf name [m] = [] := by
  simp [valuesOf, h]

end

namespace Schema

variable {σ : Type} {shape : Shape σ} (s : Schema shape)
  (sense : (k : s.Key) → Value → Option (s.Content k))

/-- Whether the values under the name of a field can be taken after what was read before. -/
def Fits (p : Progress σ) (k : s.Key) : List Value → Prop
  | [] => True
  | [v] => s.name k ∉ p.seen ∧ ∃ a, sense k v = some a
  | _ => False

/-- What the values under the name of a field make of what was read before. -/
def Gains (p q : Progress σ) (k : s.Key) : List Value → Prop
  | [] => (s.name k ∈ q.seen ↔ s.name k ∈ p.seen) ∧ s.get k q.draft = s.get k p.draft
  | [v] => s.name k ∉ p.seen ∧ s.name k ∈ q.seen ∧ sense k v = some (s.get k q.draft)
  | _ => False

variable {s sense} {p p' q : Progress σ} {k : s.Key} {values values' : List Value}

/-- What is taken in two parts. -/
theorem Gains.append (h : s.Gains sense p p' k values) (h' : s.Gains sense p' q k values') :
    s.Gains sense p q k (values ++ values') := by
  match values, h, values', h' with
  | [], ⟨hseen, hget⟩, [], ⟨hseen', hget'⟩ => exact ⟨hseen'.trans hseen, hget'.trans hget⟩
  | [], ⟨hseen, _⟩, [v], ⟨hnew, hrest⟩ => exact ⟨mt hseen.mpr hnew, hrest⟩
  | [v], ⟨hnew, hseen, hv⟩, [], ⟨hseen', hget⟩ =>
    exact ⟨hnew, hseen'.mpr hseen, hv.trans (congrArg some hget.symm)⟩
  | [v], ⟨_, hseen, _⟩, [w], ⟨hnew, _⟩ => exact absurd hseen hnew

theorem Fits.left (h : s.Fits sense p k (values ++ values')) : s.Fits sense p k values := by
  match values, values', h with
  | [], _, _ => exact trivial
  | [v], [], h => exact h

/-- What fits as a whole fits in its second part when the first one has been taken. -/
theorem Fits.right (h : s.Fits sense p k (values ++ values')) (hgains : s.Gains sense p p' k values) :
    s.Fits sense p' k values' := by
  match values, hgains, values', h with
  | [], _, [], _ => exact trivial
  | [], ⟨hseen, _⟩, [v], ⟨hnew, hv⟩ => exact ⟨mt hseen.mp hnew, hv⟩
  | [v], _, [], _ => exact trivial

variable {m : StringToken × Value} {members : List (StringToken × Value)}

/-- A key is the name of the field that is found under it, and of no other one. -/
theorem text?_ne_name {name : String} (hname : m.1.text? = some name) (hk : s.key? name ≠ some k) :
    m.1.text? ≠ some (s.name k) := by
  rw [hname]
  intro heq
  exact hk (key?_eq_some_iff.mpr (Option.some.inj heq).symm)

/-- What taking one member makes of each field. -/
theorem gains_take (h : s.take sense p m = some q) (k : s.Key) :
    s.Gains sense p q k (valuesOf (s.name k) [m]) := by
  cases hname : m.1.text? with
  | none => simp [take, hname] at h
  | some name =>
    cases hl : s.key? name with
    | none =>
      have hne : s.key? name ≠ some k := by simp [hl]
      simp only [take, hname, Option.bind_some, takeNamed, hl] at h
      obtain rfl := Option.some.inj h
      rw [valuesOf_singleton_of_ne (text?_ne_name hname hne)]
      exact And.intro Iff.rfl rfl
    | some l =>
      simp only [take, hname, Option.bind_some, takeNamed, hl] at h
      obtain rfl := key?_eq_some_iff.mp hl
      split at h
      · cases h
      · next hseen =>
        obtain ⟨a, ha, rfl⟩ := Option.map_eq_some_iff.mp h
        by_cases hk : k = l
        · subst hk
          rw [valuesOf_singleton_of_eq hname]
          exact ⟨hseen, List.mem_cons_self, by rw [ha, s.get_put_self]⟩
        · have hne : s.name k ≠ s.name l := mt (s.eq_of_name_eq k l) hk
          rw [valuesOf_singleton_of_ne (text?_ne_name hname (by simp [hl, Ne.symm hk]))]
          exact ⟨by simp [hne], s.get_put_of_ne l k p.draft a hk⟩

theorem exists_take (htext : m.1.text?.isSome)
    (h : ∀ k, s.Fits sense p k (valuesOf (s.name k) [m])) : ∃ q, s.take sense p m = some q := by
  obtain ⟨name, hname⟩ := Option.isSome_iff_exists.mp htext
  cases hk : s.key? name with
  | none => exact ⟨p, by simp only [take, hname, Option.bind_some, takeNamed, hk]⟩
  | some k =>
    obtain rfl := key?_eq_some_iff.mp hk
    have hfits := h k
    rw [valuesOf_singleton_of_eq hname] at hfits
    obtain ⟨hseen, a, ha⟩ := hfits
    refine ⟨⟨s.name k :: p.seen, s.put k p.draft a⟩, ?_⟩
    simp only [take, hname, Option.bind_some, takeNamed, hk, if_neg hseen, ha, Option.map_some]

/-- What members make of what was read before, field by field. -/
theorem gains_of_foldlM (h : members.foldlM (s.take sense) p = some q) :
    (∀ m ∈ members, m.1.text?.isSome) ∧
      ∀ k, s.Gains sense p q k (valuesOf (s.name k) members) := by
  induction members generalizing p with
  | nil =>
    obtain rfl := Option.some.inj h
    exact ⟨by simp, fun k => And.intro Iff.rfl rfl⟩
  | cons m members ih =>
    rw [List.foldlM_cons] at h
    obtain ⟨p', htake, hrest⟩ := Option.bind_eq_some_iff.mp h
    obtain ⟨htexts, hgains⟩ := ih hrest
    refine ⟨List.forall_mem_cons.mpr ⟨?_, htexts⟩, ?_⟩
    · cases hname : m.1.text? with
      | none => simp [take, hname] at htake
      | some name => rfl
    · intro k
      rw [valuesOf_cons]
      exact (gains_take htake k).append (hgains k)

theorem exists_foldlM (htexts : ∀ m ∈ members, m.1.text?.isSome)
    (h : ∀ k, s.Fits sense p k (valuesOf (s.name k) members)) :
    ∃ q, members.foldlM (s.take sense) p = some q := by
  induction members generalizing p with
  | nil => exact ⟨p, rfl⟩
  | cons m members ih =>
    obtain ⟨hm, htexts⟩ := List.forall_mem_cons.mp htexts
    have hparts : ∀ k, s.Fits sense p k (valuesOf (s.name k) [m] ++ valuesOf (s.name k) members) := by
      intro k
      rw [← valuesOf_cons]
      exact h k
    obtain ⟨p', htake⟩ := exists_take hm fun k => (hparts k).left
    rw [List.foldlM_cons, htake]
    exact ih htexts fun k => (hparts k).right (gains_take htake k)

/-! ### Objects as a whole -/

/-- Whether a structure has what the values under the name of a field say. Without any, the field may be
absent and is as in the blank structure. -/
def States (s : Schema shape) (sense : (k : s.Key) → Value → Option (s.Content k))
    (members : List (StringToken × Value)) (x : σ) (k : s.Key) : Prop :=
  (valuesOf (s.name k) members = [] ∧ (s.field k).absence ≠ .fault ∧
      s.get k x = s.get k shape.blank) ∨
    ∃ v, valuesOf (s.name k) members = [v] ∧ sense k v = some (s.get k x)

/-- A field that must be there has the one value under its name. -/
theorem states_iff_of_required {x : σ} (h : (s.field k).absence = .fault) :
    s.States sense members x k ↔ Once (sense k) (valuesOf (s.name k) members) (s.get k x) := by
  simp [States, Once, h]

/-- A field that may be absent has the one value under its name, or is blank without any. -/
theorem states_iff_of_optional {x : σ} (h : (s.field k).absence ≠ .fault) :
    s.States sense members x k ↔
      valuesOf (s.name k) members = [] ∧ s.get k x = s.get k shape.blank ∨
        Once (sense k) (valuesOf (s.name k) members) (s.get k x) := by
  simp [States, Once, h]

theorem absentField?_eq_none_iff (s : Schema shape) {seen : List String} :
    shape.absentField? seen = none ↔ ∀ k, (s.field k).absence = .fault → s.name k ∈ seen := by
  rw [Shape.absentField?, s.fields_eq, List.find?_eq_none]
  simp only [List.forall_mem_map, s.mem_keys, forall_const, decide_eq_true_eq, not_and,
    Decidable.not_not]
  rfl

theorem value?_eq_some {x : σ} : s.value? sense members = some x ↔
    ∃ q, members.foldlM (s.take sense) ⟨[], shape.blank⟩ = some q ∧
      (∀ k, (s.field k).absence = .fault → s.name k ∈ q.seen) ∧ q.draft = x := by
  rw [value?]
  cases members.foldlM (s.take sense) ⟨[], shape.blank⟩ with
  | none => simp
  | some q =>
    simp only [Option.some_inj, exists_eq_left', ← absentField?_eq_none_iff s]
    cases shape.absentField? q.seen with
    | none => simp
    | some field => simp

/-- What is gained from nothing is stated, if it is there where it must not be absent. -/
theorem Gains.states (h : s.Gains sense ⟨[], shape.blank⟩ q k (valuesOf (s.name k) members))
    (hpresent : (s.field k).absence = .fault → s.name k ∈ q.seen) :
    s.States sense members q.draft k := by
  match hvalues : valuesOf (s.name k) members with
  | [] =>
    rw [hvalues] at h
    refine .inl ⟨hvalues, ?_, h.2⟩
    intro hfault
    exact List.not_mem_nil (h.1.mp (hpresent hfault))
  | [v] =>
    rw [hvalues] at h
    exact .inr ⟨v, hvalues, h.2.2⟩
  | v :: w :: values =>
    rw [hvalues] at h
    exact h.elim

/-- What is stated can be taken from the start. -/
theorem States.fits {x : σ} (h : s.States sense members x k) :
    s.Fits sense ⟨[], shape.blank⟩ k (valuesOf (s.name k) members) := by
  rcases h with ⟨hvalues, -, -⟩ | ⟨v, hvalues, hsense⟩
  · rw [hvalues]
    exact trivial
  · rw [hvalues]
    exact ⟨List.not_mem_nil, _, hsense⟩

/-- What is stated is what is gained from nothing, and is there where it must not be absent. -/
theorem States.of_gains {x : σ} (h : s.States sense members x k)
    (hgains : s.Gains sense ⟨[], shape.blank⟩ q k (valuesOf (s.name k) members)) :
    ((s.field k).absence = .fault → s.name k ∈ q.seen) ∧ s.get k q.draft = s.get k x := by
  rcases h with ⟨hvalues, hallowed, hblank⟩ | ⟨v, hvalues, hsense⟩
  · rw [hvalues] at hgains
    exact ⟨fun hfault => absurd hfault hallowed, hgains.2.trans hblank.symm⟩
  · rw [hvalues] at hgains
    obtain ⟨-, hseen, hv⟩ := hgains
    exact ⟨fun _ => hseen, Option.some.inj (hv.symm.trans hsense)⟩

/-- What an object says is said field by field. -/
theorem value?_eq_some_iff {x : σ} : s.value? sense members = some x ↔
    (∀ m ∈ members, m.1.text?.isSome) ∧ ∀ k, s.States sense members x k := by
  rw [value?_eq_some]
  constructor
  · rintro ⟨q, hfold, hpresent, rfl⟩
    obtain ⟨htexts, hgains⟩ := gains_of_foldlM hfold
    exact ⟨htexts, fun k => (hgains k).states (hpresent k)⟩
  · rintro ⟨htexts, hstates⟩
    obtain ⟨q, hfold⟩ := exists_foldlM htexts fun k => (hstates k).fits
    obtain ⟨-, hgains⟩ := gains_of_foldlM hfold
    have hfields := fun k => (hstates k).of_gains (hgains k)
    exact ⟨q, hfold, fun k => (hfields k).1, s.ext _ _ fun k => (hfields k).2⟩

end Schema

end FuzzCampaign.Json
