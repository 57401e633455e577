import FuzzCampaign.Proofs.Json.Objects
import FuzzCampaign.Proofs.Json.Writing
import FuzzCampaign.Seed.Format

/-!
What the text of a global state says. The last id and the total coverage must be given; the id at work
may be absent or `null`; the queue may be absent, `null` or an object of its own, in which each count may
be absent but not `null`. Main statement: an object is read exactly when this holds of it and no field is
given twice, what is read has each field as it is written, and at either level neither the order of the
members nor the members that are no fields make a difference.
-/

namespace FuzzCampaign

open Json

/-! ### Values under names -/

namespace Json

/-- Whether the keys of two objects are texts, with the same values under each of some names. -/
structure SameUnder (names : List String) (members members' : List (StringToken × Value)) : Prop where
  texts : ∀ m ∈ members ++ members', m.1.text?.isSome
  values : ∀ name ∈ names, (valuesOf name members).Perm (valuesOf name members')

namespace SameUnder

variable {names : List String} {members members' : List (StringToken × Value)} {name : String}

theorem symm (h : SameUnder names members members') : SameUnder names members' members := by
  refine ⟨?_, fun name hname => (h.values name hname).symm⟩
  intro m hm
  exact h.texts m (List.perm_append_comm.mem_iff.mp hm)

/-- None or one value is the same in any order. -/
theorem eq_of_length_le (h : SameUnder names members members') (hname : name ∈ names)
    (hle : (valuesOf name members).length ≤ 1) : valuesOf name members = valuesOf name members' := by
  have hperm := h.values name hname
  match hvalues : valuesOf name members with
  | [] =>
    rw [hvalues] at hperm
    exact (List.nil_perm.mp hperm).symm
  | [v] =>
    rw [hvalues] at hperm
    exact List.singleton_perm.mp hperm
  | v :: w :: values =>
    rw [hvalues] at hle
    simp at hle

end SameUnder

/-- Whether there is no value, or `null` alone. -/
def Unset (values : List Value) : Prop := values = [] ∨ values = [.null]

/-- What is unset is none, and what is set is something. -/
theorem exists_optional {α : Type} {Q : Prop} {P : α → Prop} (h : Q ∨ ∃ b, P b) :
    ∃ a : Option α, Q ∧ a = none ∨ ∃ b, P b ∧ a = some b := by
  rcases h with hunset | ⟨b, hb⟩
  · exact ⟨none, .inl ⟨hunset, rfl⟩⟩
  · exact ⟨some b, .inr ⟨b, hb, rfl⟩⟩

theorem Once.length_le {α : Type} {content : Value → Option α} {values : List Value} {a : α}
    (h : Once content values a) : values.length ≤ 1 := by
  obtain ⟨v, rfl, -⟩ := h
  exact Nat.le_refl 1

theorem valuesOf_append (name : String) (front back : List (StringToken × Value)) :
    valuesOf name (front ++ back) = valuesOf name front ++ valuesOf name back :=
  List.filterMap_append

section

variable {name : String} {front back : List (StringToken × Value)} {key : StringToken}

theorem valuesOf_middle (h : key.text? = some name) (v : Value) :
    valuesOf name (front ++ (key, v) :: back) = valuesOf name front ++ v :: valuesOf name back := by
  rw [valuesOf_append, valuesOf_cons, valuesOf_singleton_of_eq h]
  rfl

/-- A member in the middle does not matter for other names than its own. -/
theorem valuesOf_middle_of_ne (h : key.text? ≠ some name) (v : Value) :
    valuesOf name (front ++ (key, v) :: back) = valuesOf name (front ++ back) := by
  rw [valuesOf_append, valuesOf_cons, valuesOf_singleton_of_ne h, List.nil_append, valuesOf_append]

end

end Json

/-! ### The queue -/

namespace QueueStats

/-- The fields of a queue's counts. -/
inductive Key where
  | poolSize
  | processed
deriving DecidableEq, Repr

namespace Key

/-- The key of a field in an object. -/
def name : Key → String
  | poolSize => "pool_size"
  | processed => "processed_count"

/-- A count. -/
def get : Key → QueueStats → Nat
  | poolSize => QueueStats.poolSize
  | processed => QueueStats.processed

/-- The counts with another one. -/
def put : Key → QueueStats → Nat → QueueStats
  | poolSize => fun q n => { q with poolSize := n }
  | processed => fun q n => { q with processed := n }

end Key

/-- The fields of the shape of a queue's counts by their keys. -/
def schema : Schema shape where
  Key := Key
  Content _ := Nat
  keys := [.poolSize, .processed]
  field k := .of k.name .allowed (readNatural 64) k.put
  get := Key.get
  put := Key.put
  fields_eq := rfl
  mem_keys k := by cases k <;> decide
  eq_of_name_eq k l h := by
    cases k <;> cases l <;> first | rfl | exact absurd h (by decide)
  get_put_self k q n := by cases k <;> rfl
  get_put_of_ne k l q n h := by
    cases k <;> cases l <;> first | rfl | exact absurd rfl h
  ext x y h := by
    obtain ⟨poolSize, processed⟩ := x
    obtain rfl : poolSize = _ := h .poolSize
    obtain rfl : processed = _ := h .processed
    rfl

/-- What a value says as a count. -/
def sense (_ : Key) (v : Value) : Option Nat := v.natural? 64

theorem senses (members : List (StringToken × Value)) : schema.Senses sense members := by
  intro m _ k _ draft
  exact readsAs_field (readsAs_natural (by decide) m.2) k.name .allowed k.put draft

/-- What a value says as a queue's counts. -/
def content? : Value → Option QueueStats
  | .object members => schema.value? sense members
  | _ => none

/-- Every value but a list is read as what it says. -/
theorem readsAs_queue {v : Value} (hlist : ∀ items, v ≠ .array items) :
    ReadsAs shape.read v (content? v) := by
  by_cases hobject : v.lead = ascii '\x7b'
  · obtain ⟨members, rfl⟩ := Value.exists_of_lead_eq_objectStart hobject
    exact Shape.readsAs_object (senses members)
  · intro ts bytes hspread _
    obtain ⟨t, us, rest, -, hskip, -⟩ := Value.skipBlanks_tokens hspread
    have hbracket : v.lead ≠ ascii '[' := by
      intro h
      obtain ⟨items, rfl⟩ := Value.exists_of_lead_eq_listStart h
      exact hlist items rfl
    have hnone : content? v = none := by
      cases v with
      | object members => exact absurd rfl hobject
      | null | boolean | number | string | array => rfl
    simp only [Shape.read, hskip, if_neg hobject, if_neg hbracket, hnone]
    exact mismatch_eq_error _ _

/-- Whether counts are those that members state: a count that is absent is zero. -/
structure StatedBy (q : QueueStats) (members : List (StringToken × Value)) : Prop where
  texts : ∀ m ∈ members, m.1.text?.isSome
  poolSize : valuesOf "pool_size" members = [] ∧ q.poolSize = 0 ∨
    Once (Value.natural? 64) (valuesOf "pool_size" members) q.poolSize
  processed : valuesOf "processed_count" members = [] ∧ q.processed = 0 ∨
    Once (Value.natural? 64) (valuesOf "processed_count" members) q.processed

/-- Whether members can be those of a queue's counts: their keys are texts, and each count is given once,
as a natural below `2 ^ 64`, or not at all. -/
structure Admissible (members : List (StringToken × Value)) : Prop where
  texts : ∀ m ∈ members, m.1.text?.isSome
  poolSize : valuesOf "pool_size" members = [] ∨
    ∃ n, Once (Value.natural? 64) (valuesOf "pool_size" members) n
  processed : valuesOf "processed_count" members = [] ∨
    ∃ n, Once (Value.natural? 64) (valuesOf "processed_count" members) n

variable {q : QueueStats} {members members' : List (StringToken × Value)}

theorem value?_eq_some_iff : schema.value? sense members = some q ↔ q.StatedBy members := by
  have hstates : ∀ k : Key, schema.States sense members q k ↔
      (valuesOf k.name members = [] ∧ k.get q = 0 ∨
        Once (Value.natural? 64) (valuesOf k.name members) (k.get q)) := by
    intro k
    have hblank : k.get shape.blank = 0 := by
      cases k <;> rfl
    rw [← hblank]
    exact Schema.states_iff_of_optional (s := schema) Absence.noConfusion
  refine Schema.value?_eq_some_iff.trans ?_
  constructor
  · rintro ⟨htexts, h⟩
    exact ⟨htexts, (hstates .poolSize).mp (h .poolSize), (hstates .processed).mp (h .processed)⟩
  · rintro ⟨htexts, hpool, hprocessed⟩
    refine ⟨htexts, fun k => (hstates k).mpr ?_⟩
    cases k with
    | poolSize => exact hpool
    | processed => exact hprocessed

theorem exists_statedBy_iff : (∃ q : QueueStats, q.StatedBy members) ↔ Admissible members := by
  have hcount : ∀ name,
      (∃ n, valuesOf name members = [] ∧ n = 0 ∨ Once (Value.natural? 64) (valuesOf name members) n) ↔
        (valuesOf name members = [] ∨ ∃ n, Once (Value.natural? 64) (valuesOf name members) n) := by
    intro name
    simp [exists_or]
  constructor
  · rintro ⟨q, htexts, hpool, hprocessed⟩
    exact ⟨htexts, (hcount _).mp ⟨_, hpool⟩, (hcount _).mp ⟨_, hprocessed⟩⟩
  · rintro ⟨htexts, hpool, hprocessed⟩
    obtain ⟨poolSize, hpool⟩ := (hcount _).mpr hpool
    obtain ⟨processed, hprocessed⟩ := (hcount _).mpr hprocessed
    exact ⟨⟨poolSize, processed⟩, htexts, hpool, hprocessed⟩

/-- The same values make the same statements. -/
theorem StatedBy.of_same (h : q.StatedBy members)
    (hsame : SameUnder ["pool_size", "processed_count"] members members') : q.StatedBy members' := by
  have hvalues : ∀ name ∈ ["pool_size", "processed_count"],
      valuesOf name members = valuesOf name members' := by
    intro name hname
    refine hsame.eq_of_length_le hname ?_
    simp only [List.mem_cons, List.not_mem_nil, or_false] at hname
    rcases hname with rfl | rfl
    · rcases h.poolSize with ⟨hnil, -⟩ | honce
      · simp [hnil]
      · exact honce.length_le
    · rcases h.processed with ⟨hnil, -⟩ | honce
      · simp [hnil]
      · exact honce.length_le
  refine ⟨fun m hm => hsame.texts m (List.mem_append_right _ hm), ?_, ?_⟩
  · rw [← hvalues _ (by simp)]
    exact h.poolSize
  · rw [← hvalues _ (by simp)]
    exact h.processed

/-- Without members there is nothing to count. -/
theorem StatedBy.eq_zero (h : q.StatedBy []) : q = ⟨0, 0⟩ := by
  obtain ⟨poolSize, processed⟩ := q
  obtain ⟨-, hpool, hprocessed⟩ := h
  obtain rfl : poolSize = 0 := by simpa [valuesOf, Once] using hpool
  obtain rfl : processed = 0 := by simpa [valuesOf, Once] using hprocessed
  rfl

end QueueStats

/-! ### The global state -/

namespace GlobalState

/-- The fields of a global state. -/
inductive Key where
  | lastAllocated
  | totalCoverage
  | current
  | queue
deriving DecidableEq, Repr

namespace Key

/-- The key of a field in an object. -/
def name : Key → String
  | lastAllocated => "last_allocated_id"
  | totalCoverage => "total_coverage"
  | current => "current_fuzzing_id"
  | queue => "queue_stats"

/-- What a field holds. -/
def Content : Key → Type
  | lastAllocated => Nat
  | totalCoverage => Nat
  | current => Option Nat
  | queue => Option QueueStats

/-- Which fields may be absent. -/
def absence : Key → Absence
  | lastAllocated => .fault
  | totalCoverage => .fault
  | current => .allowed
  | queue => .allowed

/-- A field of a global state. -/
def get : (k : Key) → GlobalState → k.Content
  | lastAllocated => GlobalState.lastAllocated
  | totalCoverage => GlobalState.totalCoverage
  | current => GlobalState.current
  | queue => GlobalState.queue

/-- A global state with another field. -/
def put : (k : Key) → GlobalState → k.Content → GlobalState
  | lastAllocated => fun g a => { g with lastAllocated := a }
  | totalCoverage => fun g a => { g with totalCoverage := a }
  | current => fun g a => { g with current := a }
  | queue => fun g a => { g with queue := a }

/-- The reader of a field. -/
def reader : (k : Key) → Reader k.Content
  | lastAllocated => readNatural 64
  | totalCoverage => readNatural 64
  | current => readCount
  | queue => readOption QueueStats.shape.read

end Key

/-- The fields of the global state's shape by their keys. -/
def schema : Schema shape where
  Key := Key
  Content := Key.Content
  keys := [.lastAllocated, .totalCoverage, .current, .queue]
  field k := .of k.name k.absence k.reader k.put
  get := Key.get
  put := Key.put
  fields_eq := rfl
  mem_keys k := by cases k <;> decide
  eq_of_name_eq k l h := by
    cases k <;> cases l <;> first | rfl | exact absurd h (by decide)
  get_put_self k g a := by cases k <;> rfl
  get_put_of_ne k l g a h := by
    cases k <;> cases l <;> first | rfl | exact absurd rfl h
  ext x y h := by
    obtain ⟨last, total, current, queue⟩ := x
    obtain rfl : last = _ := h .lastAllocated
    obtain rfl : total = _ := h .totalCoverage
    obtain rfl : current = _ := h .current
    obtain rfl : queue = _ := h .queue
    rfl

/-- What a value says as the value of a field. -/
def sense : (k : Key) → Value → Option k.Content
  | .lastAllocated => Value.natural? 64
  | .totalCoverage => Value.natural? 64
  | .current => Value.nullable (Value.natural? 64)
  | .queue => Value.nullable QueueStats.content?

variable {members members' : List (StringToken × Value)}

theorem senses (hlists : ∀ items, Value.array items ∉ valuesOf "queue_stats" members) :
    schema.Senses sense members := by
  intro m hm k hk draft
  refine readsAs_field ?_ k.name k.absence k.put draft
  cases k with
  | lastAllocated => exact readsAs_natural (by decide) m.2
  | totalCoverage => exact readsAs_natural (by decide) m.2
  | current => exact readsAs_option (readsAs_natural (by decide) m.2)
  | queue =>
    refine readsAs_option (QueueStats.readsAs_queue ?_)
    intro items hitems
    refine hlists items (List.mem_filterMap.mpr ⟨m, hm, ?_⟩)
    rw [hk, hitems]
    rfl

/-- Whether a global state is the one that members state. An optional field that is absent or `null` is
none. -/
structure StatedBy (g : GlobalState) (members : List (StringToken × Value)) : Prop where
  texts : ∀ m ∈ members, m.1.text?.isSome
  lastAllocated : Once (Value.natural? 64) (valuesOf "last_allocated_id" members) g.lastAllocated
  totalCoverage : Once (Value.natural? 64) (valuesOf "total_coverage" members) g.totalCoverage
  current : Unset (valuesOf "current_fuzzing_id" members) ∧ g.current = none ∨
    ∃ n, Once (Value.natural? 64) (valuesOf "current_fuzzing_id" members) n ∧ g.current = some n
  queue : Unset (valuesOf "queue_stats" members) ∧ g.queue = none ∨
    ∃ q, (∃ inner, valuesOf "queue_stats" members = [.object inner] ∧ q.StatedBy inner) ∧
      g.queue = some q

/-- Whether members can be those of a global state: their keys are texts, the last id and the total
coverage are given once, as naturals below `2 ^ 64`, and the id at work and the queue are given once, not
at all or as `null`. -/
structure Admissible (members : List (StringToken × Value)) : Prop where
  texts : ∀ m ∈ members, m.1.text?.isSome
  lastAllocated : ∃ n, Once (Value.natural? 64) (valuesOf "last_allocated_id" members) n
  totalCoverage : ∃ n, Once (Value.natural? 64) (valuesOf "total_coverage" members) n
  current : Unset (valuesOf "current_fuzzing_id" members) ∨
    ∃ n, Once (Value.natural? 64) (valuesOf "current_fuzzing_id" members) n
  queue : Unset (valuesOf "queue_stats" members) ∨
    ∃ inner, valuesOf "queue_stats" members = [.object inner] ∧ QueueStats.Admissible inner

variable {text : List UInt8} {g : GlobalState}

/-- A value that may be `null`, given once or not at all. -/
theorem optional_iff {α : Type} {content : Value → Option α} (hnull : content .null = none)
    {values : List Value} {a : Option α} :
    (values = [] ∧ a = none ∨ Once (Value.nullable content) values a) ↔
      (Unset values ∧ a = none ∨ ∃ b, Once content values b ∧ a = some b) := by
  match values with
  | [] => simp [Unset, Once]
  | [v] =>
    cases v with
    | null => simp [Unset, Once, Value.nullable, hnull, eq_comm]
    | boolean | number | string | array | object =>
      simp [Unset, Once, Value.nullable, @eq_comm _ a]
  | v :: w :: values => simp [Unset, Once]

/-- A queue that is given other than as `null` is an object with its counts. -/
theorem queue_iff {values : List Value} {a : Option QueueStats} :
    (values = [] ∧ a = none ∨ Once (Value.nullable QueueStats.content?) values a) ↔
      (Unset values ∧ a = none ∨
        ∃ q, (∃ inner, values = [.object inner] ∧ q.StatedBy inner) ∧ a = some q) := by
  have honce : ∀ q, Once QueueStats.content? values q ↔
      ∃ inner, values = [.object inner] ∧ q.StatedBy inner := by
    intro q
    constructor
    · rintro ⟨v, rfl, hq⟩
      cases v with
      | object inner => exact ⟨inner, rfl, QueueStats.value?_eq_some_iff.mp hq⟩
      | null | boolean | number | string | array => cases hq
    · rintro ⟨inner, rfl, hq⟩
      exact ⟨_, rfl, QueueStats.value?_eq_some_iff.mpr hq⟩
  refine (optional_iff rfl).trans ?_
  simp only [honce]

/-- What members state is stated field by field. -/
theorem statedBy_iff : g.StatedBy members ↔
    (∀ m ∈ members, m.1.text?.isSome) ∧ ∀ k, schema.States sense members g k := by
  have hlast : schema.States sense members g Key.lastAllocated ↔
      Once (Value.natural? 64) (valuesOf "last_allocated_id" members) g.lastAllocated :=
    Schema.states_iff_of_required rfl
  have htotal : schema.States sense members g Key.totalCoverage ↔
      Once (Value.natural? 64) (valuesOf "total_coverage" members) g.totalCoverage :=
    Schema.states_iff_of_required rfl
  have hcurrent : schema.States sense members g Key.current ↔
      (Unset (valuesOf "current_fuzzing_id" members) ∧ g.current = none ∨
        ∃ n, Once (Value.natural? 64) (valuesOf "current_fuzzing_id" members) n ∧
          g.current = some n) :=
    (Schema.states_iff_of_optional Absence.noConfusion).trans (optional_iff rfl)
  have hqueue : schema.States sense members g Key.queue ↔
      (Unset (valuesOf "queue_stats" members) ∧ g.queue = none ∨
        ∃ q, (∃ inner, valuesOf "queue_stats" members = [.object inner] ∧ q.StatedBy inner) ∧
          g.queue = some q) :=
    (Schema.states_iff_of_optional Absence.noConfusion).trans queue_iff
  constructor
  · rintro ⟨htexts, lastAllocated, totalCoverage, current, queue⟩
    refine ⟨htexts, ?_⟩
    intro (k : Key)
    cases k with
    | lastAllocated => exact hlast.mpr lastAllocated
    | totalCoverage => exact htotal.mpr totalCoverage
    | current => exact hcurrent.mpr current
    | queue => exact hqueue.mpr queue
  · rintro ⟨htexts, h⟩
    exact ⟨htexts, hlast.mp (h .lastAllocated), htotal.mp (h .totalCoverage), hcurrent.mp (h .current),
      hqueue.mp (h .queue)⟩

/-- An object is read as what its members state. -/
theorem parse_eq_ok_iff (hlists : ∀ items, Value.array items ∉ valuesOf "queue_stats" members)
    (h : Spread (Value.object members).tokens text) : parse text = .ok g ↔ g.StatedBy members :=
  (Shape.parse_object_iff (senses hlists) h).trans statedBy_iff.symm

theorem exists_statedBy_iff : (∃ g : GlobalState, g.StatedBy members) ↔ Admissible members := by
  constructor
  · rintro ⟨g, htexts, hlast, htotal, hcurrent, hqueue⟩
    refine ⟨htexts, ⟨_, hlast⟩, ⟨_, htotal⟩, ?_, ?_⟩
    · rcases hcurrent with ⟨hunset, -⟩ | ⟨n, hn, -⟩
      · exact .inl hunset
      · exact .inr ⟨n, hn⟩
    · rcases hqueue with ⟨hunset, -⟩ | ⟨q, ⟨inner, hvalues, hq⟩, -⟩
      · exact .inl hunset
      · exact .inr ⟨inner, hvalues, QueueStats.exists_statedBy_iff.mp ⟨q, hq⟩⟩
  · rintro ⟨htexts, ⟨last, hlast⟩, ⟨total, htotal⟩, hcurrent, hqueue⟩
    have hqueue' : Unset (valuesOf "queue_stats" members) ∨
        ∃ q : QueueStats, ∃ inner, valuesOf "queue_stats" members = [.object inner] ∧ q.StatedBy inner := by
      refine hqueue.imp_right ?_
      rintro ⟨inner, hvalues, hinner⟩
      obtain ⟨q, hq⟩ := QueueStats.exists_statedBy_iff.mpr hinner
      exact ⟨q, inner, hvalues, hq⟩
    obtain ⟨current, hcurrent⟩ := exists_optional hcurrent
    obtain ⟨queue, hqueue⟩ := exists_optional hqueue'
    exact ⟨⟨last, total, current, queue⟩, htexts, hlast, htotal, hcurrent, hqueue⟩

/-- The keys of the fields of a global state. -/
def fieldNames : List String :=
  ["last_allocated_id", "total_coverage", "current_fuzzing_id", "queue_stats"]

theorem Unset.length_le {values : List Value} (h : Unset values) : values.length ≤ 1 := by
  rcases h with rfl | rfl <;> simp

/-- No field is given twice. -/
theorem StatedBy.length_le (h : g.StatedBy members) {name : String} (hname : name ∈ fieldNames) :
    (valuesOf name members).length ≤ 1 := by
  simp only [fieldNames, List.mem_cons, List.not_mem_nil, or_false] at hname
  rcases hname with rfl | rfl | rfl | rfl
  · exact h.lastAllocated.length_le
  · exact h.totalCoverage.length_le
  · rcases h.current with ⟨hunset, -⟩ | ⟨n, hn, -⟩
    · exact Unset.length_le hunset
    · exact hn.length_le
  · rcases h.queue with ⟨hunset, -⟩ | ⟨q, ⟨inner, hvalues, -⟩, -⟩
    · exact Unset.length_le hunset
    · simp [hvalues]

/-- The same values make the same statements. -/
theorem StatedBy.of_same (h : g.StatedBy members) (hsame : SameUnder fieldNames members members') :
    g.StatedBy members' := by
  have hvalues : ∀ name ∈ fieldNames, valuesOf name members = valuesOf name members' :=
    fun name hname => hsame.eq_of_length_le hname (h.length_le hname)
  simp only [fieldNames, List.forall_mem_cons] at hvalues
  obtain ⟨hlast, htotal, hcurrent, hqueue, -⟩ := hvalues
  refine ⟨fun m hm => hsame.texts m (List.mem_append_right _ hm), ?_, ?_, ?_, ?_⟩
  · rw [← hlast]
    exact h.lastAllocated
  · rw [← htotal]
    exact h.totalCoverage
  · rw [← hcurrent]
    exact h.current
  · rw [← hqueue]
    exact h.queue

/-- Another object in the place of the queue's, with the same values for its fields, makes the same
statements. -/
theorem StatedBy.of_same_queue {front back inner inner' : List (StringToken × Value)} {key : StringToken}
    (hkey : key.text? = some "queue_stats")
    (hsame : SameUnder ["pool_size", "processed_count"] inner inner')
    (h : g.StatedBy (front ++ (key, .object inner) :: back)) :
    g.StatedBy (front ++ (key, .object inner') :: back) := by
  have hothers : ∀ name ≠ "queue_stats", valuesOf name (front ++ (key, .object inner') :: back)
      = valuesOf name (front ++ (key, .object inner) :: back) := by
    intro name hname
    have hne : key.text? ≠ some name := by
      rw [hkey]
      exact fun heq => hname (Option.some.inj heq).symm
    rw [valuesOf_middle_of_ne hne, valuesOf_middle_of_ne hne]
  have hqueue := fun v : Value => @valuesOf_middle "queue_stats" front back key hkey v
  have hle := h.length_le (show "queue_stats" ∈ fieldNames by simp [fieldNames])
  rw [hqueue, List.length_append, List.length_cons] at hle
  have hfront : valuesOf "queue_stats" front = [] := List.length_eq_zero_iff.mp (by omega)
  have hback : valuesOf "queue_stats" back = [] := List.length_eq_zero_iff.mp (by omega)
  simp only [hfront, hback, List.nil_append] at hqueue
  refine ⟨?_, ?_, ?_, ?_, ?_⟩
  · intro m hm
    have htexts := h.texts
    simp only [List.forall_mem_append, List.forall_mem_cons] at htexts
    rcases List.mem_append.mp hm with hm | hm
    · exact htexts.1 m hm
    · rcases List.mem_cons.mp hm with rfl | hm
      · exact htexts.2.1
      · exact htexts.2.2 m hm
  · rw [hothers _ (by decide)]
    exact h.lastAllocated
  · rw [hothers _ (by decide)]
    exact h.totalCoverage
  · rw [hothers _ (by decide)]
    exact h.current
  · rcases h.queue with ⟨hunset, -⟩ | ⟨q, ⟨inner₀, hvalues, hq⟩, hg⟩
    · rw [hqueue] at hunset
      simp [Unset] at hunset
    · rw [hqueue] at hvalues
      obtain rfl : inner = inner₀ := by simpa using hvalues
      exact .inr ⟨q, ⟨inner', hqueue _, hq.of_same hsame⟩, hg⟩

/-- A text that is an object, whose queue is not a list, is read exactly when its members are admissible,
and as the global state that they state; in particular an empty object for the queue counts nothing. The
order of the members and members that are no fields make no difference, neither in the object nor in the
queue's. -/
theorem parse_members {members : List (StringToken × Value)} {text : List UInt8}
    (h : Spread (Value.object members).tokens text)
    (hlists : ∀ items, Value.array items ∉ valuesOf "queue_stats" members) :
    ((∃ g, parse text = .ok g) ↔ Admissible members) ∧
    (∀ g, parse text = .ok g ↔ g.StatedBy members) ∧
    (∀ g, parse text = .ok g → valuesOf "queue_stats" members = [.object []] →
      g.queue = some ⟨0, 0⟩) ∧
    (∀ members' text', Spread (Value.object members').tokens text' →
      SameUnder fieldNames members members' → ∀ g, parse text = .ok g ↔ parse text' = .ok g) ∧
    ∀ front back inner inner' key text', members = front ++ (key, .object inner) :: back →
      key.text? = some "queue_stats" → SameUnder ["pool_size", "processed_count"] inner inner' →
      Spread (Value.object (front ++ (key, .object inner') :: back)).tokens text' →
      ∀ g, parse text = .ok g ↔ parse text' = .ok g := by
  have hparse : ∀ g, parse text = .ok g ↔ g.StatedBy members := fun g => parse_eq_ok_iff hlists h
  refine ⟨?_, hparse, ?_, ?_, ?_⟩
  · rw [← exists_statedBy_iff]
    exact exists_congr hparse
  · intro g hg hvalues
    rcases ((hparse g).mp hg).queue with ⟨hunset, -⟩ | ⟨q, ⟨inner, hinner, hq⟩, hsome⟩
    · rw [hvalues] at hunset
      simp [Unset] at hunset
    · obtain rfl : [] = inner := by simpa [hvalues] using hinner
      rw [hsome, hq.eq_zero]
  · intro members' text' h' hsame g
    have hlists' : ∀ items, Value.array items ∉ valuesOf "queue_stats" members' := by
      intro items hitems
      exact hlists items ((hsame.values _ (by simp [fieldNames])).mem_iff.mpr hitems)
    rw [hparse, parse_eq_ok_iff hlists' h']
    exact ⟨fun hg => hg.of_same hsame, fun hg => hg.of_same hsame.symm⟩
  · rintro front back inner inner' key text' rfl hkey hsame h' g
    have hlists' : ∀ items,
        Value.array items ∉ valuesOf "queue_stats" (front ++ (key, .object inner') :: back) := by
      intro items hitems
      refine hlists items ?_
      rw [valuesOf_middle hkey] at hitems ⊢
      simpa using hitems
    rw [hparse, parse_eq_ok_iff hlists' h']
    exact ⟨fun hg => hg.of_same_queue hkey hsame, fun hg => hg.of_same_queue hkey hsame.symm⟩

/-- A member with a text as its key. -/
def member (key : String) (v : Value) : StringToken × Value := (.ofText key, v)

/-- A digit as a value. -/
def digit (d : Fin 10) : Value := .number ⟨false, ⟨d, []⟩, none, none, fun _ => rfl⟩

/-- The queue with one of its counts, and with a member that is no field. -/
def scatteredQueue : List (StringToken × Value) :=
  [member "last_allocated_id" .null, member "pool_size" (digit 3)]

/-- The fields in no order, between two members that share a key and are no fields, of which the first one
has a field's key inside. -/
def scattered : List (StringToken × Value) :=
  [member "x" (.array [.object [member "total_coverage" .null]]),
    member "queue_stats" (.object scatteredQueue), member "total_coverage" (digit 5),
    member "x" (.boolean true), member "current_fuzzing_id" .null,
    member "last_allocated_id" (digit 7)]

/-- The members in a text with two blanks in front of each token. -/
def scatteredText : List UInt8 :=
  (Value.object scattered).tokens.flatMap ([ascii '\n', ascii ' '] ++ ·)

theorem parse_scatteredMembers :
    Spread (Value.object scattered).tokens scatteredText ∧
      (∀ items, Value.array items ∉ valuesOf "queue_stats" scattered) ∧
      parse scatteredText = .ok ⟨7, 5, none, some ⟨3, 0⟩⟩ := by
  have hspread : Spread (Value.object scattered).tokens scatteredText := .flatMap (by decide) _
  have hvalues : valuesOf "last_allocated_id" scattered = [digit 7] ∧
      valuesOf "total_coverage" scattered = [digit 5] ∧
      valuesOf "current_fuzzing_id" scattered = [.null] ∧
      valuesOf "queue_stats" scattered = [.object scatteredQueue] := by
    simp [valuesOf, scattered, member, StringToken.text?_ofText]
  have hinner : valuesOf "pool_size" scatteredQueue = [digit 3] ∧
      valuesOf "processed_count" scatteredQueue = [] := by
    simp [valuesOf, scatteredQueue, member, StringToken.text?_ofText]
  obtain ⟨hlast, htotal, hcurrent, hqueue⟩ := hvalues
  have hlists : ∀ items, Value.array items ∉ valuesOf "queue_stats" scattered := by
    simp [hqueue]
  have htexts : ∀ m ∈ scattered, m.1.text?.isSome := by
    simp [scattered, member, StringToken.text?_ofText]
  have htexts' : ∀ m ∈ scatteredQueue, m.1.text?.isSome := by
    simp [scatteredQueue, member, StringToken.text?_ofText]
  have hstated : (⟨3, 0⟩ : QueueStats).StatedBy scatteredQueue :=
    ⟨htexts', .inr ⟨_, hinner.1, rfl⟩, .inl ⟨hinner.2, rfl⟩⟩
  refine ⟨hspread, hlists, ((parse_members hspread hlists).2.1 _).mpr ?_⟩
  exact ⟨htexts, ⟨_, hlast, rfl⟩, ⟨_, htotal, rfl⟩, .inl ⟨.inr hcurrent, rfl⟩,
    .inr ⟨_, ⟨_, hqueue, hstated⟩, rfl⟩⟩

end GlobalState

end FuzzCampaign
