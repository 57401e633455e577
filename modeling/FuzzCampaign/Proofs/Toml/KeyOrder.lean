import FuzzCampaign.Toml.Value
import Mathlib.Data.List.Nodup

/-!
Trees in which no table has a key twice, and trees that differ in the order of keys only. Main
statements: reordering keeps each table's keys and what kind of value each of them has, keeps values
without parts as they are, and brings no key in twice.
-/

namespace FuzzCampaign.Toml

/-- No table of a value has a key twice. -/
inductive Value.Distinct : Value → Prop where
  | string (text : String) : Distinct (.string text)
  | integer (value : Int) : Distinct (.integer value)
  | real (value : Real) : Distinct (.real value)
  | boolean (value : Bool) : Distinct (.boolean value)
  | datetime : Distinct .datetime
  | array {items : List Value} (inner : ∀ v ∈ items, Distinct v) : Distinct (.array items)
  | table {entries : List (String × Value)} (keys : (entries.map (·.1)).Nodup)
      (inner : ∀ e ∈ entries, Distinct e.2) : Distinct (.table entries)

/-- One value is another one with the keys of its tables in another order, at any depth. -/
inductive Reordered : Value → Value → Prop where
  | refl (v : Value) : Reordered v v
  | trans {u v w : Value} (first : Reordered u v) (second : Reordered v w) : Reordered u w
  | keys {entries entries' : List (String × Value)} (perm : entries.Perm entries') :
      Reordered (.table entries) (.table entries')
  | entry {front back : List (String × Value)} {key : String} {v w : Value} (inner : Reordered v w) :
      Reordered (.table (front ++ (key, v) :: back)) (.table (front ++ (key, w) :: back))
  | item {front back : List Value} {v w : Value} (inner : Reordered v w) :
      Reordered (.array (front ++ v :: back)) (.array (front ++ w :: back))

variable {entries entries' : List (String × Value)} {v w : Value}

namespace Value

theorem distinct_array_iff {items : List Value} :
    (array items).Distinct ↔ ∀ v ∈ items, v.Distinct := by
  constructor
  · rintro ⟨⟩
    assumption
  · exact Distinct.array

theorem distinct_table_iff :
    (table entries).Distinct ↔ (entries.map (·.1)).Nodup ∧ ∀ e ∈ entries, e.2.Distinct := by
  constructor
  · rintro ⟨⟩
    exact ⟨‹_›, ‹_›⟩
  · rintro ⟨keys, inner⟩
    exact .table keys inner

theorem Distinct.nodup_keys (h : (Value.table entries).Distinct) : (entries.map (·.1)).Nodup :=
  (distinct_table_iff.mp h).1

theorem Distinct.of_mem (h : (Value.table entries).Distinct) {key : String} (hv : (key, v) ∈ entries) :
    v.Distinct :=
  (distinct_table_iff.mp h).2 _ hv

end Value

/-! ### What reordering keeps -/

/-- Entries have a counterpart each, under the same key, that is a reordering. -/
def Covered (entries entries' : List (String × Value)) : Prop :=
  ∀ key v, (key, v) ∈ entries → ∃ w, (key, w) ∈ entries' ∧ Reordered v w

theorem Covered.of_subset (h : ∀ e ∈ entries, e ∈ entries') : Covered entries entries' :=
  fun _ v hv => ⟨v, h _ hv, .refl v⟩

theorem Covered.trans {entries'' : List (String × Value)} (h : Covered entries entries')
    (h' : Covered entries' entries'') : Covered entries entries'' := by
  intro key u hu
  obtain ⟨v, hv, huv⟩ := h key u hu
  obtain ⟨w, hw, hvw⟩ := h' key v hv
  exact ⟨w, hw, huv.trans hvw⟩

theorem Covered.entry {front back : List (String × Value)} {key : String} (h : Reordered v w) :
    Covered (front ++ (key, v) :: back) (front ++ (key, w) :: back) := by
  intro k u hu
  rcases List.mem_append.mp hu with hfront | hback
  · exact ⟨u, List.mem_append_left _ hfront, .refl u⟩
  · rcases List.mem_cons.mp hback with heq | hback
    · cases heq
      exact ⟨w, by simp, h⟩
    · exact ⟨u, by simp [hback], .refl u⟩

/-- What stands in the place of a value: for a table a table with the same keys, for an array an array,
and for a value without parts the same value. -/
def Value.Counterpart : Value → Value → Prop
  | .table entries, w => ∃ entries', w = .table entries' ∧ Covered entries entries'
  | .array _, w => ∃ items, w = .array items
  | v, w => w = v

theorem Value.counterpart_self (v : Value) : v.Counterpart v := by
  cases v with
  | table entries => exact ⟨entries, rfl, .of_subset fun _ he => he⟩
  | array items => exact ⟨items, rfl⟩
  | string _ | integer _ | real _ | boolean _ | datetime => rfl

theorem Value.Counterpart.trans {u v w : Value} (h : u.Counterpart v) (h' : v.Counterpart w) :
    u.Counterpart w := by
  cases u with
  | table entries =>
    obtain ⟨entries', rfl, hcovered⟩ := h
    obtain ⟨entries'', rfl, hcovered'⟩ := h'
    exact ⟨entries'', rfl, hcovered.trans hcovered'⟩
  | array items =>
    obtain ⟨items', rfl⟩ := h
    exact h'
  | string _ | integer _ | real _ | boolean _ | datetime =>
    obtain rfl := h
    exact h'

namespace Reordered

theorem symm (h : Reordered v w) : Reordered w v := by
  induction h with
  | refl v => exact .refl v
  | trans _ _ ih ih' => exact ih'.trans ih
  | keys perm => exact .keys perm.symm
  | entry _ ih => exact .entry ih
  | item _ ih => exact .item ih

theorem counterpart (h : Reordered v w) : v.Counterpart w := by
  induction h with
  | refl v => exact v.counterpart_self
  | trans _ _ ih ih' => exact ih.trans ih'
  | keys perm => exact ⟨_, rfl, .of_subset fun _ he => perm.mem_iff.mp he⟩
  | entry inner _ => exact ⟨_, rfl, .entry inner⟩
  | item _ _ => exact ⟨_, rfl⟩

theorem covered (h : Reordered (.table entries) (.table entries')) : Covered entries entries' := by
  obtain ⟨_, heq, hcovered⟩ := h.counterpart
  cases heq
  exact hcovered

/-- Reordering brings no key in twice. -/
theorem distinct (h : Reordered v w) (hv : v.Distinct) : w.Distinct := by
  induction h with
  | refl _ => exact hv
  | trans _ _ ih ih' => exact ih' (ih hv)
  | keys perm =>
    rw [Value.distinct_table_iff] at hv ⊢
    exact ⟨(perm.map _).nodup_iff.mp hv.1, fun e he => hv.2 e (perm.mem_iff.mpr he)⟩
  | entry _ ih =>
    simp only [Value.distinct_table_iff, List.map_append, List.map_cons, List.forall_mem_append,
      List.forall_mem_cons] at hv ⊢
    obtain ⟨keys, front, inner, back⟩ := hv
    exact ⟨keys, front, ih inner, back⟩
  | item _ ih =>
    simp only [Value.distinct_array_iff, List.forall_mem_append, List.forall_mem_cons] at hv ⊢
    obtain ⟨front, inner, back⟩ := hv
    exact ⟨front, ih inner, back⟩

end Reordered

end FuzzCampaign.Toml
