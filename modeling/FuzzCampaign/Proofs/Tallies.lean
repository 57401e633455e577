import FuzzCampaign.Tally
import Mathlib.Order.Defs.Unbundled

/-!
What a tally says of the keys that were counted. Counting a key changes the count of that key alone
and keeps the keys in order, so whatever is asked of the keys one by one is answered by adding up
counts. Main statement: a tally of keys counts exactly those keys, each once and in ascending order.
-/

namespace FuzzCampaign.Tally

variable {κ : Type}

/-- Whether a tally is that of a list of keys: its keys are those of the list in ascending order, and
the counts of any of them add up to the number of times that these occur. -/
structure Counts [LT κ] (keys : List κ) (t : Tally κ) : Prop where
  ascending : (t.map (·.1)).Pairwise (· < ·)
  mem_keys : ∀ k, k ∈ t.map (·.1) ↔ k ∈ keys
  positive : ∀ e ∈ t, 0 < e.2
  total_filter : ∀ p : κ → Bool, total (t.filter fun e => p e.1) = keys.countP p

theorem counts_nil [LT κ] : Counts ([] : List κ) [] where
  ascending := .nil
  mem_keys k := by simp
  positive e he := by simp at he
  total_filter p := rfl

/-! ### Counting one more key -/

section

variable [LT κ] [DecidableLT κ] {j k : κ} {t : Tally κ}

theorem positive_bump (h : ∀ e ∈ t, 0 < e.2) : ∀ e ∈ t.bump k, 0 < e.2 := by
  fun_induction bump k t with
  | case1 => simp
  | case2 i n rest _ => simpa using h
  | case3 i n rest _ _ ih =>
    obtain ⟨hn, hrest⟩ := List.forall_mem_cons.mp h
    exact List.forall_mem_cons.mpr ⟨hn, ih hrest⟩
  | case4 i n rest _ _ =>
    obtain ⟨-, hrest⟩ := List.forall_mem_cons.mp h
    exact List.forall_mem_cons.mpr ⟨Nat.succ_pos n, hrest⟩

variable [Std.Trichotomous fun i j : κ => i < j]

theorem mem_keys_bump : j ∈ (t.bump k).map (·.1) ↔ j = k ∨ j ∈ t.map (·.1) := by
  fun_induction bump k t with
  | case1 => simp
  | case2 i n rest _ => simp
  | case3 i n rest _ _ ih =>
    rw [List.map_cons, List.mem_cons, ih, List.map_cons, List.mem_cons, or_left_comm]
  | case4 i n rest hki hik =>
    obtain rfl := Std.Trichotomous.trichotomous k i hki hik
    simp

theorem total_filter_bump (p : κ → Bool) :
    total ((t.bump k).filter fun e => p e.1)
      = total (t.filter fun e => p e.1) + if p k then 1 else 0 := by
  fun_induction bump k t with
  | case1 => cases hk : p k <;> simp [hk, total]
  | case2 i n rest _ =>
    cases hk : p k
    · simp [hk]
    · simp [hk, total, Nat.add_comm]
  | case3 i n rest _ _ ih =>
    cases hi : p i
    · simpa [hi] using ih
    · simp [hi, total, ih, Nat.add_assoc]
  | case4 i n rest hki hik =>
    obtain rfl := Std.Trichotomous.trichotomous k i hki hik
    cases hk : p k
    · simp [hk]
    · simp [hk, total, Nat.add_right_comm]

variable [IsTrans κ (· < ·)]

theorem ascending_bump (h : (t.map (·.1)).Pairwise (· < ·)) :
    ((t.bump k).map (·.1)).Pairwise (· < ·) := by
  fun_induction bump k t with
  | case1 => exact List.pairwise_singleton _ _
  | case2 i n rest hki =>
    refine List.pairwise_cons.mpr ⟨fun j hj => ?_, h⟩
    rcases List.mem_cons.mp hj with rfl | hj
    · exact hki
    · exact IsTrans.trans _ _ _ hki ((List.pairwise_cons.mp h).1 j hj)
  | case3 i n rest _ hik ih =>
    obtain ⟨hi, hrest⟩ := List.pairwise_cons.mp h
    refine List.pairwise_cons.mpr ⟨fun j hj => ?_, ih hrest⟩
    rcases mem_keys_bump.mp hj with rfl | hj
    · exact hik
    · exact hi j hj
  | case4 i n rest _ _ => exact h

/-- One more key keeps a tally that of the keys so far. -/
theorem Counts.bump {keys : List κ} (h : Counts keys t) (k : κ) :
    Counts (keys ++ [k]) (t.bump k) where
  ascending := ascending_bump h.ascending
  mem_keys j := by rw [mem_keys_bump, h.mem_keys, List.mem_append, List.mem_singleton, or_comm]
  positive := positive_bump h.positive
  total_filter p := by
    rw [total_filter_bump, h.total_filter, List.countP_append, List.countP_singleton]

theorem Counts.foldl_bump {before : List κ} (h : Counts before t) (keys : List κ) :
    Counts (before ++ keys) (keys.foldl (fun t k => t.bump k) t) := by
  induction keys generalizing before t with
  | nil => simpa using h
  | cons k rest ih => simpa using ih (h.bump k)

/-- A tally of keys is the tally of these keys. -/
theorem counts_ofKeys (keys : List κ) : Counts keys (ofKeys keys) := counts_nil.foldl_bump keys

end

/-! ### Reading a tally -/

/-- With keys that differ, the counts of a key add up to the one that is looked up. -/
theorem total_filter_key [DecidableEq κ] {t : Tally κ} (h : (t.map (·.1)).Nodup) (k : κ) :
    total (t.filter fun e => e.1 = k) = t.count k := by
  induction t with
  | nil => rfl
  | cons e rest ih =>
    obtain ⟨j, n⟩ := e
    obtain ⟨hj, hrest⟩ := List.nodup_cons.mp h
    by_cases hjk : j = k
    · subst hjk
      have hnone : rest.filter (fun e => e.1 = j) = [] := by
        refine List.filter_eq_nil_iff.mpr fun e he hej => hj ?_
        exact List.mem_map.mpr ⟨e, he, of_decide_eq_true hej⟩
      simp [count, hnone, total]
    · rw [List.filter_cons_of_neg (by simpa using hjk), ih hrest, count, count, List.lookup_cons,
        beq_eq_false_iff_ne.mpr (Ne.symm hjk)]

/-- The count of a key is the number of times that it occurs. -/
theorem Counts.count_eq [LT κ] [DecidableEq κ] [Std.Irrefl fun i j : κ => i < j] {keys : List κ}
    {t : Tally κ} (h : Counts keys t) (k : κ) : t.count k = keys.count k := by
  have hnodup : (t.map (·.1)).Nodup := h.ascending.imp ne_of_irrefl
  rw [← total_filter_key hnodup, h.total_filter fun j => j = k, List.count]
  exact List.countP_congr fun j _ => by simp

/-- With keys that differ, a key that is there is found with its count. -/
theorem count_of_mem [DecidableEq κ] {t : Tally κ} (h : (t.map (·.1)).Nodup) {k : κ} {n : Nat}
    (hmem : (k, n) ∈ t) : t.count k = n := by
  obtain ⟨front, back, rfl⟩ := List.append_of_mem hmem
  rw [List.map_append, List.map_cons, List.nodup_append] at h
  have hfound : (front ++ (k, n) :: back).lookup k = some n := by
    refine List.lookup_eq_some_iff.mpr ⟨front, back, rfl, fun e he => ?_⟩
    exact bne_iff_ne.mpr (h.2.2 e.1 (List.mem_map_of_mem he) k List.mem_cons_self).symm
  rw [count, hfound, Option.getD_some]

end FuzzCampaign.Tally
