/-!
Counts per key, in ascending order of the keys. A key that is counted for the first time is put in
its place. Main statement: the counts add up to the number of keys that were counted.
-/

namespace FuzzCampaign

/-- Keys with a count each, ascending. -/
abbrev Tally (κ : Type) := List (κ × Nat)

namespace Tally

variable {κ : Type} [LT κ] [DecidableLT κ]

/-- One more of a key. -/
def bump (k : κ) : Tally κ → Tally κ
  | [] => [(k, 1)]
  | (j, n) :: rest =>
    if k < j then (k, 1) :: (j, n) :: rest
    else if j < k then (j, n) :: bump k rest
    else (j, n + 1) :: rest

/-- How often each key occurs. -/
def ofKeys (keys : List κ) : Tally κ := keys.foldl (fun t k => bump k t) []

/-- Sets the count of a key. -/
def put (k : κ) (count : Nat) : Tally κ → Tally κ
  | [] => [(k, count)]
  | (j, n) :: rest =>
    if k < j then (k, count) :: (j, n) :: rest
    else if j < k then (j, n) :: put k count rest
    else (k, count) :: rest

/-- Counts that are given one by one, of which the last for a key stands. -/
def ofCounts (counts : List (κ × Nat)) : Tally κ := counts.foldl (fun t c => put c.1 c.2 t) []

/-- The count of a key; one that does not occur has none. -/
def count [DecidableEq κ] (t : Tally κ) (k : κ) : Nat := (t.lookup k).getD 0

/-- All counts together. -/
def total : Tally κ → Nat
  | [] => 0
  | (_, n) :: rest => n + total rest

theorem total_bump (k : κ) (t : Tally κ) : (t.bump k).total = t.total + 1 := by
  fun_induction bump k t with
  | case1 => rfl
  | case2 j n rest => simp [total, Nat.add_comm]
  | case3 j n rest _ _ ih => simp_all [total, Nat.add_assoc]
  | case4 j n rest => simp [total, Nat.add_right_comm]

theorem total_foldl_bump (keys : List κ) (t : Tally κ) :
    (keys.foldl (fun t k => bump k t) t).total = t.total + keys.length := by
  induction keys generalizing t with
  | nil => rfl
  | cons k rest ih =>
    rw [List.foldl_cons, ih, total_bump, List.length_cons, Nat.add_assoc, Nat.add_comm 1]

theorem total_ofKeys (keys : List κ) : (ofKeys keys).total = keys.length := by
  rw [ofKeys, total_foldl_bump]
  exact Nat.zero_add _

end Tally

end FuzzCampaign
