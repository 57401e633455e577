import FuzzCampaign.Proofs.Toml.KeyOrder
import FuzzCampaign.Toml.Document

/-!
The tree of a document has no key twice. A key is added to a table in the making only where it is
missing, and all else that is done to a table keeps its keys or leaves some out; a finished table has the
keys that it had in the making. Main statement: whatever the text, in the tree that it is parsed into no
table has a key twice.
-/

namespace FuzzCampaign.Toml

/-! ### Tables in the making -/

/-- No table of a node in the making has a key twice. -/
inductive Draft.Distinct : Draft → Prop where
  | value {v : Value} (inner : v.Distinct) : Distinct (.value v)
  | table {origin : Origin} {entries : Entries} (keys : (entries.map (·.1)).Nodup)
      (inner : ∀ e ∈ entries, Distinct e.2) : Distinct (.table origin entries)
  | tables {items : List Entries} (keys : ∀ entries ∈ items, (entries.map (·.1)).Nodup)
      (inner : ∀ entries ∈ items, ∀ e ∈ entries, Distinct e.2) : Distinct (.tables items)

/-- No key stands twice among some entries, nor in a table below them. -/
structure DistinctEntries (entries : Entries) : Prop where
  keys : (entries.map (·.1)).Nodup
  inner : ∀ e ∈ entries, e.2.Distinct

variable {entries entries' : Entries} {items : List Entries} {node : Draft} {origin : Origin}
  {key : String} {path : List String} {v : Value}

theorem Draft.Distinct.of_table (h : (Draft.table origin entries).Distinct) :
    DistinctEntries entries := by
  cases h with
  | table keys inner => exact ⟨keys, inner⟩

theorem Draft.Distinct.of_tables (h : (Draft.tables items).Distinct) (hmem : entries ∈ items) :
    DistinctEntries entries := by
  cases h with
  | tables keys inner => exact ⟨keys _ hmem, inner _ hmem⟩

theorem Draft.distinct_tables (h : ∀ entries ∈ items, DistinctEntries entries) :
    (Draft.tables items).Distinct :=
  .tables (fun _ hmem => (h _ hmem).keys) fun _ hmem => (h _ hmem).inner

namespace DistinctEntries

theorem nil : DistinctEntries [] := ⟨List.nodup_nil, by simp⟩

theorem table (h : DistinctEntries entries) : (Draft.table origin entries).Distinct :=
  .table h.keys h.inner

theorem of_lookup (h : DistinctEntries entries) (hnode : entries.lookup key = some node) :
    node.Distinct := by
  obtain ⟨front, back, rfl, -⟩ := List.lookup_eq_some_iff.mp hnode
  exact h.inner (key, node) (by simp)

/-- A key that is missing may be added. -/
theorem concat (h : DistinctEntries entries) (hmissing : key ∉ entries.map (·.1))
    (hnode : node.Distinct) : DistinctEntries (entries ++ [(key, node)]) := by
  refine ⟨?_, ?_⟩
  · rw [List.map_append, List.map_singleton, ← List.concat_eq_append]
    exact h.keys.concat hmissing
  · exact List.forall_mem_append.mpr ⟨h.inner, List.forall_mem_singleton.mpr hnode⟩

theorem concat_of_lookup (h : DistinctEntries entries) (hmissing : entries.lookup key = none)
    (hnode : node.Distinct) : DistinctEntries (entries ++ [(key, node)]) := by
  refine h.concat ?_ hnode
  intro hkey
  obtain ⟨e, he, rfl⟩ := List.mem_map.mp hkey
  exact absurd (List.lookup_eq_none_iff.mp hmissing e he) (by simp)

/-- Another node for a key leaves the keys as they are. -/
theorem replaceEntry (h : DistinctEntries entries) (hnode : node.Distinct) :
    DistinctEntries (replaceEntry key node entries) := by
  have hkeys : (Toml.replaceEntry key node entries).map (·.1) = entries.map (·.1) := by
    rw [Toml.replaceEntry, List.map_map]
    refine List.map_congr_left fun e _ => ?_
    by_cases he : e.1 = key
    · simp [he]
    · simp [he]
  refine ⟨hkeys ▸ h.keys, ?_⟩
  refine List.forall_mem_map.mpr fun e he => ?_
  split
  · exact hnode
  · exact h.inner e he

/-- A key may be moved to the end, with another node. -/
theorem move (h : DistinctEntries entries) (hnode : node.Distinct) :
    DistinctEntries (entries.filter (·.1 ≠ key) ++ [(key, node)]) := by
  have hrest : DistinctEntries (entries.filter (·.1 ≠ key)) :=
    ⟨h.keys.sublist (List.filter_sublist.map _), fun e he => h.inner e (List.mem_of_mem_filter he)⟩
  refine hrest.concat ?_ hnode
  simp

end DistinctEntries

/-- A change keeps keys distinct. -/
def KeepsDistinct (change : Entries → Option Entries) : Prop :=
  ∀ entries entries', change entries = some entries' → DistinctEntries entries →
    DistinctEntries entries'

/-- A change at the end of a path keeps keys distinct if it does so there. -/
theorem KeepsDistinct.changeAt {change : Origin → Entries → Option Entries}
    (hchange : ∀ o, KeepsDistinct (change o)) (path : List String) (here : Origin) :
    KeepsDistinct (changeAt origin change path here) := by
  induction path generalizing here with
  | nil => exact hchange here
  | cons key path ih =>
    intro entries entries' h hentries
    rw [Toml.changeAt] at h
    -- the table on the way is missing, a value, a table, or the last one of an array
    split at h
    · next hmissing =>
      obtain ⟨inner, hinner, rfl⟩ := Option.map_eq_some_iff.mp h
      exact hentries.concat_of_lookup hmissing (ih _ _ _ hinner .nil).table
    · cases h
    · next o inner hfound =>
      split at h
      · cases h
      · obtain ⟨inner', hinner, rfl⟩ := Option.map_eq_some_iff.mp h
        exact hentries.replaceEntry (ih _ _ _ hinner (hentries.of_lookup hfound).of_table).table
    · next items hfound =>
      split at h
      · cases h
      · next last hlast =>
        obtain ⟨last', hinner, rfl⟩ := Option.map_eq_some_iff.mp h
        have hitems : ∀ entries ∈ items, DistinctEntries entries :=
          fun _ hmem => (hentries.of_lookup hfound).of_tables hmem
        refine hentries.replaceEntry (Draft.distinct_tables (List.forall_mem_append.mpr ⟨?_, ?_⟩))
        · exact fun entries hmem => hitems entries (List.dropLast_subset items hmem)
        · have hlast' := ih _ _ _ hinner (hitems last (List.mem_of_getLast? hlast))
          exact List.forall_mem_singleton.mpr hlast'

theorem keepsDistinct_addEntry (h : v.Distinct) : KeepsDistinct (addEntry key v) := by
  intro entries entries' hadd hentries
  rw [addEntry] at hadd
  split at hadd
  · cases hadd
  · next hmissing =>
    obtain rfl := Option.some.inj hadd
    exact hentries.concat_of_lookup (Option.not_isSome_iff_eq_none.mp hmissing) (.value h)

theorem keepsDistinct_addPair (h : v.Distinct) : KeepsDistinct (addPair path key v) := by
  cases path with
  | nil => exact keepsDistinct_addEntry h
  | cons first path =>
    refine KeepsDistinct.changeAt (fun o => ?_) (first :: path) .opened
    intro entries entries' hadd hentries
    split at hadd
    · exact keepsDistinct_addEntry h _ _ hadd hentries
    · cases hadd

theorem keepsDistinct_openTable : KeepsDistinct (openTable path key) := by
  refine KeepsDistinct.changeAt (fun _ => ?_) path .opened
  intro entries entries' hopen hentries
  dsimp only at hopen
  split at hopen
  · next hmissing =>
    obtain rfl := Option.some.inj hopen
    exact hentries.concat_of_lookup hmissing DistinctEntries.nil.table
  · next kept hfound =>
    obtain rfl := Option.some.inj hopen
    exact hentries.move (hentries.of_lookup hfound).of_table.table
  · cases hopen

theorem keepsDistinct_openItem : KeepsDistinct (openItem path key) := by
  refine KeepsDistinct.changeAt (fun _ => ?_) path .opened
  intro entries entries' hopen hentries
  dsimp only at hopen
  split at hopen
  · next hmissing =>
    obtain rfl := Option.some.inj hopen
    refine hentries.concat_of_lookup hmissing (Draft.distinct_tables ?_)
    exact List.forall_mem_singleton.mpr .nil
  · next items hfound =>
    obtain rfl := Option.some.inj hopen
    refine hentries.replaceEntry (Draft.distinct_tables (List.forall_mem_append.mpr ⟨?_, ?_⟩))
    · exact fun _ hmem => (hentries.of_lookup hfound).of_tables hmem
    · exact List.forall_mem_singleton.mpr .nil
  · cases hopen

/-! ### Finished tables -/

theorem finishEntries_eq_map (entries : Entries) :
    finishEntries entries = entries.map fun e => (e.1, e.2.finish) := by
  induction entries with
  | nil => rfl
  | cons e entries ih => simp only [finishEntries, List.map_cons, ih]

theorem finishItems_eq_map (items : List Entries) :
    finishItems items = items.map fun entries => .table (finishEntries entries) := by
  induction items with
  | nil => rfl
  | cons entries items ih => simp only [finishItems, List.map_cons, ih]

/-- A table is distinct when it is finished if what stands under its keys is. -/
theorem distinct_finishEntries_of_inner (keys : (entries.map (·.1)).Nodup)
    (inner : ∀ e ∈ entries, e.2.finish.Distinct) :
    (Value.table (finishEntries entries)).Distinct := by
  rw [finishEntries_eq_map]
  refine .table ?_ (List.forall_mem_map.mpr inner)
  rw [List.map_map]
  exact keys

theorem Draft.Distinct.finish (h : node.Distinct) : node.finish.Distinct := by
  induction h with
  | value inner => exact inner
  | table keys _ ih => exact distinct_finishEntries_of_inner keys ih
  | tables keys _ ih =>
    rw [Draft.finish, finishItems_eq_map]
    refine .array (List.forall_mem_map.mpr fun entries hmem => ?_)
    exact distinct_finishEntries_of_inner (keys entries hmem) (ih entries hmem)

theorem DistinctEntries.finish (h : DistinctEntries entries) :
    (Value.table (finishEntries entries)).Distinct :=
  distinct_finishEntries_of_inner h.keys fun e he => (h.inner e he).finish

/-! ### Values in the text -/

/-- All that a scanner finds has a property. -/
def Finds {α : Type} (P : α → Prop) (scan : Scanner α) : Prop :=
  ∀ cs found rest, scan cs = some (found, rest) → P found

theorem Finds.orElse {α : Type} {P : α → Prop} {first second : Scanner α} (h : Finds P first)
    (h' : Finds P second) : Finds P fun cs => first cs <|> second cs := by
  intro cs found rest hscan
  rcases Option.or_eq_some_iff.mp (Option.orElse_eq_or.symm.trans hscan) with hfirst | ⟨-, hsecond⟩
  · exact h cs found rest hfirst
  · exact h' cs found rest hsecond

theorem finds_scanBoolean : Finds Value.Distinct scanBoolean := by
  intro cs found rest h
  rw [scanBoolean.eq_def] at h
  split at h
  · cases h
    exact .boolean true
  · cases h
    exact .boolean false
  · cases h

theorem finds_scanDatetime : Finds Value.Distinct scanDatetime := by
  intro cs found rest h
  rw [scanDatetime] at h
  split at h
  · cases h
    exact .datetime
  · obtain ⟨_, -, heq⟩ := Option.map_eq_some_iff.mp h
    cases heq
    exact .datetime

theorem finds_scanReal : Finds Value.Distinct scanReal := by
  intro cs found rest h
  rw [scanReal] at h
  dsimp only at h
  split at h
  · rw [scanSpecial.eq_def] at h
    split at h
    · cases h
      exact .real _
    · cases h
      exact .real _
    · cases h
  · split at h
    · cases h
    · split at h
      · cases h
      · split at h
        · cases h
        · split at h
          · cases h
          · cases h
            exact .real _

theorem distinct_of_integer? {isNegative : Bool} {n : Nat} (h : integer? isNegative n = some v) :
    v.Distinct := by
  rw [integer?] at h
  split at h
  · split at h
    · cases h
      exact .integer _
    · cases h
  · split at h
    · cases h
      exact .integer _
    · cases h

theorem finds_scanBased (base : Nat) : Finds Value.Distinct (scanBased base) := by
  intro cs found rest h
  rw [scanBased] at h
  split at h
  · obtain ⟨v, hv, heq⟩ := Option.map_eq_some_iff.mp h
    cases heq
    exact distinct_of_integer? hv
  · cases h

theorem finds_scanInteger : Finds Value.Distinct scanInteger := by
  intro cs found rest h
  rw [scanInteger.eq_def] at h
  split at h
  · exact finds_scanBased 16 _ _ _ h
  · exact finds_scanBased 8 _ _ _ h
  · exact finds_scanBased 2 _ _ _ h
  · dsimp only at h
    split at h
    · obtain ⟨v, hv, heq⟩ := Option.map_eq_some_iff.mp h
      cases heq
      exact distinct_of_integer? hv
    · cases h

theorem finds_scanScalar : Finds Value.Distinct scanScalar := by
  have hstring : Finds Value.Distinct fun cs =>
      (scanString cs).map fun r => (Value.string r.1, r.2) := by
    intro cs found rest h
    obtain ⟨r, -, heq⟩ := Option.map_eq_some_iff.mp h
    cases heq
    exact .string r.1
  exact hstring.orElse <| finds_scanBoolean.orElse <| finds_scanDatetime.orElse <|
    finds_scanReal.orElse finds_scanInteger

section

variable {value : Scanner Value} (hvalue : Finds Value.Distinct value)

include hvalue

theorem finds_scanPairWith :
    Finds (fun pair : List String × String × Value => pair.2.2.Distinct) (scanPairWith value) := by
  intro cs found rest h
  rw [scanPairWith] at h
  split at h
  · cases h
  · split at h
    · cases h
    · obtain ⟨r, hr, heq⟩ := Option.map_eq_some_iff.mp h
      cases heq
      exact hvalue _ _ _ hr

theorem finds_scanItems (bound : Nat) :
    Finds (fun items : List Value => ∀ v ∈ items, v.Distinct) (scanItems value bound) := by
  induction bound with
  | zero =>
    intro cs items rest h
    cases h
  | succ bound ih =>
    intro cs items rest h
    rw [scanItems] at h
    split at h
    · cases h
      simp
    · split at h
      · cases h
      · next v behind hv =>
        split at h
        · cases h
          exact List.forall_mem_singleton.mpr (hvalue _ _ _ hv)
        · obtain ⟨r, hr, heq⟩ := Option.map_eq_some_iff.mp h
          cases heq
          exact List.forall_mem_cons.mpr ⟨hvalue _ _ _ hv, ih _ _ _ hr⟩
        · cases h

theorem finds_scanMorePairs (bound : Nat) (hentries : DistinctEntries entries) :
    Finds DistinctEntries (scanMorePairs value bound entries) := by
  induction bound generalizing entries with
  | zero =>
    intro cs found rest h
    cases h
  | succ bound ih =>
    intro cs found rest h
    rw [scanMorePairs] at h
    split at h
    · cases h
      exact hentries
    · split at h
      · cases h
      · next path key v behind hpair =>
        split at h
        · cases h
        · next entries' hadd =>
          have hv := finds_scanPairWith hvalue _ _ _ hpair
          exact ih (keepsDistinct_addPair hv _ _ hadd hentries) _ _ _ h
    · cases h

theorem finds_scanInline : Finds Value.Distinct (scanInline value) := by
  intro cs found rest h
  rw [scanInline] at h
  split at h
  · cases h
    exact DistinctEntries.nil.finish
  · split at h
    · cases h
    · next path key v behind hpair =>
      split at h
      · cases h
      · next entries hadd =>
        obtain ⟨r, hr, heq⟩ := Option.map_eq_some_iff.mp h
        cases heq
        have hv := finds_scanPairWith hvalue _ _ _ hpair
        exact (finds_scanMorePairs hvalue _ (keepsDistinct_addPair hv _ _ hadd .nil) _ _ _ hr).finish

end

theorem finds_scanValue (depth : Nat) : Finds Value.Distinct (scanValue depth) := by
  induction depth with
  | zero => exact finds_scanScalar
  | succ depth ih =>
    intro cs found rest h
    rw [scanValue.eq_def] at h
    dsimp only at h
    split at h
    · obtain ⟨r, hr, heq⟩ := Option.map_eq_some_iff.mp h
      cases heq
      exact .array (finds_scanItems ih _ _ _ _ hr)
    · exact finds_scanInline ih _ _ _ h
    · exact finds_scanScalar _ _ _ h

/-! ### Documents -/

/-- The value that a line gives to a key, if it does, has no key twice. -/
def Statement.Distinct : Statement → Prop
  | .pair _ _ value => value.Distinct
  | .header _ _ | .itemHeader _ _ => True

theorem finds_scanStatement : Finds Statement.Distinct scanStatement := by
  intro cs found rest h
  rw [scanStatement.eq_def] at h
  split at h
  · obtain ⟨r, -, heq⟩ := Option.map_eq_some_iff.mp h
    cases heq
    exact trivial
  · obtain ⟨r, -, heq⟩ := Option.map_eq_some_iff.mp h
    cases heq
    exact trivial
  · split at h
    · cases h
    · next path key v behind hpair =>
      obtain ⟨_, -, heq⟩ := Option.map_eq_some_iff.mp h
      cases heq
      exact finds_scanPairWith (finds_scanValue _) _ _ _ hpair

theorem distinct_of_scanStatements {bound : Nat} {cs : List Char} {statements : List Statement}
    (h : scanStatements bound cs = some statements) : ∀ s ∈ statements, s.Distinct := by
  induction bound generalizing cs statements with
  | zero =>
    rw [scanStatements] at h
    split at h
    · cases h
      simp
    · cases h
  | succ bound ih =>
    rw [scanStatements] at h
    split at h
    · cases h
      simp
    · split at h
      · exact ih h
      · split at h
        · cases h
        · next s rest hs =>
          obtain ⟨more, hmore, rfl⟩ := Option.map_eq_some_iff.mp h
          exact List.forall_mem_cons.mpr ⟨finds_scanStatement _ _ _ hs, ih hmore⟩

/-- A line keeps the keys of the tables so far distinct. -/
theorem Building.distinct_add {b b' : Building} {s : Statement} (hs : s.Distinct)
    (h : b.add s = some b') (hb : DistinctEntries b.root) : DistinctEntries b'.root := by
  cases s with
  | pair path key value =>
    obtain ⟨root, hroot, rfl⟩ := Option.map_eq_some_iff.mp h
    have hkeeps : KeepsDistinct (changeAt .passed (fun _ inner => addPair path key value inner)
        b.current .opened) := .changeAt (fun _ => keepsDistinct_addPair hs) _ _
    exact hkeeps _ _ hroot hb
  | header path key =>
    obtain ⟨root, hroot, rfl⟩ := Option.map_eq_some_iff.mp h
    exact keepsDistinct_openTable _ _ hroot hb
  | itemHeader path key =>
    obtain ⟨root, hroot, rfl⟩ := Option.map_eq_some_iff.mp h
    exact keepsDistinct_openItem _ _ hroot hb

theorem Building.distinct_foldlM {statements : List Statement} {b b' : Building}
    (hall : ∀ s ∈ statements, s.Distinct) (h : statements.foldlM add b = some b')
    (hb : DistinctEntries b.root) : DistinctEntries b'.root := by
  induction statements generalizing b with
  | nil =>
    obtain rfl := Option.some.inj h
    exact hb
  | cons s statements ih =>
    rw [List.foldlM_cons] at h
    obtain ⟨next, hadd, hrest⟩ := Option.bind_eq_some_iff.mp h
    obtain ⟨hs, hall⟩ := List.forall_mem_cons.mp hall
    exact ih hall hrest (distinct_add hs hadd hb)

/-- In the tree of a document no table has a key twice. -/
theorem distinct_of_parse {text : String} {entries : List (String × Value)}
    (h : parse text = some entries) : (Value.table entries).Distinct := by
  obtain ⟨statements, hscan, hbuild⟩ := Option.bind_eq_some_iff.mp h
  obtain ⟨b, hfold, rfl⟩ := Option.map_eq_some_iff.mp hbuild
  exact (Building.distinct_foldlM (distinct_of_scanStatements hscan) hfold .nil).finish

end FuzzCampaign.Toml
