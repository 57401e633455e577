import FuzzCampaign.FileSystem

/-!
What a look-up in a file system depends on. A path leads through one location after another, and
nothing else is looked at, so changes off the way are not seen. A new entry is off the way of every
path that was found before, and off the way of any other path that does not lead through its place.
Main statements: file systems that agree along a path agree on what it leads to, and a new entry
changes only what paths through it lead to.
-/

namespace FuzzCampaign.FileSystem

variable {fs fs' : FileSystem} {l : Location} {path : String}

/-- The locations that pieces lead through, from the first one to the last. -/
def through : Location → List String → List Location
  | l, [] => [l]
  | l, piece :: rest => l :: through (move l piece) rest

/-- The locations that a path leads through, with the one that it leads to. -/
def way (fs : FileSystem) (path : String) : List Location := through (fs.base path) (Path.pieces path)

theorem mem_through_self (l : Location) (pieces : List String) : l ∈ through l pieces := by
  cases pieces <;> simp [through]

theorem walk_congr {pieces : List String} (h : ∀ k ∈ through l pieces, fs'.node? k = fs.node? k) :
    fs'.walk l pieces = fs.walk l pieces := by
  induction pieces generalizing l with
  | nil => rfl
  | cons piece rest ih =>
    obtain ⟨hl, hrest⟩ := List.forall_mem_cons.mp h
    rw [walk, walk, hl, ih hrest]

/-- One step of a walk that arrives starts in a directory. -/
theorem walk_cons_iff {piece : String} {rest : List String} {k : Location} :
    fs.walk l (piece :: rest) = .ok k ↔ (∃ n, fs.node? l = some n ∧ n.isDirectory) ∧
      isTooLong piece = false ∧ fs.walk (move l piece) rest = .ok k := by
  rw [walk]
  cases fs.node? l with
  | none => simp
  | some n => cases hdir : n.isDirectory <;> cases hlong : isTooLong piece <;> simp [hdir]

theorem mem_through_of_walk {pieces : List String} {k : Location} (h : fs.walk l pieces = .ok k) :
    k ∈ through l pieces := by
  induction pieces generalizing l with
  | nil =>
    obtain rfl := Except.ok.inj h
    exact mem_through_self l []
  | cons piece rest ih => exact List.mem_cons_of_mem l (ih (walk_cons_iff.mp h).2.2)

/-- A walk that arrives at something went through nothing that is not there. -/
theorem exists_node_of_walk {pieces : List String} {k : Location} {n : Node}
    (h : fs.walk l pieces = .ok k) (hk : fs.node? k = some n) :
    ∀ j ∈ through l pieces, ∃ m, fs.node? j = some m := by
  induction pieces generalizing l with
  | nil =>
    obtain rfl := Except.ok.inj h
    simpa [through] using ⟨n, hk⟩
  | cons piece rest ih =>
    obtain ⟨⟨m, hm, -⟩, -, hrest⟩ := walk_cons_iff.mp h
    exact List.forall_mem_cons.mpr ⟨⟨m, hm⟩, ih hrest⟩

/-- A walk to a directory goes through directories only. -/
theorem directories_of_walk {pieces : List String} {k : Location} (h : fs.walk l pieces = .ok k)
    (hk : ∃ n, fs.node? k = some n ∧ n.isDirectory) :
    ∀ j ∈ through l pieces, ∃ n, fs.node? j = some n ∧ n.isDirectory := by
  induction pieces generalizing l with
  | nil =>
    obtain rfl := Except.ok.inj h
    simpa [through] using hk
  | cons piece rest ih =>
    obtain ⟨hl, -, hrest⟩ := walk_cons_iff.mp h
    exact List.forall_mem_cons.mpr ⟨hl, ih hrest⟩

/-! ### What paths lead to -/

theorem pathError?_eq_none_iff :
    pathError? path = none ↔
      '\x00' ∉ path.toList ∧ path ≠ "" ∧ path.utf8ByteSize ≤ longestPath := by
  unfold pathError?
  split
  · simp_all
  · split
    · simp_all
    · split
      · simp_all
      · simp_all

theorem find_eq_ok_iff {n : Node} :
    fs.find path = .ok (l, n) ↔ fs.resolve path = .ok l ∧ fs.node? l = some n := by
  constructor
  · intro h
    unfold find at h
    split at h
    · cases h
    · next k hk =>
      split at h
      · next m hm =>
        obtain ⟨rfl, rfl⟩ := Prod.mk.inj (Except.ok.inj h)
        exact ⟨hk, hm⟩
      · cases h
  · rintro ⟨hresolve, hl⟩
    simp only [find, hresolve, hl]

theorem resolve_eq_ok_iff :
    fs.resolve path = .ok l ↔
      pathError? path = none ∧ fs.walk (fs.base path) (Path.pieces path) = .ok l := by
  unfold resolve
  cases pathError? path <;> simp

/-- File systems that agree along a path agree on what it leads to. -/
theorem find_congr (hworking : fs'.working = fs.working)
    (h : ∀ k ∈ fs.way path, fs'.node? k = fs.node? k) : fs'.find path = fs.find path := by
  have hbase : fs'.base path = fs.base path := by rw [base, base, hworking]
  have hresolve : fs'.resolve path = fs.resolve path := by
    rw [resolve, resolve, hbase, walk_congr h]
  rw [find, find, hresolve]
  cases hl : fs.resolve path with
  | error e => rfl
  | ok l =>
    have hmem : l ∈ fs.way path := mem_through_of_walk (resolve_eq_ok_iff.mp hl).2
    simp only [h l hmem]

theorem exists_node_of_find {n : Node} (h : fs.find path = .ok (l, n)) :
    ∀ k ∈ fs.way path, ∃ m, fs.node? k = some m := by
  obtain ⟨hresolve, hl⟩ := find_eq_ok_iff.mp h
  exact exists_node_of_walk (resolve_eq_ok_iff.mp hresolve).2 hl

theorem base_join (fs : FileSystem) {root : String} (path : String) (hroot : root ≠ "") :
    fs.base (Path.join root path) = [] ∨ fs.base (Path.join root path) = fs.base root := by
  unfold Path.join
  split
  · next habs => exact .inl (if_pos habs)
  · refine .inr ?_
    obtain ⟨ch, rest, hchars⟩ := List.exists_cons_of_ne_nil (mt String.toList_eq_nil_iff.mp hroot)
    split <;> simp [base, Path.isAbsolute, String.toList_append, hchars]

/-- A path below one that leads to something starts where something is. -/
theorem exists_node_base_join {root : String} {n : Node} (h : fs.find root = .ok (l, n))
    (path : String) : ∃ b, fs.node? (fs.base (Path.join root path)) = some b := by
  have hroot : root ≠ "" := by
    rintro rfl
    cases (find_eq_ok_iff.mp h).1
  rcases base_join fs path hroot with hbase | hbase
  · exact ⟨.directory, by rw [hbase]; rfl⟩
  · rw [hbase]
    exact exists_node_of_find h _ (mem_through_self _ _)

theorem isDirectory_iff :
    fs.isDirectory path ↔ ∃ l n, fs.find path = .ok (l, n) ∧ n.isDirectory := by
  unfold isDirectory
  constructor
  · intro h
    split at h
    · next l n hfind => exact ⟨l, n, hfind, h⟩
    · cases h
  · rintro ⟨l, n, hfind, hn⟩
    rw [hfind]
    exact hn

/-! ### What is kept -/

/-- Whether everything in a file system is in another one too. -/
structure Keeps (fs fs' : FileSystem) : Prop where
  working : fs'.working = fs.working
  node?_eq_some : ∀ k n, fs.node? k = some n → fs'.node? k = some n

/-- What was found is found again. -/
theorem Keeps.find_of_found (h : fs.Keeps fs') {k : Location} {n : Node}
    (hfind : fs.find path = .ok (k, n)) : fs'.find path = .ok (k, n) := by
  refine (find_congr h.working fun j hj => ?_).trans hfind
  obtain ⟨m, hm⟩ := exists_node_of_find hfind j hj
  rw [hm, h.node?_eq_some j m hm]

/-! ### A new entry -/

/-- Whether a file system is another one with a new entry: nothing was at its location or below it,
and everywhere else all is as it was. -/
structure Gains (fs fs' : FileSystem) (l : Location) (new : Node) : Prop where
  working : fs'.working = fs.working
  absent : ∀ k, l <:+ k → fs.node? k = none
  entry : fs'.node? l = some new
  rest : ∀ k, ¬l <:+ k → fs'.node? k = fs.node? k

/-- One step does not lead below a location past it. -/
theorem suffix_move {k : Location} {piece : String} (h : l <:+ move k piece) :
    l <:+ k ∨ move k piece = l := by
  unfold move at h ⊢
  split
  · next hidle => exact .inl (by rwa [if_pos hidle] at h)
  · next hidle =>
    rw [if_neg hidle] at h
    split
    · next hup => exact .inl ((if_pos hup ▸ h).trans (List.tail_suffix k))
    · next hup =>
      rw [if_neg hup] at h
      rcases List.suffix_cons_iff.mp h with rfl | h
      · exact .inr rfl
      · exact .inl h

/-- So a way that does not lead through a location does not lead below it. -/
theorem not_suffix_of_not_mem_through {pieces : List String} {k : Location}
    (hl : l ∉ through k pieces) (hk : ¬l <:+ k) : ∀ j ∈ through k pieces, ¬l <:+ j := by
  induction pieces generalizing k with
  | nil => simpa [through] using hk
  | cons piece rest ih =>
    refine List.forall_mem_cons.mpr ⟨hk, ih (fun hmem => hl (List.mem_cons_of_mem k hmem)) ?_⟩
    intro hbelow
    rcases suffix_move hbelow with hk' | rfl
    · exact hk hk'
    · exact hl (List.mem_cons_of_mem k (mem_through_self _ _))

namespace Gains

variable {new : Node}

theorem not_suffix_of_node (h : fs.Gains fs' l new) {k : Location} {n : Node}
    (hk : fs.node? k = some n) : ¬l <:+ k :=
  fun hlk => by cases hk.symm.trans (h.absent k hlk)

theorem keeps (h : fs.Gains fs' l new) : fs.Keeps fs' :=
  ⟨h.working, fun k _ hk => (h.rest k (h.not_suffix_of_node hk)).trans hk⟩

/-- What was found is found again. -/
theorem find_of_found (h : fs.Gains fs' l new) {k : Location} {n : Node}
    (hfind : fs.find path = .ok (k, n)) : fs'.find path = .ok (k, n) :=
  h.keeps.find_of_found hfind

/-- A path that starts where something is and does not lead through the new entry leads where it did. -/
theorem find_of_not_mem (h : fs.Gains fs' l new) {n : Node} (hbase : fs.node? (fs.base path) = some n)
    (hway : l ∉ fs.way path) : fs'.find path = fs.find path :=
  find_congr h.working fun j hj =>
    h.rest j (not_suffix_of_not_mem_through hway (h.not_suffix_of_node hbase) j hj)

end Gains

/-- Putting a node where nothing is, with nothing below, makes a new entry. -/
theorem gains_put {name : String} {above : Location} (new : Node) (hname : (name :: above).all isName)
    (h : ∀ e ∈ fs.nodes, ¬(name :: above) <:+ e.1) :
    fs.Gains (fs.put (name :: above) new) (name :: above) new where
  working := fs.working_put _ new
  absent k hk := by
    cases k with
    | nil => cases List.eq_nil_of_suffix_nil hk
    | cons below rest =>
      cases hn : fs.node? (below :: rest) with
      | none => rfl
      | some n => exact absurd hk (h _ (fs.node?_eq_some_iff.mp hn))
  entry := fs.node?_put_self hname new
  rest k hk := fs.node?_put_of_ne new (fun hkl => hk (hkl ▸ List.suffix_refl _))

end FuzzCampaign.FileSystem
