import FuzzCampaign.CommandLine
import FuzzCampaign.Proofs.Paths

/-!
What saving a report does to a file system. Directories are made where nothing was, on the way to the
report, and they stay when a later step fails. Main statements: whatever comes of it, everything else is
as it was, and a report that was saved is found at its path with exactly the bytes written.
-/

namespace FuzzCampaign

namespace Path

/-- The last piece is empty behind a slash at the end only. -/
theorem endsInSlash_of_getLast? {path : String} (hne : path ≠ "")
    (h : (pieces path).getLast? = some "") : endsInSlash path := by
  have hchars : ∀ cs : List Char, (splitSlashes cs).getLast? = some [] →
      cs = [] ∨ cs.getLast? = some '/' := by
    intro cs
    induction cs with
    | nil => exact fun _ => .inl rfl
    | cons c cs ih =>
      intro hlast
      refine .inr ?_
      obtain ⟨piece, rest, hcs⟩ := List.exists_cons_of_ne_nil (splitSlashes_ne_nil cs)
      rw [splitSlashes, hcs] at hlast
      rw [hcs] at ih
      split at hlast
      · next hc =>
        rcases ih (by simpa using hlast) with rfl | hslash
        · simp [hc]
        · simp [List.getLast?_cons, hslash]
      · cases rest with
        | nil => simp at hlast
        | cons other rest =>
          rcases ih (by simpa using hlast) with rfl | hslash
          · simp [splitSlashes] at hcs
          · simp [List.getLast?_cons, hslash]
  rw [pieces, List.getLast?_map, Option.map_eq_some_iff] at h
  obtain ⟨cs, hlast, hempty⟩ := h
  obtain rfl : cs = [] := by simpa using hempty
  rcases hchars _ hlast with hnil | hslash
  · exact absurd (String.toList_eq_nil_iff.mp hnil) hne
  · rw [endsInSlash, hslash]
    rfl

end Path

namespace FileSystem

variable {fs fs' : FileSystem} {path : String} {l : Location} {name : String}

/-- The location that a path leads to if nothing is in its way. -/
def target (fs : FileSystem) (path : String) : Location := (Path.pieces path).foldl move (fs.base path)

/-! ### New directories -/

/-- Whether a file system is another one with new directories, all of them at some locations. -/
structure AddsDirectories (fs fs' : FileSystem) (places : List Location) : Prop where
  working : fs'.working = fs.working
  node?_cases : ∀ k, fs'.node? k = fs.node? k ∨
    k ∈ places ∧ fs.node? k = none ∧ fs'.node? k = some .directory

namespace AddsDirectories

variable {fs'' : FileSystem} {places : List Location}

theorem refl (fs : FileSystem) (places : List Location) : fs.AddsDirectories fs places :=
  ⟨rfl, fun _ => .inl rfl⟩

theorem trans (h : fs.AddsDirectories fs' places) (h' : fs'.AddsDirectories fs'' places) :
    fs.AddsDirectories fs'' places := by
  refine ⟨h'.working.trans h.working, fun k => ?_⟩
  rcases h'.node?_cases k with heq | ⟨hk, hnone, hdir⟩
  · rw [heq]
    exact h.node?_cases k
  · rcases h.node?_cases k with heq' | ⟨-, -, hdir'⟩
    · exact .inr ⟨hk, heq' ▸ hnone, hdir⟩
    · rw [hnone] at hdir'
      cases hdir'

theorem mono {places' : List Location} (h : fs.AddsDirectories fs' places) (hsub : places ⊆ places') :
    fs.AddsDirectories fs' places' :=
  ⟨h.working, fun k => (h.node?_cases k).imp_right fun hk => ⟨hsub hk.1, hk.2⟩⟩

/-- What was there is there. -/
theorem node?_eq_some (h : fs.AddsDirectories fs' places) {k : Location} {n : Node}
    (hk : fs.node? k = some n) : fs'.node? k = some n := by
  rcases h.node?_cases k with heq | ⟨-, hnone, -⟩
  · rw [heq, hk]
  · rw [hnone] at hk
    cases hk

theorem way_eq (h : fs.AddsDirectories fs' places) (path : String) : fs'.way path = fs.way path := by
  rw [way, way, base, base, h.working]

theorem target_eq (h : fs.AddsDirectories fs' places) (path : String) :
    fs'.target path = fs.target path := by
  rw [target, target, base, base, h.working]

/-- New directories are no devices. -/
theorem not_device (h : fs.AddsDirectories fs' places)
    (hdevice : fs.node? (fs.target path) ≠ some .sink) : fs'.node? (fs'.target path) ≠ some .sink := by
  rw [h.target_eq]
  rcases h.node?_cases (fs.target path) with heq | ⟨-, -, hdir⟩
  · rwa [heq]
  · rw [hdir]
    exact fun hsink => nomatch hsink

end AddsDirectories

/-! ### Entries -/

theorem eq_foldl_of_walk {pieces : List String} {k : Location} (h : fs.walk l pieces = .ok k) :
    k = pieces.foldl move l := by
  induction pieces generalizing l with
  | nil => exact (Except.ok.inj h).symm
  | cons piece rest ih => exact ih (walk_cons_iff.mp h).2.2

/-- Whether a path leads to a name in a directory that is there, with nothing but slashes behind it. -/
structure Entry (fs : FileSystem) (path : String) (above : List String) (l : Location) (name : String)
    (slashes : Nat) : Prop where
  path_ok : pathError? path = none
  pieces : Path.pieces path = above ++ name :: List.replicate slashes ""
  arrives : fs.walk (fs.base path) above = .ok l
  directory : ∃ n, fs.node? l = some n ∧ n.isDirectory
  moves : move l name = name :: l

theorem exists_replicate {pieces above : List String} {last : String}
    (h : pieces.dropWhile (· = "") = last :: above) :
    ∃ slashes, pieces = List.replicate slashes "" ++ last :: above := by
  induction pieces with
  | nil => cases h
  | cons piece rest ih =>
    by_cases hempty : piece = ""
    · rw [List.dropWhile_cons_of_pos (by simpa using hempty)] at h
      obtain ⟨slashes, hrest⟩ := ih h
      exact ⟨slashes + 1, by rw [hrest, hempty]; rfl⟩
    · rw [List.dropWhile_cons_of_neg (by simpa using hempty)] at h
      exact ⟨0, h⟩

theorem exists_entry (h : fs.entry path = .ok (l, some name)) :
    ∃ above slashes, fs.Entry path above l name slashes := by
  unfold entry at h
  split at h
  · cases h
  · cases h
  · next last above hpath hrest =>
    split at h
    · cases h
    · next k hwalk =>
      split at h
      · cases h
      · next n hn =>
        split at h
        · cases h
        · next hdir =>
          split at h
          · cases h
          · next hname =>
            obtain ⟨rfl, heq⟩ := Prod.mk.inj (Except.ok.inj h)
            obtain rfl := Option.some.inj heq
            rw [not_or] at hname
            obtain ⟨slashes, hpieces⟩ := exists_replicate hrest
            refine ⟨above.reverse, slashes, hpath, ?_, hwalk, ⟨n, hn, by simpa using hdir⟩, ?_⟩
            · rw [← List.reverse_reverse (Path.pieces path), hpieces]
              simp
            · rw [move, if_neg hname.1, if_neg hname.2]

namespace Entry

variable {above : List String} {slashes : Nat}

theorem foldl_move_replicate (l : Location) (slashes : Nat) :
    (List.replicate slashes "").foldl move l = l := by
  induction slashes with
  | zero => rfl
  | succ slashes ih => exact ih

theorem target_eq (h : fs.Entry path above l name slashes) : fs.target path = name :: l := by
  rw [target, h.pieces, List.foldl_append, ← eq_foldl_of_walk h.arrives, List.foldl_cons, h.moves,
    foldl_move_replicate]

/-- What a path leads to by a name that is not too long can be put there. -/
theorem named (h : fs.Entry path above l name slashes) (hshort : isTooLong name = false) :
    (name :: l).all isName := by
  obtain ⟨hidle, hup⟩ := not_idle_of_move h.moves
  obtain ⟨n, hn, -⟩ := h.directory
  have hpiece : name ∈ Path.pieces path := h.pieces ▸ List.mem_append_right _ List.mem_cons_self
  have hnul := (pathError?_eq_none_iff.mp h.path_ok).1
  rw [List.all_cons, Bool.and_eq_true, isName_iff]
  exact ⟨⟨hidle, hup, hshort, Path.isPiece_of_mem_pieces hpiece,
    fun hmem => hnul (Path.subset_of_mem_pieces hpiece hmem)⟩, fs.isName_of_node? hn⟩

theorem mem_way (h : fs.Entry path above l name slashes) : name :: l ∈ fs.way path := by
  rw [← h.target_eq]
  exact foldl_move_mem_through _ _

/-- A node at the end of a path is found there. -/
theorem find_eq (h : fs.Entry path above l name slashes) (hshort : isTooLong name = false) {new : Node}
    (hnew : fs.node? (name :: l) = some new) (hslashes : slashes = 0 ∨ new.isDirectory) :
    fs.find path = .ok (name :: l, new) := by
  obtain ⟨n, hn, hdir⟩ := h.directory
  refine find_eq_ok_iff.mpr ⟨resolve_eq_ok_iff.mpr ⟨h.path_ok, ?_⟩, hnew⟩
  rw [h.pieces]
  refine walk_append_iff.mpr ⟨l, h.arrives, walk_cons_iff.mpr ⟨⟨n, hn, hdir⟩, hshort, ?_⟩⟩
  rw [h.moves]
  exact walk_slashes hnew hslashes

/-- What is put in the place of no directory leaves the way there. -/
theorem put (h : fs.Entry path above l name slashes)
    (hfree : ∀ n, fs.node? (name :: l) = some n → ¬n.isDirectory) (new : Node) :
    (fs.put (name :: l) new).Entry path above l name slashes := by
  have hkept : ∀ k ∈ through (fs.base path) above,
      (fs.put (name :: l) new).node? k = fs.node? k := by
    intro k hk
    obtain ⟨m, hm, hmdir⟩ := directories_of_walk h.arrives h.directory k hk
    refine fs.node?_put_of_ne new ?_
    rintro rfl
    exact hfree m hm hmdir
  have harrives : (fs.put (name :: l) new).walk ((fs.put (name :: l) new).base path) above = .ok l := by
    rw [base, working_put, ← base]
    exact (walk_congr hkept).trans h.arrives
  refine ⟨h.path_ok, h.pieces, harrives, ?_, h.moves⟩
  rw [hkept l (mem_through_of_walk h.arrives)]
  exact h.directory

theorem entry_eq (h : fs.Entry path above l name slashes) : fs.entry path = .ok (l, some name) := by
  obtain ⟨hidle, hup⟩ := not_idle_of_move h.moves
  have hempty : name ≠ "" := by
    rintro rfl
    exact hidle rfl
  have hlast : (Path.pieces path).reverse.dropWhile (· = "") = name :: above.reverse := by
    rw [h.pieces, List.reverse_append, List.reverse_cons, List.reverse_replicate, List.append_assoc,
      List.dropWhile_append_of_pos (by simp)]
    simp [hempty]
  obtain ⟨n, hn, hdir⟩ := h.directory
  simp [entry, h.path_ok, hlast, h.arrives, hn, hdir, hidle, hup]

/-- A path without a slash at its end has no empty pieces there. -/
theorem slashes_eq_zero (h : fs.Entry path above l name slashes) (hslash : ¬Path.endsInSlash path) :
    slashes = 0 := by
  cases slashes with
  | zero => rfl
  | succ slashes =>
    have hne : path ≠ "" := by
      rintro rfl
      cases h.path_ok
    have hlast : (Path.pieces path).getLast? = some "" := by
      rw [h.pieces, List.replicate_succ', ← List.cons_append, ← List.append_assoc,
        List.getLast?_concat]
    exact absurd (Path.endsInSlash_of_getLast? hne hlast) hslash

end Entry

/-! ### Directories -/

/-- A directory that was made is found, and it is all that is new. -/
theorem makeDirectory_spec (h : fs.makeDirectory path = .ok fs') :
    fs.AddsDirectories fs' (fs.way path) ∧ fs'.isDirectory path := by
  unfold makeDirectory at h
  split at h
  · cases h
  · cases h
  · next l name hentry =>
    obtain ⟨above, slashes, hentry⟩ := exists_entry hentry
    split at h
    · cases h
    · next hshort =>
      split at h
      · cases h
      · next hnone =>
        split at h
        · obtain rfl := Except.ok.inj h
          have hshort : isTooLong name = false := by simpa using hshort
          have hnew := fs.node?_put_self (hentry.named hshort) .directory
          constructor
          · refine ⟨fs.working_put _ _, fun k => ?_⟩
            by_cases hk : k = name :: l
            · subst hk
              exact .inr ⟨hentry.mem_way, hnone, hnew⟩
            · exact .inl (fs.node?_put_of_ne .directory hk)
          · have hfree : ∀ n, fs.node? (name :: l) = some n → ¬n.isDirectory := by
              intro n hn
              rw [hnone] at hn
              cases hn
            exact isDirectory_iff.mpr ⟨_, _, (hentry.put hfree .directory).find_eq hshort hnew
              (.inr rfl), rfl⟩
        · cases h

theorem isDirectory_of_ite {e : FileError}
    (h : (if fs.isDirectory path then Except.ok () else .error e) = .ok ()) : fs.isDirectory path := by
  split at h
  · assumption
  · cases h

/-- Whatever comes of making directories, all that is new are directories on the way; if all goes well,
the first of them is there. -/
theorem makeDirectoriesFor_spec {paths : List String} {places : List Location}
    (h : ∀ p ∈ paths, fs.way p ⊆ places) :
    fs.AddsDirectories (fs.makeDirectoriesFor paths).1 places ∧
      ((fs.makeDirectoriesFor paths).2 = .ok () →
        ∀ p, paths.head? = some p → (fs.makeDirectoriesFor paths).1.isDirectory p) := by
  induction paths with
  | nil => exact ⟨.refl fs places, fun _ p hp => nomatch hp⟩
  | cons path above ih =>
    obtain ⟨hpath, habove⟩ := List.forall_mem_cons.mp h
    obtain ⟨hadds, -⟩ := ih habove
    have hhead : ∀ {fs' : FileSystem}, fs'.isDirectory path →
        ∀ p, (path :: above).head? = some p → fs'.isDirectory p := by
      rintro fs' hdir p hp
      obtain rfl := Option.some.inj hp
      exact hdir
    rw [makeDirectoriesFor]
    split
    · next fs₁ hmade =>
      obtain ⟨hnew, hdir⟩ := makeDirectory_spec hmade
      exact ⟨hnew.mono hpath, fun _ => hhead hdir⟩
    · split
      · next fs₁ e hfor =>
        rw [hfor] at hadds
        exact ⟨hadds, fun hok => nomatch hok⟩
      · next fs₁ hfor =>
        rw [hfor] at hadds
        split
        · next fs₂ hmade =>
          obtain ⟨hnew, hdir⟩ := makeDirectory_spec hmade
          rw [hadds.way_eq] at hnew
          exact ⟨hadds.trans (hnew.mono hpath), fun _ => hhead hdir⟩
        · exact ⟨hadds, fun hok => hhead (isDirectory_of_ite hok)⟩
    · exact ⟨.refl fs places, fun hok => hhead (isDirectory_of_ite hok)⟩

theorem exists_ancestors (hne : path ≠ "") : ∃ above, Path.ancestors path = path :: above := by
  obtain ⟨bound, hbound⟩ : ∃ bound, path.length = bound + 1 :=
    Nat.exists_eq_add_one.mpr (Nat.pos_of_ne_zero (mt String.length_eq_zero_iff.mp hne))
  rw [Path.ancestors, hbound, Path.ancestorsUpTo, if_neg hne]
  exact ⟨_, rfl⟩

theorem makeDirectories_spec (fs : FileSystem) (hne : path ≠ "") :
    fs.AddsDirectories (fs.makeDirectories path).1 (fs.way path) ∧
      ((fs.makeDirectories path).2 = .ok () → (fs.makeDirectories path).1.isDirectory path) := by
  have hway : ∀ p ∈ Path.ancestors path, fs.way p ⊆ fs.way path := fun _ => way_ancestor
  obtain ⟨hadds, hdir⟩ := makeDirectoriesFor_spec hway
  obtain ⟨above, habove⟩ := exists_ancestors hne
  exact ⟨hadds, fun hok => hdir hok path (by rw [habove]; rfl)⟩

/-! ### Files -/

/-- Whether a file can stand at the end of a path, where a file or nothing is. -/
structure Writable (fs : FileSystem) (path : String) (l : Location) (name : String) : Prop where
  entry : ∃ above, fs.Entry path above l name 0
  noSlash : ¬Path.endsInSlash path
  short : isTooLong name = false
  free : ∀ n, fs.node? (name :: l) = some n → ∃ old, n = .file old

namespace Writable

theorem target_eq (h : fs.Writable path l name) : fs.target path = name :: l := by
  obtain ⟨above, hentry⟩ := h.entry
  exact hentry.target_eq

theorem named (h : fs.Writable path l name) : (name :: l).all isName := by
  obtain ⟨above, hentry⟩ := h.entry
  exact hentry.named h.short

theorem not_isDirectory (h : fs.Writable path l name) :
    ∀ n, fs.node? (name :: l) = some n → ¬n.isDirectory := by
  intro n hn
  obtain ⟨old, rfl⟩ := h.free n hn
  exact Bool.false_ne_true

theorem put (h : fs.Writable path l name) (bytes : List UInt8) :
    (fs.put (name :: l) (.file bytes)).Writable path l name := by
  obtain ⟨above, hentry⟩ := h.entry
  refine ⟨⟨above, hentry.put h.not_isDirectory _⟩, h.noSlash, h.short, ?_⟩
  intro n hn
  rw [fs.node?_put_self h.named] at hn
  exact ⟨bytes, (Option.some.inj hn).symm⟩

theorem find_eq (h : fs.Writable path l name) {bytes : List UInt8}
    (hfile : fs.node? (name :: l) = some (.file bytes)) :
    fs.find path = .ok (name :: l, .file bytes) := by
  obtain ⟨above, hentry⟩ := h.entry
  exact hentry.find_eq h.short hfile (.inl rfl)

end Writable

/-- A file that was written is at the end of its path, unless there is a device. -/
theorem exists_writable {bytes : List UInt8} (h : fs.write path bytes = .ok fs')
    (hdevice : fs.node? (fs.target path) ≠ some .sink) :
    ∃ l name, fs.Writable path l name ∧ fs' = fs.put (name :: l) (.file bytes) := by
  unfold write at h
  split at h
  · cases h
  · cases h
  · next l name hentry =>
    obtain ⟨above, slashes, hentry⟩ := exists_entry hentry
    rw [hentry.target_eq] at hdevice
    split at h
    · cases h
    · next hslash =>
      obtain rfl := hentry.slashes_eq_zero hslash
      split at h
      · cases h
      · next hshort =>
        refine ⟨l, name, ⟨⟨above, hentry⟩, hslash, by simpa using hshort, ?_⟩, ?_⟩
        · intro n hn
          rw [hn] at h hdevice
          cases n with
          | file old => exact ⟨old, rfl⟩
          | directory => cases h
          | sealedDirectory => cases h
          | sink => exact absurd rfl hdevice
        · split at h
          · cases h
          · cases h
          · next hsink => exact absurd hsink hdevice
          · exact (Except.ok.inj h).symm
          · split at h
            · exact (Except.ok.inj h).symm
            · cases h

end FileSystem

namespace CommandLine

open FileSystem

variable {fs : FileSystem} {path text : String}

/-- Preparing for a report makes directories only; if all goes well, the one in which the report is to lie
is there. -/
theorem prepare_spec (fs : FileSystem) (path : String) :
    fs.AddsDirectories (prepare fs path).1 (fs.way path) ∧
      ((prepare fs path).2 = .ok () → ∀ parent, Path.parent? path = some parent → parent ≠ "" →
        (prepare fs path).1.isDirectory parent) := by
  unfold prepare
  split
  · next hnone => exact ⟨.refl fs _, fun _ parent hparent => by simp [hnone] at hparent⟩
  · next parent hparent =>
    split
    · next hempty =>
      refine ⟨.refl fs _, fun _ other hother hne => absurd ?_ hne⟩
      rw [hparent] at hother
      rw [← Option.some.inj hother, hempty]
    · next hne =>
      obtain ⟨hadds, hdir⟩ := makeDirectories_spec fs hne
      have hadds := hadds.mono (way_parent hparent hne)
      split
      · next fs₁ hmade =>
        rw [hmade] at hadds hdir
        refine ⟨hadds, fun _ other hother _ => ?_⟩
        rw [hparent] at hother
        obtain rfl := Option.some.inj hother
        exact hdir rfl
      · next fs₁ e hmade =>
        rw [hmade] at hadds
        exact ⟨hadds, fun hok => nomatch hok⟩

/-- Whether a file system is another one with a file at the end of a path, where a file or nothing was, and
with new directories on the way. -/
structure Saved (fs fs' : FileSystem) (path : String) (bytes : List UInt8) : Prop where
  working : fs'.working = fs.working
  found : fs'.find path = .ok (fs.target path, .file bytes)
  before : ∀ n, fs.node? (fs.target path) = some n → ∃ old, n = .file old
  rest : ∀ k, k ≠ fs.target path → fs'.node? k = fs.node? k ∨
    k ∈ fs.way path ∧ fs.node? k = none ∧ fs'.node? k = some .directory

/-- A report that cannot be saved leaves new directories at most, and one that is saved is at its path. -/
theorem save_spec (text : String) (hdevice : fs.node? (fs.target path) ≠ some .sink) :
    (∀ message, (save fs path text).2 = .error message →
      fs.AddsDirectories (save fs path text).1 (fs.way path)) ∧
    ((save fs path text).2 = .ok () → Saved fs (save fs path text).1 path (Text.encode text)) := by
  obtain ⟨hadds, -⟩ := prepare_spec fs path
  unfold save
  split
  · next fs₁ message hprepare =>
    rw [hprepare] at hadds
    exact ⟨fun _ _ => hadds, fun hok => nomatch hok⟩
  · next fs₁ hprepare =>
    rw [hprepare] at hadds
    split
    · next fs₂ hwrite =>
      refine ⟨fun _ herror => (nomatch herror), fun _ => ?_⟩
      have hdevice' := hadds.not_device hdevice
      obtain ⟨l, name, hwritable, rfl⟩ := exists_writable hwrite hdevice'
      have htarget : fs.target path = name :: l := by rw [← hadds.target_eq, hwritable.target_eq]
      refine ⟨(working_put _ _ _).trans hadds.working, ?_, ?_, ?_⟩
      · rw [htarget]
        exact (hwritable.put _).find_eq (node?_put_self _ hwritable.named _)
      · intro n hn
        rw [htarget] at hn
        exact hwritable.free n (hadds.node?_eq_some hn)
      · intro k hk
        rw [htarget] at hk
        simp only [node?_put_of_ne _ _ hk]
        exact hadds.node?_cases k
    · exact ⟨fun _ _ => hadds, fun hok => nomatch hok⟩

end CommandLine

end FuzzCampaign
