import FuzzCampaign.Proofs.Saving

/-!
What saving a report once more does. The directories that it needs are there, and a file is in its
place. Main statements: everything that was in a file system before a report was saved is found again,
and the report can be saved again, with any text, which then changes that one file only.
-/

namespace FuzzCampaign

namespace FileSystem

variable {fs fs' : FileSystem} {path : String} {l : Location} {name : String}

/-! ### Directories that are there -/

/-- A directory that is there is not made. -/
theorem makeDirectory_of_isDirectory (h : fs.isDirectory path) :
    fs.makeDirectory path = .error .alreadyThere := by
  obtain ⟨k, n, hfind, hdir⟩ := isDirectory_iff.mp h
  obtain ⟨hresolve, hk⟩ := find_eq_ok_iff.mp hfind
  obtain ⟨hpath, hwalk⟩ := resolve_eq_ok_iff.mp hresolve
  cases hrest : (Path.pieces path).reverse.dropWhile (· = "") with
  | nil => simp [makeDirectory, entry, hpath, hrest]
  | cons last above =>
    obtain ⟨slashes, hpieces⟩ := exists_replicate hrest
    rw [← List.reverse_reverse (Path.pieces path), hpieces, List.reverse_append, List.reverse_cons,
      List.append_assoc, List.reverse_replicate, List.singleton_append] at hwalk
    obtain ⟨l, habove, hlast⟩ := walk_append_iff.mp hwalk
    obtain ⟨⟨m, hm, hmdir⟩, hshort, hslashes⟩ := walk_cons_iff.mp hlast
    obtain rfl : k = move l last := by
      rw [eq_foldl_of_walk hslashes, Entry.foldl_move_replicate]
    by_cases hname : Path.isIdle last ∨ last = ".."
    · simp [makeDirectory, entry, hpath, hrest, habove, hm, hmdir, hname]
    · have hmove : move l last = last :: l := by
        rw [not_or] at hname
        rw [move, if_neg hname.1, if_neg hname.2]
      rw [hmove] at hk
      simp [makeDirectory, entry, hpath, hrest, habove, hm, hmdir, hname, hshort, hk]

theorem makeDirectories_of_isDirectory (h : fs.isDirectory path) :
    fs.makeDirectories path = (fs, .ok ()) := by
  obtain ⟨k, n, hfind, -⟩ := isDirectory_iff.mp h
  have hne : path ≠ "" := by
    rintro rfl
    cases (find_eq_ok_iff.mp hfind).1
  obtain ⟨above, habove⟩ := exists_ancestors hne
  rw [makeDirectories, habove, makeDirectoriesFor, makeDirectory_of_isDirectory h]
  simp only [h, if_true]

/-- A directory is still there when something is put elsewhere than in the place of a directory. -/
theorem isDirectory_put {name : String} (h : fs.isDirectory path)
    (hfree : ∀ n, fs.node? (name :: l) = some n → ¬n.isDirectory) (new : Node) :
    (fs.put (name :: l) new).isDirectory path := by
  obtain ⟨k, n, hfind, hdir⟩ := isDirectory_iff.mp h
  obtain ⟨hresolve, hk⟩ := find_eq_ok_iff.mp hfind
  have hway := directories_of_walk (resolve_eq_ok_iff.mp hresolve).2 ⟨n, hk, hdir⟩
  have hsame : (fs.put (name :: l) new).find path = fs.find path := by
    refine find_congr (fs.working_put _ _) fun j hj => ?_
    obtain ⟨m, hm, hmdir⟩ := hway j hj
    refine node?_put_of_ne fs new ?_
    rintro rfl
    exact hfree m hm hmdir
  exact isDirectory_iff.mpr ⟨k, n, hsame.trans hfind, hdir⟩

/-! ### Files that are there -/

/-- A file can be written in the place of another one. -/
theorem Writable.write_eq (h : fs.Writable path l name) {old : List UInt8}
    (hfile : fs.node? (name :: l) = some (.file old)) (bytes : List UInt8) :
    fs.write path bytes = .ok (fs.put (name :: l) (.file bytes)) := by
  obtain ⟨above, hentry⟩ := h.entry
  simp [write, hentry.entry_eq, h.noSlash, h.short, hfile]

/-- What is put somewhere last is there. -/
theorem put_put (fs : FileSystem) (l : Location) (n n' : Node) :
    (fs.put l n).put l n' = fs.put l n' := by
  by_cases hl : l.all isName
  · refine FileSystem.ext ?_ (by simp)
    rw [nodes_put _ hl, nodes_put _ hl, nodes_put _ hl]
    simp [List.filter_filter]
  · rw [put_of_not_named fs hl]

/-- Other bytes in a file are in no walk's way. -/
theorem walk_put_file {old : List UInt8} (hfile : fs.node? (name :: l) = some (.file old))
    (bytes : List UInt8) (k : Location) (pieces : List String) :
    (fs.put (name :: l) (.file bytes)).walk k pieces = fs.walk k pieces := by
  induction pieces generalizing k with
  | nil => rfl
  | cons piece rest ih =>
    rw [walk, walk, ih]
    by_cases hk : k = name :: l
    · subst hk
      rw [node?_put_self fs (fs.isName_of_node? hfile), hfile]
      rfl
    · rw [node?_put_of_ne fs _ hk]

/-- So the same paths lead to something as before. -/
theorem pathExists_put_file {old : List UInt8} (hfile : fs.node? (name :: l) = some (.file old))
    (bytes : List UInt8) (path : String) :
    (fs.put (name :: l) (.file bytes)).pathExists path = fs.pathExists path := by
  have hresolve : (fs.put (name :: l) (.file bytes)).resolve path = fs.resolve path := by
    have hbase : (fs.put (name :: l) (.file bytes)).base path = fs.base path := by
      rw [base, base, working_put]
    rw [resolve, resolve, hbase, walk_put_file hfile]
  rw [pathExists, pathExists, find, find, hresolve]
  cases fs.resolve path with
  | error e => rfl
  | ok k =>
    by_cases hk : k = name :: l
    · subst hk
      simp only [node?_put_self fs (fs.isName_of_node? hfile), hfile]
    · simp only [node?_put_of_ne fs _ hk]

end FileSystem

namespace CommandLine

open FileSystem

variable {fs fs' fs'' : FileSystem} {path text : String}

/-! ### What was saved -/

namespace Saved

variable {bytes bytes' : List UInt8}

theorem target_eq (h : Saved fs fs' path bytes) (other : String) : fs'.target other = fs.target other := by
  rw [target, target, base, base, h.working]

theorem node?_eq (h : Saved fs fs' path bytes) : fs'.node? (fs.target path) = some (.file bytes) :=
  (find_eq_ok_iff.mp h.found).2

/-- A report in the place of nothing leaves everything there. -/
theorem keeps (h : Saved fs fs' path bytes) (habsent : fs.node? (fs.target path) = none) :
    fs.Keeps fs' := by
  refine ⟨h.working, fun k n hk => ?_⟩
  have hne : k ≠ fs.target path := by
    rintro rfl
    cases habsent.symm.trans hk
  rcases h.rest k hne with heq | ⟨-, hnone, -⟩
  · rw [heq, hk]
  · cases hnone.symm.trans hk

/-- A report that was saved twice is there as it was saved last. -/
theorem trans (h : Saved fs fs' path bytes) (h' : Saved fs' fs'' path bytes') :
    Saved fs fs'' path bytes' := by
  have hway : fs'.way path = fs.way path := by rw [way, way, base, base, h.working]
  refine ⟨h'.working.trans h.working, ?_, h.before, fun k hk => ?_⟩
  · rw [h'.found, h.target_eq]
  · rcases h'.rest k (by rwa [h.target_eq]) with heq | ⟨hmem, hnone, hdir⟩
    · rw [heq]
      exact h.rest k hk
    · rcases h.rest k hk with heq | ⟨-, -, hdir'⟩
      · exact .inr ⟨hway ▸ hmem, heq ▸ hnone, hdir⟩
      · cases hnone.symm.trans hdir'

end Saved

/-! ### Saving again -/

theorem prepare_of_isDirectory (h : ∀ parent, Path.parent? path = some parent → parent ≠ "" →
    fs.isDirectory parent) : prepare fs path = (fs, .ok ()) := by
  unfold prepare
  split
  · rfl
  · next parent hparent =>
    split
    · rfl
    · next hne => rw [makeDirectories_of_isDirectory (h parent hparent hne)]

/-- Whether a report can be saved without any preparation, in the place of another file. -/
structure Ready (fs : FileSystem) (path : String) (l : Location) (name : String) : Prop where
  parent : ∀ parent, Path.parent? path = some parent → parent ≠ "" → fs.isDirectory parent
  writable : fs.Writable path l name
  file : ∃ old, fs.node? (name :: l) = some (.file old)

namespace Ready

variable {l : Location} {name : String}

theorem save_eq (h : Ready fs path l name) (text : String) :
    save fs path text = (fs.put (name :: l) (.file (Text.encode text)), .ok ()) := by
  obtain ⟨old, hold⟩ := h.file
  simp only [save, prepare_of_isDirectory h.parent, h.writable.write_eq hold]

/-- Saving leaves everything ready to save again. -/
theorem put (h : Ready fs path l name) (bytes : List UInt8) :
    Ready (fs.put (name :: l) (.file bytes)) path l name := by
  refine ⟨?_, h.writable.put bytes, bytes, fs.node?_put_self h.writable.named _⟩
  intro parent hparent hne
  exact isDirectory_put (h.parent parent hparent hne) h.writable.not_isDirectory _

end Ready

theorem ready_of_save (hdevice : fs.node? (fs.target path) ≠ some .sink)
    (h : (save fs path text).2 = .ok ()) :
    ∃ l name, fs.target path = name :: l ∧ Ready (save fs path text).1 path l name := by
  obtain ⟨hadds, hparent⟩ := prepare_spec fs path
  unfold save at h ⊢
  split at h
  · cases h
  · next fs₁ hprepare =>
    rw [hprepare] at hadds hparent
    have hdevice' := hadds.not_device hdevice
    split at h
    · next fs₂ hwrite =>
      obtain ⟨l, name, hwritable, rfl⟩ := exists_writable hwrite hdevice'
      refine ⟨l, name, by rw [← hadds.target_eq, hwritable.target_eq], ?_⟩
      refine ⟨?_, hwritable.put _, _, fs₁.node?_put_self hwritable.named _⟩
      intro parent hparent' hne
      exact isDirectory_put (hparent rfl parent hparent' hne) hwritable.not_isDirectory _
    · cases h

end CommandLine

end FuzzCampaign
