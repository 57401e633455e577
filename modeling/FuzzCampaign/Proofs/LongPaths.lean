import FuzzCampaign.Proofs.RecordFiles
import FuzzCampaign.Proofs.StableSort

/-!
Campaigns with slashes behind their roots. Such slashes lead nowhere else, but every path below the root
is longer by them, and a path that is too long is not followed. Main statement: if the paths of a
campaign's own files can be followed in spite of the slashes, the campaign has the same global state, and
of its record files it has those whose paths are still short enough.
-/

namespace FuzzCampaign

/-! ### Paths with slashes in them -/

namespace Path

/-- A text of slashes. There may be thousands of them, so none is ever looked at. -/
@[irreducible]
def slashes (k : Nat) : String := String.ofList (List.replicate k '/')

theorem slashes_succ (k : Nat) : slashes (k + 1) = "/" ++ slashes k := by
  simp [slashes, List.replicate_succ]

theorem utf8ByteSize_slashes (k : Nat) : (slashes k).utf8ByteSize = k := by
  induction k with
  | zero => simp [slashes]
  | succ k ih =>
    rw [slashes_succ, String.utf8ByteSize_append, ih, Nat.add_comm]
    rfl

/-- Slashes behind a path give empty pieces. -/
theorem pieces_append_slashes (path : String) (k : Nat) :
    pieces (path ++ slashes k) = pieces path ++ List.replicate k "" := by
  have hslashes : ∀ k, pieces (slashes k) = List.replicate (k + 1) "" := by
    intro k
    induction k with
    | zero => simp [slashes, pieces, splitSlashes]
    | succ k ih => rw [slashes_succ, pieces_slash, ih, ← List.replicate_succ]
  cases k with
  | zero => simp [slashes]
  | succ k => rw [slashes_succ, ← String.append_assoc, pieces_append, hslashes]

/-- Joining takes one slash at most. -/
theorem utf8ByteSize_join (root : String) {path : String} (hpath : ¬isAbsolute path) :
    root.utf8ByteSize + path.utf8ByteSize ≤ (join root path).utf8ByteSize ∧
      (join root path).utf8ByteSize ≤ root.utf8ByteSize + path.utf8ByteSize + 1 := by
  have hslash : "/".utf8ByteSize = 1 := rfl
  rw [join, if_neg hpath]
  split
  · rw [String.utf8ByteSize_append]
    omega
  · rw [String.utf8ByteSize_append, String.utf8ByteSize_append, hslash]
    omega

/-- Whether a path can stand below a root: it is relative, and they are not too long together. -/
structure Fits (root path : String) : Prop where
  relative : ¬isAbsolute path
  text : '\x00' ∉ path.toList
  short : root.utf8ByteSize + path.utf8ByteSize < FileSystem.longestPath

theorem Fits.of_append {root more path : String} (h : Fits (root ++ more) path) : Fits root path := by
  refine ⟨h.relative, h.text, ?_⟩
  have hshort := h.short
  rw [String.utf8ByteSize_append] at hshort
  omega

end Path

namespace FileSystem

variable {fs : FileSystem} {root path : String} {l : Location} {n : Node} {k : Nat}

/-- Slashes behind a path to a directory change nothing, unless they make it too long. -/
theorem find_slashes (hfind : fs.find path = .ok (l, n)) (hn : n.isDirectory)
    (hk : (path ++ Path.slashes k).utf8ByteSize ≤ longestPath) :
    fs.find (path ++ Path.slashes k) = .ok (l, n) := by
  obtain ⟨hresolve, hl⟩ := find_eq_ok_iff.mp hfind
  obtain ⟨hpath, hwalk⟩ := resolve_eq_ok_iff.mp hresolve
  obtain ⟨hnul, hne, -⟩ := pathError?_eq_none_iff.mp hpath
  have hbase : fs.base (path ++ Path.slashes k) = fs.base path := by
    obtain ⟨c, cs, hchars⟩ := List.exists_cons_of_ne_nil (mt String.toList_eq_nil_iff.mp hne)
    simp [base, Path.isAbsolute, String.toList_append, hchars]
  refine find_eq_ok_iff.mpr
    ⟨resolve_eq_ok_iff.mpr ⟨pathError?_eq_none_iff.mpr ⟨?_, ?_, hk⟩, ?_⟩, hl⟩
  · simp [Path.slashes, String.toList_append, hnul]
  · intro hempty
    exact hne (String.append_eq_empty_iff.mp hempty).1
  · rw [hbase, Path.pieces_append_slashes]
    exact walk_append_iff.mpr ⟨l, hwalk, walk_slashes hl (.inr hn)⟩

theorem resolve_join_of_fits (hroot : fs.find root = .ok (l, n)) (h : Path.Fits root path) :
    fs.resolve (Path.join root path) = fs.walk l (Path.pieces path) := by
  have hresolve := (find_eq_ok_iff.mp hroot).1
  refine resolve_join hresolve h.relative ?_
  rw [pathError?_join (resolve_eq_ok_iff.mp hresolve).1 h.relative h.text]
  exact Nat.le_trans (Path.utf8ByteSize_join root h.relative).2 h.short

/-- So a path below such a root leads where it led. -/
theorem find_join_slashes (hroot : fs.find root = .ok (l, n)) (hn : n.isDirectory)
    (h : Path.Fits (root ++ Path.slashes k) path) :
    fs.find (Path.join (root ++ Path.slashes k) path) = fs.find (Path.join root path) := by
  have hshort : (root ++ Path.slashes k).utf8ByteSize ≤ longestPath :=
    Nat.le_trans (Nat.le_add_right _ _) (Nat.le_of_lt h.short)
  rw [find, find, resolve_join_of_fits (find_slashes hroot hn hshort) h,
    resolve_join_of_fits hroot h.of_append]

end FileSystem

/-! ### Campaigns -/

namespace Campaign

variable {fs : FileSystem} {c c' : Campaign}

/-- Of the record files in one directory, a campaign has those that it takes for such. -/
theorem recordFiles_of_find_eq (hfind : fs.find c'.metadata = fs.find c.metadata)
    (hadmits : ∀ name, c'.Admits name → c.Admits name) :
    c'.recordFiles fs = (c.recordFiles fs).filter fun f => c'.Admits f.1 := by
  refine eq_of_pairwise_of_mem_iff (fun _ _ => String.lt_asymm) (recordFiles_pairwise fs c')
    ((recordFiles_pairwise fs c).filter _) fun f => ?_
  rw [List.mem_filter, mem_recordFiles, mem_recordFiles, hfind, decide_eq_true_eq]
  constructor
  · exact fun ⟨hname, hfile⟩ => ⟨⟨hadmits _ hname, hfile⟩, hname⟩
  · exact fun ⟨⟨_, hfile⟩, hname⟩ => ⟨hname, hfile⟩

/-- The campaign at a root, if it is a directory. -/
def placed (root : String) (places : Places) : Campaign where
  root
  metadata := Path.join root places.metadata
  stateFile := Path.join root places.stateFile
  ending := recordEnding places.extension

theorem locate_placed {root : String} (places : Places) (h : fs.isDirectory root) :
    locate fs root places = .ok (placed root places) :=
  if_pos h

variable {root : String} {places : Places} {l : Location} {n : Node} {k : Nat}

/-- What a campaign with slashes behind its root takes for a record file, it takes for one without. -/
theorem Admits.of_slashes (hk : 2 ≤ k) (hmetadata : ¬Path.isAbsolute places.metadata) {name : String}
    (h : (placed (root ++ Path.slashes k) places).Admits name) : (placed root places).Admits name := by
  refine ⟨h.passes, Nat.le_trans ?_ h.short⟩
  have hfar := (Path.utf8ByteSize_join (root ++ Path.slashes k) hmetadata).1
  have hnear := (Path.utf8ByteSize_join root hmetadata).2
  rw [String.utf8ByteSize_append, Path.utf8ByteSize_slashes] at hfar
  simp only [placed]
  by_cases habs : Path.isAbsolute name
  · simp [Path.join, habs]
  · have hfarName := (Path.utf8ByteSize_join
      (Path.join (root ++ Path.slashes k) places.metadata) habs).1
    have hnearName := (Path.utf8ByteSize_join (Path.join root places.metadata) habs).2
    omega

/-- A campaign with slashes behind its root has the global state of the one without, and of the record
files those whose paths are not too long. -/
theorem placed_slashes (hroot : fs.find root = .ok (l, n)) (hn : n.isDirectory) (hk : 2 ≤ k)
    (hmetadata : Path.Fits (root ++ Path.slashes k) places.metadata)
    (hstate : Path.Fits (root ++ Path.slashes k) places.stateFile) :
    locate fs (root ++ Path.slashes k) places = .ok (placed (root ++ Path.slashes k) places) ∧
      (∀ g, (placed root places).globalState fs = .ok g →
        (placed (root ++ Path.slashes k) places).globalState fs = .ok g) ∧
      (placed (root ++ Path.slashes k) places).recordFiles fs =
        ((placed root places).recordFiles fs).filter fun f =>
          (placed (root ++ Path.slashes k) places).Admits f.1 := by
  have hshort : (root ++ Path.slashes k).utf8ByteSize ≤ FileSystem.longestPath :=
    Nat.le_trans (Nat.le_add_right _ _) (Nat.le_of_lt hstate.short)
  refine ⟨locate_placed places ?_, fun g hg => ?_, ?_⟩
  · exact FileSystem.isDirectory_iff.mpr ⟨l, n, FileSystem.find_slashes hroot hn hshort, hn⟩
  · have hread : fs.read (placed (root ++ Path.slashes k) places).stateFile =
        fs.read (placed root places).stateFile := by
      rw [FileSystem.read, FileSystem.read]
      simp only [placed, FileSystem.find_join_slashes hroot hn hstate]
    unfold globalState at hg ⊢
    rw [hread]
    split at hg
    · cases hg
    · split at hg
      · cases hg
      · exact hg
  · exact recordFiles_of_find_eq (FileSystem.find_join_slashes hroot hn hmetadata)
      fun _ => Admits.of_slashes hk hmetadata.relative

/-! ### A root far away -/

/-- A path with so many slashes behind it that a name of eighteen bytes in the metadata directory below
has a path that is too long. -/
def farRoot : String := "camp" ++ Path.slashes 4066

/-- The usual campaign there. -/
def far : Campaign := placed farRoot Places.usual

theorem fits_farRoot {path : String} (hrelative : ¬Path.isAbsolute path) (htext : '\x00' ∉ path.toList)
    (hshort : path.utf8ByteSize < 25) : Path.Fits farRoot path := by
  refine ⟨hrelative, htext, ?_⟩
  have hcamp : "camp".utf8ByteSize = 4 := rfl
  rw [farRoot, String.utf8ByteSize_append, Path.utf8ByteSize_slashes, hcamp, FileSystem.longestPath]
  omega

/-- It is found in the directory, its own files are those of the campaign that is written plainly, and so
are the record files that it admits. -/
theorem find_far (fs : FileSystem) (hroot : fs.find "camp" = .ok (l, .directory)) :
    locate fs farRoot Places.usual = .ok far ∧ fs.find far.metadata = fs.find "camp/metadata" ∧
      fs.find far.stateFile = fs.find "camp/state/global_state.json" ∧
      far.recordFiles fs =
        ((placed "camp" Places.usual).recordFiles fs).filter fun f => far.Admits f.1 := by
  have hmetadata : Path.Fits farRoot Places.usual.metadata :=
    fits_farRoot (by decide) (by decide) (by decide)
  have hstate : Path.Fits farRoot Places.usual.stateFile :=
    fits_farRoot (by decide) (by decide) (by decide)
  obtain ⟨hfar, -, hfiles⟩ := placed_slashes hroot rfl (by decide) hmetadata hstate
  exact ⟨hfar, FileSystem.find_join_slashes hroot rfl hmetadata,
    FileSystem.find_join_slashes hroot rfl hstate, hfiles⟩

theorem utf8ByteSize_join_far (name : String) (hrelative : ¬Path.isAbsolute name) :
    4078 + name.utf8ByteSize ≤ (Path.join far.metadata name).utf8ByteSize ∧
      (Path.join far.metadata name).utf8ByteSize ≤ 4080 + name.utf8ByteSize := by
  have hcamp : "camp".utf8ByteSize = 4 := rfl
  have hmetadata : "metadata".utf8ByteSize = 8 := rfl
  have hdirectory := Path.utf8ByteSize_join farRoot (show ¬Path.isAbsolute "metadata" by decide)
  have hname := Path.utf8ByteSize_join far.metadata hrelative
  rw [farRoot, String.utf8ByteSize_append, Path.utf8ByteSize_slashes, hcamp, hmetadata,
    ← farRoot] at hdirectory
  rw [show far.metadata = Path.join farRoot "metadata" from rfl] at hname ⊢
  omega

/-- A campaign in a directory, without record files. -/
def bare : FileSystem where
  nodes :=
    [(["camp"], .directory), (["metadata", "camp"], .directory), (["state", "camp"], .directory),
      (["global_state.json", "state", "camp"],
        .file (Text.encode "\x7b\"last_allocated_id\": 1, \"total_coverage\": 5\x7d"))]
  working := []

/-- A record with an id. -/
def recordWith (id : String) : Node :=
  .file (Text.encode ("\x7b\"id\": " ++ id ++ ", \"new_cov\": 5, \"cov_incr\": 5, \"depth\": 0\x7d"))

/-- A name that is too long for the campaign far away. -/
def longName : String := "id-0000000001.json"

theorem not_admits_longName : ¬far.Admits longName := by
  intro h
  have hsize : longName.utf8ByteSize = 18 := rfl
  have hjoin := (utf8ByteSize_join_far longName (by decide)).1
  have hshort := h.short
  rw [FileSystem.longestPath] at hshort
  omega

end Campaign

end FuzzCampaign
