import FuzzCampaign.Proofs.WarningOrder
import FuzzCampaign.Proofs.NewEntry

/-!
What is loaded from a metadata directory, whichever way it is enumerated. A record file is known by its
name: a stem, one dot and the extension, where dots in front of the extension are not part of it and
the stem is neither empty nor hidden. Record files are put in the order of their names before any of
them is read, so the order in which a directory gives its entries is forgotten. Main statement: each
record file, taken by the bytes of its name, gives one candidate or one warning, and another order of
the entries or other dots before the extension give the same.
-/

namespace FuzzCampaign

open Seed

/-! ### Names of record files -/

/-- An extension without dots in front. -/
def bareExtension (ext : String) : String := String.ofList (ext.toList.dropWhile (· = '.'))

/-- Whether a name is a stem, one dot and an extension. The stem is not empty and not hidden. -/
def IsStemWith (ext name : String) : Prop :=
  ∃ stem : String, stem ≠ "" ∧ stem.toList.head? ≠ some '.' ∧ name = stem ++ "." ++ bareExtension ext

theorem toList_recordEnding (ext : String) :
    (recordEnding ext).toList = '.' :: (bareExtension ext).toList := by
  rw [recordEnding, bareExtension, String.toList_ofList, String.toList_ofList]

/-- Dots in front of an extension change nothing, however many there are. -/
theorem bareExtension_dots (k : Nat) (ext : String) :
    bareExtension (String.ofList (List.replicate k '.') ++ ext) = bareExtension ext := by
  have hdots : ∀ c ∈ List.replicate k '.', decide (c = '.') := by
    intro c hc
    exact decide_eq_true (List.eq_of_mem_replicate hc)
  rw [bareExtension, String.toList_append, String.toList_ofList,
    List.dropWhile_append_of_pos hdots, bareExtension]

theorem isRecordName_iff {ext name : String} :
    isRecordName (recordEnding ext) name ↔ IsStemWith ext name := by
  rw [isRecordName, Bool.and_eq_true, Bool.and_eq_true, bne_iff_ne, decide_eq_true_eq,
    List.isSuffixOf_iff_suffix, toList_recordEnding]
  constructor
  · rintro ⟨⟨hhidden, stem, hname⟩, hlength⟩
    have hstem : stem ≠ [] := by
      rintro rfl
      rw [← hname, List.nil_append] at hlength
      exact Nat.lt_irrefl _ hlength
    refine ⟨String.ofList stem, ?_, ?_, ?_⟩
    · intro hempty
      exact hstem (by simpa using congrArg String.toList hempty)
    · rwa [String.toList_ofList, ← List.head?_append_of_ne_nil _ hstem, hname]
    · refine String.toList_injective ?_
      rw [String.toList_append, String.toList_append, String.toList_ofList, ← hname,
        List.append_assoc]
      rfl
  · rintro ⟨stem, hne, hhidden, rfl⟩
    have hchars : (stem ++ "." ++ bareExtension ext).toList
        = stem.toList ++ '.' :: (bareExtension ext).toList := by
      rw [String.toList_append, String.toList_append, List.append_assoc]
      rfl
    have hstem : stem.toList ≠ [] := mt String.toList_eq_nil_iff.mp hne
    rw [hchars]
    refine ⟨⟨?_, List.suffix_append _ _⟩, ?_⟩
    · rwa [List.head?_append_of_ne_nil _ hstem]
    · have hpos := List.length_pos_iff.mpr hstem
      rw [List.length_append]
      omega

/-- With an extension of dots alone, record files end in one dot. -/
example : isRecordName (recordEnding "..") "a." ∧ ¬isRecordName (recordEnding "..") "a" := by decide

/-! ### Orders of entries -/

/-- Whether two file systems have the same entries, in whatever order they are enumerated. -/
structure FileSystem.SameEntries (fs fs' : FileSystem) : Prop where
  working : fs'.working = fs.working
  perm : fs'.nodes.Perm fs.nodes

namespace FileSystem.SameEntries

variable {fs fs' : FileSystem}

theorem node?_eq (h : fs.SameEntries fs') (k : Location) : fs'.node? k = fs.node? k := by
  cases k with
  | nil => rfl
  | cons name above =>
    refine Option.ext fun n => ?_
    rw [node?_eq_some_iff, node?_eq_some_iff, h.perm.mem_iff]

theorem find_eq (h : fs.SameEntries fs') (path : String) : fs'.find path = fs.find path :=
  find_congr h.working fun k _ => h.node?_eq k

theorem isDirectory_eq (h : fs.SameEntries fs') (path : String) :
    fs'.isDirectory path = fs.isDirectory path := by
  rw [isDirectory, isDirectory, h.find_eq]

end FileSystem.SameEntries

/-! ### Candidates and warnings -/

/-- What is loaded from files: those that state metadata give candidates and the others warnings, each
file one, and both stand in the order of the files' names. -/
structure Loaded.SplitsUp (loaded : Loaded) (files : List (String × List UInt8)) : Prop where
  candidates : ∀ d, d ∈ loaded.candidates ↔
    ∃ bytes, (d.source, bytes) ∈ files ∧ Metadata.parse bytes = .ok d.metadata
  warnings : ∀ w, w ∈ loaded.warnings ↔
    ∃ name bytes fault, (name, bytes) ∈ files ∧ Metadata.parse bytes = .error fault ∧
      w = ⟨.recordParseError, some name, "invalid record JSON: " ++ fault.message bytes⟩
  once : ∀ f ∈ files, loaded.candidates.countP (·.source = f.1)
    + loaded.warnings.countP (·.source = some f.1) = 1
  candidates_ascend : loaded.candidates.Pairwise fun d e =>
    Text.encode d.source < Text.encode e.source
  warnings_ascend : loaded.warnings.Pairwise Warning.SourceBefore

namespace Campaign

variable {files : List (String × List UInt8)}

theorem mem_warningsOf {w : Warning} :
    w ∈ (findingsOf files).map Finding.warning ↔
      ∃ name bytes fault, (name, bytes) ∈ files ∧ Metadata.parse bytes = .error fault ∧
        w = ⟨.recordParseError, some name, "invalid record JSON: " ++ fault.message bytes⟩ := by
  rw [List.mem_map]
  constructor
  · rintro ⟨finding, hfinding, rfl⟩
    obtain ⟨⟨name, bytes⟩, hf, fault, hparse, rfl⟩ := mem_findingsOf.mp hfinding
    exact ⟨name, bytes, fault, hf, hparse, rfl⟩
  · rintro ⟨name, bytes, fault, hf, hparse, rfl⟩
    exact ⟨_, mem_findingsOf.mpr ⟨(name, bytes), hf, fault, hparse, rfl⟩, rfl⟩

/-- A file with a name of its own gives one candidate or one warning. -/
theorem once_of_nodup (hnodup : (files.map (·.1)).Nodup) {f : String × List UInt8} (hf : f ∈ files) :
    (candidatesOf files).countP (·.source = f.1)
      + ((findingsOf files).map Finding.warning).countP (·.source = some f.1) = 1 := by
  have hkept : (candidatesOf files).countP (·.source = f.1)
      = ((candidatesOf files).map Candidate.source).count f.1 := by
    rw [List.count, List.countP_map]
    exact List.countP_congr fun d _ => by simp
  have hdropped : ((findingsOf files).map Finding.warning).countP (·.source = some f.1)
      = (droppedFiles (findingsOf files)).count f.1 := by
    rw [← countP_isDropping_source]
    refine List.countP_congr fun w hw => ?_
    obtain ⟨name, bytes, fault, -, -, rfl⟩ := mem_warningsOf.mp hw
    simp [Warning.isDropping]
  rw [hkept, hdropped, Nat.add_comm, ← List.count_append, (load_perm files).count_eq,
    hnodup.count, if_pos (List.mem_map_of_mem hf)]

theorem splitsUp_of_ascending (h : files.Pairwise fun f g => f.1 < g.1) :
    Loaded.SplitsUp ⟨candidatesOf files, (findingsOf files).map Finding.warning⟩ files where
  candidates d := by
    rw [mem_candidatesOf]
    constructor
    · rintro ⟨⟨name, bytes⟩, hf, hname, hparse⟩
      exact ⟨bytes, hname ▸ hf, hparse⟩
    · rintro ⟨bytes, hf, hparse⟩
      exact ⟨(d.source, bytes), hf, rfl, hparse⟩
  warnings _ := mem_warningsOf
  once f hf := by
    refine once_of_nodup (List.pairwise_map.mpr (h.imp ?_)) hf
    intro f g hfg heq
    exact String.lt_irrefl _ (heq ▸ hfg)
  candidates_ascend := (candidatesOf_pairwise h).imp Text.encode_lt_encode_iff.mpr
  warnings_ascend := findingsOf_pairwise h

section

variable {fs fs' : FileSystem} {c c' : Campaign}

theorem recordFiles_of_sameEntries (h : fs.SameEntries fs') (hmetadata : c'.metadata = c.metadata)
    (hending : c'.ending = c.ending) : c'.recordFiles fs' = c.recordFiles fs := by
  refine eq_of_pairwise_of_mem_iff (fun _ _ => String.lt_asymm) (recordFiles_pairwise fs' c')
    (recordFiles_pairwise fs c) ?_
  rintro ⟨name, bytes⟩
  rw [mem_recordFiles, mem_recordFiles, admits_congr hmetadata hending, hmetadata, h.find_eq]
  simp only [h.node?_eq]

theorem candidates_of_sameEntries (h : fs.SameEntries fs') (hmetadata : c'.metadata = c.metadata)
    (hending : c'.ending = c.ending) : c'.candidates fs' = c.candidates fs := by
  rw [candidates_eq, candidates_eq, recordFiles_of_sameEntries h hmetadata hending, hmetadata,
    h.isDirectory_eq]

end

/-- What is loaded from a metadata directory comes from the files whose names are stems with the
extension and whose paths are short enough to be followed, in the order of the bytes of their names. The
order in which the entries are enumerated and the dots in front of the extension make no difference to
it. -/
theorem loads_by_name {fs : FileSystem} {root : String} {places : Places} {c : Campaign} {l : Location}
    {n : Node} (hc : locate fs root places = .ok c) (hfind : fs.find c.metadata = .ok (l, n))
    (hn : n.isDirectory) :
    ∃ (loaded : Loaded) (files : List (String × List UInt8)),
      (c.source fs).candidates = .ok loaded ∧
      (∀ name bytes, (name, bytes) ∈ files ↔
        IsStemWith places.extension name ∧
          (Path.join c.metadata name).utf8ByteSize ≤ FileSystem.longestPath ∧
          fs.node? (name :: l) = some (.file bytes)) ∧
      files.Pairwise (fun f g => Text.encode f.1 < Text.encode g.1) ∧
      loaded.SplitsUp files ∧
      ∀ fs' ext, fs.SameEntries fs' → bareExtension ext = bareExtension places.extension →
        ∃ c', locate fs' root { places with extension := ext } = .ok c' ∧
          (c'.source fs').candidates = .ok loaded := by
  obtain ⟨hdir, rfl⟩ := locate_eq_ok_iff.mp hc
  have hascend := recordFiles_pairwise fs ⟨root, Path.join root places.metadata,
    Path.join root places.stateFile, recordEnding places.extension⟩
  refine ⟨_, _, congrArg Except.ok (candidates_of_find hfind hn), ?_, ?_,
    splitsUp_of_ascending hascend, ?_⟩
  · intro name bytes
    rw [mem_recordFiles_of_find hfind hn, admits_iff, isRecordName_iff, and_assoc]
  · exact hascend.imp Text.encode_lt_encode_iff.mpr
  · intro fs' ext hentries hext
    refine ⟨_, locate_eq_ok_iff.mpr ⟨?_, rfl⟩, congrArg Except.ok ?_⟩
    · rwa [hentries.isDirectory_eq]
    · have hending : recordEnding ext = recordEnding places.extension := by
        refine String.toList_injective ?_
        rw [toList_recordEnding, toList_recordEnding, hext]
      rw [← candidates_of_find hfind hn]
      exact candidates_of_sameEntries hentries rfl hending

/-- A campaign whose metadata directory has names of many sorts, of which two are those of record
files. -/
def manyNames : FileSystem where
  nodes :=
    [(["metadata"], .directory), (["b.meta.json", "metadata"], .file (Text.encode "\x7b")),
      (["a..meta.json", "metadata"], .file (Text.encode "\x7b\"id\": 1\x7d")),
      ([".a.meta.json", "metadata"], .file []), ([".meta.json", "metadata"], .file []),
      (["meta.json", "metadata"], .file []), (["c.json", "metadata"], .file []),
      (["d.meta.json", "metadata"], .directory)]
  working := []

/-- The same campaign, with its entries enumerated from the last one to the first. -/
def manyNamesReversed : FileSystem where
  nodes := manyNames.nodes.reverse
  working := []

theorem loads_manyNames_by_name :
    ∃ c c' loaded, locate manyNames "/" ⟨"metadata", "state", "..meta.json"⟩ = .ok c ∧
      manyNames.find c.metadata = .ok (["metadata"], .directory) ∧
      (c.source manyNames).candidates = .ok loaded ∧
      loaded.candidates.map (·.source) = ["a..meta.json"] ∧
      loaded.warnings.map (·.source) = [some "b.meta.json"] ∧
      locate manyNamesReversed "/" ⟨"metadata", "state", "meta.json"⟩ = .ok c' ∧
      (c'.source manyNamesReversed).candidates = .ok loaded := by
  have hc : locate manyNames "/" ⟨"metadata", "state", "..meta.json"⟩
      = .ok ⟨"/", "/metadata", "/state", ".meta.json"⟩ := rfl
  have hentries : manyNames.SameEntries manyNamesReversed := ⟨rfl, List.reverse_perm _⟩
  obtain ⟨loaded, files, hloaded, -, -, -, hsame⟩ := loads_by_name hc rfl rfl
  obtain ⟨c', hc', hloaded'⟩ :=
    hsame _ "meta.json" hentries (bareExtension_dots 2 "meta.json").symm
  refine ⟨_, c', loaded, hc, rfl, hloaded, ?_, ?_, hc', hloaded'⟩
  · obtain rfl := Except.ok.inj hloaded
    rfl
  · obtain rfl := Except.ok.inj hloaded
    rfl

/-- A regular file with the name of a record file is neither a candidate nor warned of, if its path is too
long. -/
theorem loads_hidden_unlisted :
    locate hidden farRoot Places.usual = .ok far ∧
      hidden.find far.metadata = .ok (["metadata", "camp"], .directory) ∧
      IsStemWith Places.usual.extension longName ∧
      hidden.node? [longName, "metadata", "camp"] = some (recordWith "1") ∧
      (far.source hidden).candidates = .ok ⟨[], []⟩ := by
  obtain ⟨hfar, hdir⟩ := find_far_hidden
  refine ⟨hfar, hdir, isRecordName_iff.mp (by decide), rfl, congrArg Except.ok ?_⟩
  rw [candidates_of_find hdir rfl, recordFiles_hidden]
  rfl

end Campaign

end FuzzCampaign
