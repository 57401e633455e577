import FuzzCampaign.Campaign
import FuzzCampaign.Proofs.Paths
import Mathlib.Data.List.Basic

/-!
The record files of a campaign, as they are found in the file system. A directory lists the names that
are one longer than its location, and since there is one node at each location, it lists no name twice.
What has a name is then looked up by a path of its own, which can be too long. Main statements: the
record files of a campaign are those regular files in the metadata directory whose names pass as names
of records and whose paths can be followed, each listed once and in ascending order by name; each of
them can be read, and gives a candidate or a finding that it holds no record.
-/

namespace FuzzCampaign

namespace FileSystem

variable {fs : FileSystem} {l k : Location} {name directory path : String} {n m : Node}

/-! ### Paths to entries -/

/-- What a directory's path with a name leads to. -/
theorem find_join_iff (hfind : fs.find directory = .ok (l, n)) (hn : n.isDirectory)
    (hname : isName name) :
    fs.find (Path.join directory name) = .ok (k, m) ↔
      (Path.join directory name).utf8ByteSize ≤ longestPath ∧ k = name :: l ∧ fs.node? k = some m := by
  obtain ⟨hresolve, hl⟩ := find_eq_ok_iff.mp hfind
  have hdirectory := (resolve_eq_ok_iff.mp hresolve).1
  obtain ⟨-, -, hshort, hpiece, hnul⟩ := isName_iff.mp hname
  have habs := not_isAbsolute_of_isPiece hpiece
  have hjoin := pathError?_join hdirectory habs hnul
  by_cases hpath : pathError? (Path.join directory name) = none
  · have hwalk : fs.resolve (Path.join directory name) = .ok k ↔ k = name :: l := by
      rw [resolve_join hresolve habs hpath, Path.pieces_of_isPiece hpiece, walk_cons_iff,
        and_iff_right ⟨n, hl, hn⟩, and_iff_right hshort, move_of_isName hname, walk, Except.ok.injEq]
      exact eq_comm
    rw [find_eq_ok_iff, hwalk, and_iff_right (hjoin.mp hpath)]
  · refine iff_of_false (fun h => ?_) fun h => hpath (hjoin.mpr h.1)
    exact hpath (resolve_eq_ok_iff.mp (find_eq_ok_iff.mp h).1).1

/-! ### Entries of directories -/

theorem namesAt_eq (fs : FileSystem) (l : Location) :
    fs.namesAt l = fs.nodes.filterMap fun e => if e.1.tail = l then e.1.head? else none := by
  refine List.filterMap_congr ?_
  rintro ⟨k, n⟩ -
  cases k with
  | nil => exact (ite_self none).symm
  | cons first above => rfl

theorem ite_head?_eq_some_iff {k : Location} :
    (if k.tail = l then k.head? else none) = some name ↔ k = name :: l := by
  rw [Option.ite_none_right_eq_some]
  cases k with
  | nil => simp
  | cons first above => simp [and_comm]

theorem mem_namesAt : name ∈ fs.namesAt l ↔ ∃ n, fs.node? (name :: l) = some n := by
  simp only [node?_eq_some_iff, namesAt_eq, List.mem_filterMap, ite_head?_eq_some_iff, Prod.exists]
  constructor
  · rintro ⟨_, n, hmem, rfl⟩
    exact ⟨n, hmem⟩
  · rintro ⟨n, hmem⟩
    exact ⟨_, n, hmem, rfl⟩

theorem nodup_namesAt (fs : FileSystem) (l : Location) : (fs.namesAt l).Nodup := by
  have hnodes : fs.nodes.Pairwise fun d e => d.1 ≠ e.1 := List.pairwise_map.mp fs.nodup
  rw [namesAt_eq]
  refine List.pairwise_filterMap.mpr (hnodes.imp fun {d e} hne x hx y hy hxy => hne ?_)
  rw [ite_head?_eq_some_iff.mp hx, ite_head?_eq_some_iff.mp hy, hxy]

theorem mem_names (hfind : fs.find path = .ok (l, n)) (hn : n.isDirectory) :
    name ∈ fs.names path ↔ ∃ m, fs.node? (name :: l) = some m := by
  simp only [names, hfind, hn, if_true]
  exact mem_namesAt

theorem isDirectory_of_mem_names (h : name ∈ fs.names path) :
    ∃ l n, fs.find path = .ok (l, n) ∧ n.isDirectory := by
  unfold names at h
  split at h
  · next l n hfind =>
    split at h
    · next hn => exact ⟨l, n, hfind, hn⟩
    · cases h
  · cases h

theorem nodup_names (fs : FileSystem) (path : String) : (fs.names path).Nodup := by
  unfold names
  split
  · split
    · exact nodup_namesAt fs _
    · exact .nil
  · exact .nil

theorem isFile_iff : fs.isFile path ↔ ∃ l bytes, fs.find path = .ok (l, .file bytes) := by
  unfold isFile
  constructor
  · intro h
    split at h
    · next l bytes hfind => exact ⟨l, bytes, hfind⟩
    · cases h
  · rintro ⟨l, bytes, hfind⟩
    rw [hfind]

/-- What an entry of a directory has to be in order to be a regular file by its path. -/
theorem isFile_join_iff (hfind : fs.find directory = .ok (l, n)) (hn : n.isDirectory)
    (name : String) :
    name ∈ fs.names directory ∧ fs.isFile (Path.join directory name) ↔
      (Path.join directory name).utf8ByteSize ≤ longestPath ∧
        ∃ bytes, fs.node? (name :: l) = some (.file bytes) := by
  rw [mem_names hfind hn, isFile_iff]
  constructor
  · rintro ⟨⟨m, hm⟩, k, bytes, hfile⟩
    obtain ⟨hshort, rfl, hnode⟩ := (find_join_iff hfind hn (fs.isName_of_entry hm)).mp hfile
    exact ⟨hshort, bytes, hnode⟩
  · rintro ⟨hshort, bytes, hnode⟩
    exact ⟨⟨_, hnode⟩, _, bytes,
      (find_join_iff hfind hn (fs.isName_of_entry hnode)).mpr ⟨hshort, rfl, hnode⟩⟩

/-- Such a file can be read. -/
theorem read_join {bytes : List UInt8} (hfind : fs.find directory = .ok (l, n)) (hn : n.isDirectory)
    (hshort : (Path.join directory name).utf8ByteSize ≤ longestPath)
    (hnode : fs.node? (name :: l) = some (.file bytes)) :
    fs.read (Path.join directory name) = .ok bytes := by
  rw [read, (find_join_iff hfind hn (fs.isName_of_entry hnode)).mpr ⟨hshort, rfl, hnode⟩]

end FileSystem

namespace Campaign

open Seed

variable {fs : FileSystem} {c : Campaign} {l : Location} {n : Node} {name : String} {bytes : List UInt8}

/-- Whether a campaign takes a name for that of a record file: it passes as one, and its path in the
metadata directory is short enough to be followed. -/
structure Admits (c : Campaign) (name : String) : Prop where
  passes : isRecordName c.ending name
  short : (Path.join c.metadata name).utf8ByteSize ≤ FileSystem.longestPath

theorem admits_iff : c.Admits name ↔ isRecordName c.ending name ∧
    (Path.join c.metadata name).utf8ByteSize ≤ FileSystem.longestPath :=
  ⟨fun h => ⟨h.passes, h.short⟩, fun h => ⟨h.1, h.2⟩⟩

instance (c : Campaign) (name : String) : Decidable (c.Admits name) :=
  decidable_of_iff _ admits_iff.symm

theorem admits_congr {c' : Campaign} (hmetadata : c'.metadata = c.metadata)
    (hending : c'.ending = c.ending) : c'.Admits name ↔ c.Admits name := by
  constructor
  · exact fun h => ⟨hending ▸ h.passes, hmetadata ▸ h.short⟩
  · exact fun h => ⟨hending ▸ h.passes, hmetadata ▸ h.short⟩

/-- Whether a name is that of a record file: the campaign takes it for one, and a regular file has it
in the metadata directory. -/
def IsRecordFile (fs : FileSystem) (c : Campaign) (name : String) : Prop :=
  c.Admits name ∧ ∃ l n bytes, fs.find c.metadata = .ok (l, n) ∧ n.isDirectory ∧
    fs.node? (name :: l) = some (.file bytes)

/-- The record files by name, with the bytes that their paths lead to. -/
def recordFiles (fs : FileSystem) (c : Campaign) : List (String × List UInt8) :=
  (c.recordPaths fs).filterMap fun f => (fs.read f.2).toOption.map fun bytes => (f.1, bytes)

/-- The candidates among record files. -/
def candidatesOf (files : List (String × List UInt8)) : List Candidate :=
  candidatesIn (files.map fun f => parseRecord f.1 f.2)

/-- The findings on record files. -/
def findingsOf (files : List (String × List UInt8)) : List Finding :=
  findingsIn (files.map fun f => parseRecord f.1 f.2)

/-! ### Which files they are -/

theorem mem_recordPaths (hfind : fs.find c.metadata = .ok (l, n)) (hn : n.isDirectory)
    {path : String} :
    (name, path) ∈ c.recordPaths fs ↔ path = Path.join c.metadata name ∧ c.Admits name ∧
      ∃ bytes, fs.node? (name :: l) = some (.file bytes) := by
  have hfile := FileSystem.isFile_join_iff hfind hn name
  rw [recordPaths, mem_sortBy, List.mem_filter, List.mem_map, Bool.and_eq_true]
  constructor
  · rintro ⟨⟨name, hname, heq⟩, hpath, hpasses⟩
    obtain ⟨rfl, rfl⟩ := Prod.mk.inj heq
    obtain ⟨hshort, hnode⟩ := hfile.mp ⟨hname, hpath⟩
    exact ⟨rfl, ⟨hpasses, hshort⟩, hnode⟩
  · rintro ⟨rfl, hadmits, hnode⟩
    obtain ⟨hname, hpath⟩ := hfile.mpr ⟨hadmits.short, hnode⟩
    exact ⟨⟨name, hname, rfl⟩, hpath, hadmits.passes⟩

theorem isDirectory_of_mem_recordPaths {f : String × String} (h : f ∈ c.recordPaths fs) :
    ∃ l n, fs.find c.metadata = .ok (l, n) ∧ n.isDirectory := by
  rw [recordPaths, mem_sortBy, List.mem_filter, List.mem_map] at h
  obtain ⟨⟨name, hname, -⟩, -⟩ := h
  exact FileSystem.isDirectory_of_mem_names hname

/-- What is listed as a record file can be read. -/
theorem exists_read_of_mem_recordPaths {f : String × String} (h : f ∈ c.recordPaths fs) :
    ∃ bytes, fs.read f.2 = .ok bytes := by
  obtain ⟨l, n, hfind, hn⟩ := isDirectory_of_mem_recordPaths h
  obtain ⟨hpath, hadmits, bytes, hnode⟩ := (mem_recordPaths hfind hn).mp h
  exact ⟨bytes, hpath ▸ FileSystem.read_join hfind hn hadmits.short hnode⟩

theorem mem_recordFiles_of_find (hfind : fs.find c.metadata = .ok (l, n)) (hn : n.isDirectory) :
    (name, bytes) ∈ c.recordFiles fs ↔
      c.Admits name ∧ fs.node? (name :: l) = some (.file bytes) := by
  rw [recordFiles, List.mem_filterMap]
  constructor
  · rintro ⟨⟨listed, path⟩, hmem, hread⟩
    obtain ⟨rfl, hadmits, found, hnode⟩ := (mem_recordPaths hfind hn).mp hmem
    rw [FileSystem.read_join hfind hn hadmits.short hnode] at hread
    obtain ⟨rfl, rfl⟩ := Prod.mk.inj (Option.some.inj hread)
    exact ⟨hadmits, hnode⟩
  · rintro ⟨hadmits, hnode⟩
    refine ⟨_, (mem_recordPaths hfind hn).mpr ⟨rfl, hadmits, bytes, hnode⟩, ?_⟩
    rw [FileSystem.read_join hfind hn hadmits.short hnode]
    rfl

theorem mem_recordFiles :
    (name, bytes) ∈ c.recordFiles fs ↔ c.Admits name ∧ ∃ l n,
      fs.find c.metadata = .ok (l, n) ∧ n.isDirectory ∧
        fs.node? (name :: l) = some (.file bytes) := by
  constructor
  · intro h
    obtain ⟨f, hmem, -⟩ := List.mem_filterMap.mp h
    obtain ⟨l, n, hfind, hn⟩ := isDirectory_of_mem_recordPaths hmem
    obtain ⟨hadmits, hnode⟩ := (mem_recordFiles_of_find hfind hn).mp h
    exact ⟨hadmits, l, n, hfind, hn, hnode⟩
  · rintro ⟨hadmits, l, n, hfind, hn, hnode⟩
    exact (mem_recordFiles_of_find hfind hn).mpr ⟨hadmits, hnode⟩

theorem mem_map_recordFiles : name ∈ (c.recordFiles fs).map (·.1) ↔ c.IsRecordFile fs name := by
  rw [List.mem_map]
  constructor
  · rintro ⟨⟨name, bytes⟩, h, rfl⟩
    obtain ⟨hadmits, l, n, hfile⟩ := mem_recordFiles.mp h
    exact ⟨hadmits, l, n, bytes, hfile⟩
  · rintro ⟨hadmits, l, n, bytes, hfile⟩
    exact ⟨(name, bytes), mem_recordFiles.mpr ⟨hadmits, l, n, hfile⟩, rfl⟩

theorem nodup_recordPaths (fs : FileSystem) (c : Campaign) :
    ((c.recordPaths fs).map (·.1)).Nodup := by
  have hnames : (((fs.names c.metadata).map fun name => (name, Path.join c.metadata name)).map
      (·.1)).Nodup := by
    rw [List.map_map]
    exact (List.map_id _).symm ▸ FileSystem.nodup_names fs c.metadata
  exact (((sortBy_perm _ _).map _).nodup_iff).mpr (hnames.sublist (List.filter_sublist.map _))

/-- The record files ascend strictly by name. -/
theorem recordPaths_pairwise (fs : FileSystem) (c : Campaign) :
    (c.recordPaths fs).Pairwise fun f g => f.1 < g.1 := by
  have hsorted : (c.recordPaths fs).Pairwise fun f g => decide (f.1 ≤ g.1) :=
    sortBy_pairwise (fun f g => by simpa using String.le_total f.1 g.1)
      (fun f g h => by simpa using String.le_trans) _
  refine (hsorted.and (List.pairwise_map.mp (nodup_recordPaths fs c))).imp fun {f g} h => ?_
  exact String.not_le.mp fun hgf => h.2 (String.le_antisymm (of_decide_eq_true h.1) hgf)

theorem recordFiles_pairwise (fs : FileSystem) (c : Campaign) :
    (c.recordFiles fs).Pairwise fun f g => f.1 < g.1 := by
  refine List.pairwise_filterMap.mpr ((recordPaths_pairwise fs c).imp ?_)
  intro f g hlt x hx y hy
  obtain ⟨_, -, rfl⟩ := Option.map_eq_some_iff.mp hx
  obtain ⟨_, -, rfl⟩ := Option.map_eq_some_iff.mp hy
  exact hlt

theorem nodup_recordFiles (fs : FileSystem) (c : Campaign) :
    ((c.recordFiles fs).map (·.1)).Nodup := by
  refine List.pairwise_map.mpr ((recordFiles_pairwise fs c).imp fun {f g} hlt heq => ?_)
  exact String.lt_irrefl _ (heq ▸ hlt)

/-! ### What they hold -/

section

variable {f : String × List UInt8}

theorem candidatesOf_append (front back : List (String × List UInt8)) :
    candidatesOf (front ++ back) = candidatesOf front ++ candidatesOf back := by
  rw [candidatesOf, List.map_append, candidatesIn, List.filterMap_append]
  rfl

theorem findingsOf_append (front back : List (String × List UInt8)) :
    findingsOf (front ++ back) = findingsOf front ++ findingsOf back := by
  rw [findingsOf, List.map_append, findingsIn, List.filterMap_append]
  rfl

/-- A file that holds a record gives a candidate and nothing else. -/
theorem of_cons_of_parse_ok {metadata : Metadata} (h : Metadata.parse f.2 = .ok metadata)
    (files : List (String × List UInt8)) :
    candidatesOf (f :: files) = ⟨f.1, metadata⟩ :: candidatesOf files ∧
      findingsOf (f :: files) = findingsOf files := by
  have hread : parseRecord f.1 f.2 = .ok ⟨f.1, metadata⟩ := by rw [parseRecord, h]
  rw [candidatesOf, findingsOf, List.map_cons, hread]
  exact ⟨rfl, rfl⟩

/-- Any other file gives a finding and nothing else. -/
theorem of_cons_of_parse_error {fault : Json.Fault} (h : Metadata.parse f.2 = .error fault)
    (files : List (String × List UInt8)) :
    candidatesOf (f :: files) = candidatesOf files ∧
      findingsOf (f :: files) =
        .unreadable f.1 ("invalid record JSON: " ++ fault.message f.2) :: findingsOf files := by
  have hread : parseRecord f.1 f.2 =
      .error (.unreadable f.1 ("invalid record JSON: " ++ fault.message f.2)) := by rw [parseRecord, h]
  rw [candidatesOf, findingsOf, List.map_cons, hread]
  exact ⟨rfl, rfl⟩

end

/-- A candidate comes from a file that it is named for and that states its metadata. -/
theorem mem_candidatesOf {files : List (String × List UInt8)} {candidate : Candidate} :
    candidate ∈ candidatesOf files ↔ ∃ f ∈ files,
      candidate.source = f.1 ∧ Metadata.parse f.2 = .ok candidate.metadata := by
  rw [candidatesOf, candidatesIn, List.filterMap_map, List.mem_filterMap]
  refine exists_congr fun f => and_congr_right fun _ => ?_
  rw [Function.comp_apply, parseRecord]
  cases hparse : Metadata.parse f.2 with
  | error fault => simp [Except.toOption]
  | ok metadata =>
    obtain ⟨source, stated⟩ := candidate
    simp [Except.toOption, eq_comm]

/-- A finding on files names one that does not parse. -/
theorem mem_findingsOf {files : List (String × List UInt8)} {finding : Finding} :
    finding ∈ findingsOf files ↔ ∃ f ∈ files, ∃ fault, Metadata.parse f.2 = .error fault ∧
      finding = .unreadable f.1 ("invalid record JSON: " ++ fault.message f.2) := by
  rw [findingsOf, findingsIn, List.filterMap_map, List.mem_filterMap]
  refine exists_congr fun f => and_congr_right fun _ => ?_
  rw [Function.comp_apply, parseRecord]
  cases hparse : Metadata.parse f.2 with
  | error fault => simp [eq_comm]
  | ok metadata => simp

/-- What is read through the paths of the record files is what their bytes hold. -/
theorem map_readRecord (fs : FileSystem) (c : Campaign) :
    (c.recordPaths fs).map (fun f => readRecord fs f.1 f.2) =
      (c.recordFiles fs).map fun f => parseRecord f.1 f.2 := by
  rw [recordFiles, List.map_filterMap, ← List.filterMap_eq_map]
  refine (List.filterMap_congr fun f hf => ?_).symm
  obtain ⟨bytes, hread⟩ := exists_read_of_mem_recordPaths hf
  rw [hread, Function.comp_apply, readRecord, hread]
  rfl

theorem candidates_eq (fs : FileSystem) (c : Campaign) :
    c.candidates fs = if fs.isDirectory c.metadata then
      ⟨candidatesOf (c.recordFiles fs), (findingsOf (c.recordFiles fs)).map Finding.warning⟩
    else ⟨[], [(Finding.noMetadata c.metadata).warning]⟩ := by
  rw [candidates, map_readRecord]
  rfl

/-- Without a metadata directory there is no record file, so the candidates are those of the record
files in any case. -/
theorem candidates_of_recordFiles (fs : FileSystem) (c : Campaign) :
    (c.candidates fs).candidates = candidatesOf (c.recordFiles fs) := by
  rw [candidates_eq]
  split
  · rfl
  · next hdir =>
    have hnil : c.recordFiles fs = [] := by
      refine List.eq_nil_iff_forall_not_mem.mpr fun f hf => hdir ?_
      obtain ⟨-, l, n, hfind, hn, -⟩ := mem_recordFiles.mp hf
      exact FileSystem.isDirectory_iff.mpr ⟨l, n, hfind, hn⟩
    rw [hnil]
    rfl

end Campaign

end FuzzCampaign
