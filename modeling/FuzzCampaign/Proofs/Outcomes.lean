import FuzzCampaign.Proofs.LongPaths
import FuzzCampaign.Proofs.Runs
import FuzzCampaign.Proofs.Winners

/-!
How a run on a campaign can end. There is no report without a directory at the root, without a global
state, or without a usable record, and the first of these that is lacking names the failure. Validation
leaves a record for the id of every complete candidate, so one usable record file is enough. Main
statement: each of the four outcomes has its condition on the file system, no other outcome occurs, and
the first two failures are decided along the ways to the root and to the state file alone.
-/

namespace FuzzCampaign

open Seed

/-- Whether a failure is noticed before any record is looked for. -/
def Failure.isEarly : Failure → Bool
  | .directoryNotFound _ | .globalStateMissing _ _ => true
  | .noRecordsFound _ | .config _ | .io _ => false

namespace FileSystem

/-- Whether a path leads to a regular file that holds a global state. -/
def HasState (fs : FileSystem) (path : String) : Prop :=
  ∃ l bytes g, fs.find path = .ok (l, .file bytes) ∧ GlobalState.parse bytes = .ok g

/-- Whether a path leads to a directory in which a regular file has the name of a record file, a path
that is short enough to be followed, and metadata with all required fields. -/
def HasRecord (fs : FileSystem) (path ending : String) : Prop :=
  ∃ l n name bytes m, fs.find path = .ok (l, n) ∧ n.isDirectory ∧ isRecordName ending name ∧
    (Path.join path name).utf8ByteSize ≤ longestPath ∧
    fs.node? (name :: l) = some (.file bytes) ∧ Metadata.parse bytes = .ok m ∧
    m.id.isSome ∧ m.newCoverage.isSome ∧ m.increment.isSome ∧ m.depth.isSome

/-- What is read is a regular file, or a sink that gives nothing. -/
theorem file_of_read {fs : FileSystem} {path : String} {bytes : List UInt8}
    (h : fs.read path = .ok bytes) :
    (∃ l, fs.find path = .ok (l, .file bytes)) ∨ bytes = [] := by
  unfold read at h
  split at h
  · cases h
  · next l content hfind => exact .inl ⟨l, Except.ok.inj h ▸ hfind⟩
  · exact .inr (Except.ok.inj h).symm
  · cases h
  · cases h

end FileSystem

namespace Campaign

variable {fs fs' : FileSystem} {c : Campaign} {root : String} {places : Places}

/-! ### The global state -/

theorem exists_globalState_iff : (∃ g, c.globalState fs = .ok g) ↔ fs.HasState c.stateFile := by
  constructor
  · rintro ⟨g, h⟩
    unfold globalState at h
    split at h
    · cases h
    · next bytes hread =>
      split at h
      · cases h
      · next state hparse =>
        rcases FileSystem.file_of_read hread with ⟨l, hfind⟩ | rfl
        · exact ⟨l, bytes, state, hfind, hparse⟩
        · -- a sink gives an empty text, which is no global state
          cases hparse
  · rintro ⟨l, bytes, g, hfind, hparse⟩
    exact ⟨g, by simp only [globalState, FileSystem.read, hfind, hparse]⟩

theorem globalState_eq_error {failure : Failure} (h : c.globalState fs = .error failure) :
    ∃ reason, failure = .globalStateMissing c.stateFile reason := by
  unfold globalState at h
  split at h
  · exact ⟨_, (Except.error.inj h).symm⟩
  · split at h
    · exact ⟨_, (Except.error.inj h).symm⟩
    · cases h

/-! ### The records -/

/-- A record is left exactly when the metadata directory holds a usable one. -/
theorem records_candidates_ne_nil_iff :
    (validate (c.candidates fs).candidates).records ≠ [] ↔ fs.HasRecord c.metadata c.ending := by
  rw [records_ne_nil_iff, candidates_of_recordFiles]
  constructor
  · rintro ⟨d, hd, hcomplete⟩
    obtain ⟨⟨name, bytes⟩, hfile, -, hparse⟩ := mem_candidatesOf.mp hd
    obtain ⟨⟨hname, hshort⟩, l, n, hfind, hn, hnode⟩ := mem_recordFiles.mp hfile
    simp only [Candidate.isComplete, Bool.and_eq_true, and_assoc] at hcomplete
    exact ⟨l, n, name, bytes, d.metadata, hfind, hn, hname, hshort, hnode, hparse, hcomplete⟩
  · rintro ⟨l, n, name, bytes, m, hfind, hn, hname, hshort, hnode, hparse, hcomplete⟩
    have hfile := mem_recordFiles.mpr ⟨⟨hname, hshort⟩, l, n, hfind, hn, hnode⟩
    refine ⟨⟨name, m⟩, ?_, by simpa [Candidate.isComplete, and_assoc] using hcomplete⟩
    exact mem_candidatesOf.mpr ⟨_, hfile, rfl, hparse⟩

/-! ### The outcome of a run -/

/-- A campaign that lies at a root is read with one of three outcomes. -/
theorem report_source_cases (fs : FileSystem) (c : Campaign) :
    (¬fs.HasState c.stateFile ∧
      ∃ reason, (c.source fs).report = .error (.globalStateMissing c.stateFile reason)) ∨
    (fs.HasState c.stateFile ∧ ¬fs.HasRecord c.metadata c.ending ∧
      (c.source fs).report = .error (.noRecordsFound c.root)) ∨
    (fs.HasState c.stateFile ∧ fs.HasRecord c.metadata c.ending ∧
      ∃ report, (c.source fs).report = .ok report) := by
  rw [report_source]
  cases hg : c.globalState fs with
  | error failure =>
    obtain ⟨reason, rfl⟩ := globalState_eq_error hg
    refine .inl ⟨fun hstate => ?_, reason, rfl⟩
    obtain ⟨g, hok⟩ := exists_globalState_iff.mpr hstate
    cases hg.symm.trans hok
  | ok g =>
    have hstate := exists_globalState_iff.mp ⟨g, hg⟩
    by_cases hrecord : fs.HasRecord c.metadata c.ending
    · have hne := records_candidates_ne_nil_iff.mpr hrecord
      exact .inr (.inr ⟨hstate, hrecord, _, reportOn_eq_ok_iff.mpr ⟨hne, rfl⟩⟩)
    · have hnil := Classical.not_not.mp (mt records_candidates_ne_nil_iff.mp hrecord)
      exact .inr (.inl ⟨hstate, hrecord, reportOn_eq_error_iff.mpr ⟨hnil, rfl⟩⟩)

/-- When each outcome of a run on a campaign occurs. -/
structure EndsAs (fs : FileSystem) (root : String) (places : Places)
    (outcome : Except Failure Report) : Prop where
  directoryNotFound : ∀ path, outcome = .error (.directoryNotFound path) ↔
    path = root ∧ ¬fs.isDirectory root
  globalStateMissing : ∀ path, (∃ reason, outcome = .error (.globalStateMissing path reason)) ↔
    path = Path.join root places.stateFile ∧ fs.isDirectory root ∧
      ¬fs.HasState (Path.join root places.stateFile)
  noRecordsFound : ∀ path, outcome = .error (.noRecordsFound path) ↔
    path = root ∧ fs.isDirectory root ∧ fs.HasState (Path.join root places.stateFile) ∧
      ¬fs.HasRecord (Path.join root places.metadata) (recordEnding places.extension)
  report : (∃ report, outcome = .ok report) ↔
    fs.isDirectory root ∧ fs.HasState (Path.join root places.stateFile) ∧
      fs.HasRecord (Path.join root places.metadata) (recordEnding places.extension)
  not_config : ∀ reason, outcome ≠ .error (.config reason)
  not_io : ∀ reason, outcome ≠ .error (.io reason)

theorem endsAs_report (fs : FileSystem) (root : String) (places : Places) :
    EndsAs fs root places (Campaign.report fs root places) := by
  unfold Campaign.report locate
  by_cases hdir : fs.isDirectory root
  · rw [if_pos hdir]
    rcases report_source_cases fs ⟨root, Path.join root places.metadata,
        Path.join root places.stateFile, recordEnding places.extension⟩ with
      ⟨hstate, reason, h⟩ | ⟨hstate, hrecord, h⟩ | ⟨hstate, hrecord, report, h⟩
    · simp only [h]
      constructor <;> simp [hdir, hstate, eq_comm]
    · simp only [h]
      constructor <;> simp [hdir, hstate, hrecord, eq_comm]
    · simp only [h]
      constructor <;> simp [hdir, hstate, hrecord]
  · rw [if_neg hdir]
    constructor <;> simp [hdir, eq_comm]

/-! ### What the early failures depend on -/

theorem locate_congr (h : fs'.find root = fs.find root) :
    locate fs' root places = locate fs root places := by
  rw [locate, locate, FileSystem.isDirectory, FileSystem.isDirectory, h]

theorem globalState_congr (h : fs'.find c.stateFile = fs.find c.stateFile) :
    c.globalState fs' = c.globalState fs := by
  rw [globalState, globalState, FileSystem.read, FileSystem.read, h]

theorem locate_eq_ok_iff :
    locate fs root places = .ok c ↔
      fs.isDirectory root ∧
        c = ⟨root, Path.join root places.metadata, Path.join root places.stateFile,
          recordEnding places.extension⟩ := by
  unfold locate
  split
  · next hdir => simp [hdir, eq_comm]
  · next hdir => simp [hdir]

/-- Where everything is kept, a campaign lies where it lay. -/
theorem locate_of_keeps (hc : locate fs root places = .ok c) (hkeeps : fs.Keeps fs') :
    locate fs' root places = .ok c := by
  obtain ⟨k, n, hfind, -⟩ := FileSystem.isDirectory_iff.mp (locate_eq_ok_iff.mp hc).1
  rw [locate_congr ((hkeeps.find_of_found hfind).trans hfind.symm), hc]

/-- And a global state that was read is read again. -/
theorem globalState_of_keeps {g : GlobalState} (hg : c.globalState fs = .ok g) (hkeeps : fs.Keeps fs') :
    c.globalState fs' = .ok g := by
  obtain ⟨l, bytes, -, hfind, -⟩ := exists_globalState_iff.mp ⟨g, hg⟩
  rw [globalState_congr ((hkeeps.find_of_found hfind).trans hfind.symm), hg]

/-- An early failure comes from the root or from the global state. -/
theorem report_eq_early_iff {failure : Failure} (hearly : failure.isEarly) :
    Campaign.report fs root places = .error failure ↔
      locate fs root places = .error failure ∨
        ∃ c, locate fs root places = .ok c ∧ c.globalState fs = .error failure := by
  unfold Campaign.report
  cases hc : locate fs root places with
  | error e => simp
  | ok c =>
    simp only [report_source]
    cases hg : c.globalState fs with
    | error e => simp [hg]
    | ok g =>
      have hlate : reportOn c.root g (c.candidates fs) ≠ .error failure := by
        intro h
        obtain ⟨-, rfl⟩ := reportOn_eq_error_iff.mp h
        cases hearly
      simp [hg, hlate]

/-- A run on a campaign fails for want of a directory at the root, of a global state, or of a usable
record, in this order, and else ends in a report. Whether it fails in one of the first two ways is
decided by what lies on the ways to the root and to the state file: no change anywhere else matters for
them, in the metadata directory or outside it. -/
theorem report_outcome (fs : FileSystem) (root : String) (places : Places) :
    EndsAs fs root places (Campaign.report fs root places) ∧
    ∀ fs' : FileSystem, fs'.working = fs.working →
      (∀ k ∈ fs.way root, fs'.node? k = fs.node? k) →
      (∀ k ∈ fs.way (Path.join root places.stateFile), fs'.node? k = fs.node? k) →
      ∀ failure : Failure, failure.isEarly →
        (Campaign.report fs' root places = .error failure ↔
          Campaign.report fs root places = .error failure) := by
  refine ⟨endsAs_report fs root places, fun fs' hworking hroot hstate failure hearly => ?_⟩
  rw [report_eq_early_iff hearly, report_eq_early_iff hearly,
    locate_congr (FileSystem.find_congr hworking hroot)]
  refine or_congr_right (exists_congr fun c => and_congr_right fun hc => ?_)
  have hfind : fs'.find c.stateFile = fs.find c.stateFile := by
    rw [(locate_eq_ok_iff.mp hc).2]
    exact FileSystem.find_congr hworking hstate
  rw [globalState_congr hfind]

/-- A campaign with a record and no global state. -/
def unstated : FileSystem where
  nodes :=
    [(["camp"], .directory), (["metadata", "camp"], .directory),
      (["a.json", "metadata", "camp"],
        .file (Text.encode "\x7b\"id\": 1, \"new_cov\": 5, \"cov_incr\": 5, \"depth\": 0\x7d"))]
  working := []

theorem report_unstated_outcome :
    let emptied := unstated.removeBelow ["metadata", "camp"]
    let failure := Failure.globalStateMissing "camp/state/global_state.json"
      FileError.notFound.message
    EndsAs unstated "camp" Places.usual (Campaign.report unstated "camp" Places.usual) ∧
    (∀ k ∈ unstated.way "camp", emptied.node? k = unstated.node? k) ∧
    (∀ k ∈ unstated.way "camp/state/global_state.json", emptied.node? k = unstated.node? k) ∧
    emptied.node? ["a.json", "metadata", "camp"] ≠ unstated.node? ["a.json", "metadata", "camp"] ∧
    Campaign.report emptied "camp" Places.usual = .error failure := by
  have hroot : ∀ k ∈ unstated.way "camp",
      (unstated.removeBelow ["metadata", "camp"]).node? k = unstated.node? k := by decide
  have hstate : ∀ k ∈ unstated.way "camp/state/global_state.json",
      (unstated.removeBelow ["metadata", "camp"]).node? k = unstated.node? k := by decide
  obtain ⟨hends, hsame⟩ := report_outcome unstated "camp" Places.usual
  exact ⟨hends, hroot, hstate, by decide,
    (hsame (unstated.removeBelow ["metadata", "camp"]) rfl hroot hstate _ rfl).mpr rfl⟩

/-- A record in a file with a short name is enough for a report on a campaign far away. -/
theorem exists_report_far (fs : FileSystem) {l m : Location} {n : Node} {bytes : List UInt8} {g : GlobalState}
    (hroot : fs.find "camp" = .ok (m, .directory))
    (hstate : fs.find "camp/state/global_state.json" = .ok (l, .file bytes))
    (hparse : GlobalState.parse bytes = .ok g)
    (hmetadata : fs.find "camp/metadata" = .ok (["metadata", "camp"], n)) (hn : n.isDirectory)
    (hrecord : fs.node? ["a.json", "metadata", "camp"] = some (recordWith "0")) :
    ∃ report, Campaign.report fs farRoot Places.usual = .ok report := by
  obtain ⟨hfar, hfarMetadata, hfarState, -⟩ := find_far fs hroot
  refine (endsAs_report fs farRoot Places.usual).report.mpr
    ⟨(locate_eq_ok_iff.mp hfar).1, ⟨_, _, _, hfarState.trans hstate, hparse⟩, ?_⟩
  refine ⟨_, _, "a.json", _, _, hfarMetadata.trans hmetadata, hn, rfl, ?_, hrecord, rfl, rfl, rfl,
    rfl, rfl⟩
  exact Nat.le_trans (utf8ByteSize_join_far "a.json" (by decide)).2 (by decide)

/-- A campaign with one record, in a file with a long name. -/
def hidden : FileSystem where
  nodes := ([longName, "metadata", "camp"], recordWith "1") :: bare.nodes
  working := []

theorem find_far_hidden : locate hidden farRoot Places.usual = .ok far ∧
    hidden.find far.metadata = .ok (["metadata", "camp"], .directory) :=
  let ⟨hfar, hmetadata, _⟩ := find_far hidden rfl
  ⟨hfar, hmetadata⟩

theorem recordFiles_hidden : far.recordFiles hidden = [] := by
  obtain ⟨-, -, -, hfiles⟩ := find_far hidden rfl
  have hplain : ((placed "camp" Places.usual).recordFiles hidden).map (·.1) = [longName] := rfl
  rw [hfiles, List.filter_eq_nil_iff]
  intro f hf hadmits
  have hname := List.mem_singleton.mp (hplain ▸ List.mem_map_of_mem hf)
  exact not_admits_longName (hname ▸ of_decide_eq_true hadmits)

theorem report_hidden :
    Campaign.report hidden farRoot Places.usual = .error (.noRecordsFound farRoot) := by
  obtain ⟨hfar, -, hstate, -⟩ := find_far hidden rfl
  have hnone : ¬hidden.HasRecord far.metadata far.ending := by
    rw [← records_candidates_ne_nil_iff, candidates_of_recordFiles, recordFiles_hidden]
    exact fun hne => hne rfl
  exact ((endsAs_report hidden farRoot Places.usual).noRecordsFound farRoot).mpr
    ⟨rfl, (locate_eq_ok_iff.mp hfar).1, ⟨_, _, _, hstate, rfl⟩, hnone⟩

/-- A usable record is not enough for a report if the path of its file is too long, and a global state that
lies in the metadata directory decides on an early failure. -/
theorem report_hidden_and_inner :
    (Campaign.report hidden farRoot Places.usual = .error (.noRecordsFound farRoot) ∧
      locate hidden farRoot Places.usual = .ok far ∧
      hidden.find far.metadata = .ok (["metadata", "camp"], .directory) ∧
      isRecordName far.ending longName ∧
      ∃ bytes m, hidden.node? [longName, "metadata", "camp"] = some (.file bytes) ∧
        Metadata.parse bytes = .ok m ∧
        m.id.isSome ∧ m.newCoverage.isSome ∧ m.increment.isSome ∧ m.depth.isSome) ∧
    let stated := unstated.put ["global.state", "metadata", "camp"]
      (.file (Text.encode "\x7b\"last_allocated_id\": 1, \"total_coverage\": 5\x7d"))
    let places : Places := ⟨"metadata", "metadata/global.state", "json"⟩
    (∀ k, k ≠ ["global.state", "metadata", "camp"] → stated.node? k = unstated.node? k) ∧
      Campaign.report unstated "camp" places
        = .error (.globalStateMissing "camp/metadata/global.state" FileError.notFound.message) ∧
      ∃ report, Campaign.report stated "camp" places = .ok report := by
  exact ⟨⟨report_hidden, find_far_hidden.1, find_far_hidden.2, rfl, _, _, rfl, rfl, rfl, rfl, rfl, rfl⟩,
    fun k hk => unstated.node?_put_of_ne _ hk, rfl, _, rfl⟩

end Campaign

end FuzzCampaign
