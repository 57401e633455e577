import FuzzCampaign.Proofs.LongPaths
import FuzzCampaign.Proofs.Outcomes
import FuzzCampaign.Proofs.Stages
import Mathlib.Data.Set.Card

/-!
Where each record file of a campaign ends up. On its way to a report a file can be dropped at three
points: it cannot be read, it lacks a required field, or another file takes its id. A file that is
dropped leaves one finding behind and a file that is kept goes on, so at each point the files before
it are those dropped and those kept, up to order. Main statement: in every report on a campaign each
record file is named by one surviving record or by one dropping warning, and nothing else is.
-/

namespace FuzzCampaign

open Seed

/-- Whether a warning says that a file was dropped. -/
def Warning.isDropping (w : Warning) : Bool :=
  w.kind = .recordParseError ∨ w.kind = .duplicateId ∨
    w.kind = .invalidRecord ∧ w.detail.startsWith "missing required field(s): "

namespace Finding

/-- The file that goes with a finding, if the finding drops one. -/
def dropped? : Finding → Option String
  | unreadable source _ => some source
  | incomplete source _ => some source
  | superseded source _ _ => some source
  | _ => none

/-- A warning is a dropping one exactly when its finding drops a file. -/
theorem isDropping_warning (f : Finding) : f.warning.isDropping = f.dropped?.isSome := by
  rw [Warning.isDropping]
  cases f with
  | unreadable source reason => rfl
  | incomplete source missing =>
    have hwords : (incompleteWords ++ String.intercalate ", "
        (missing.map RequiredField.name)).startsWith "missing required field(s): " := by
      rw [String.startsWith_string_iff, String.toList_append]
      exact List.prefix_append _ _
    rw [warning_incomplete, hwords]
    rfl
  | aboveFull source id share value =>
    have hwords := not_startsWith_incompleteWords
      (natText id ++ ": " ++ share.name ++ " = " ++ natText value ++ " exceeds 10000 basis points")
    rw [incompleteWords] at hwords
    rw [warning_aboveFull, hwords]
    rfl
  | incrementMismatch source id increment difference => rfl
  | superseded source id winner => rfl
  | regression source earlierId earlierCoverage id coverage => rfl
  | beyondAllocation source id lastAllocated => rfl
  | finalMismatch id coverage totalCoverage => rfl
  | noMetadata path => rfl

/-- A finding that drops a file names it. -/
theorem source?_eq_dropped? {f : Finding} (h : f.dropped?.isSome) : f.source? = f.dropped? := by
  cases f with
  | unreadable | incomplete | superseded => rfl
  | aboveFull | incrementMismatch | regression | beyondAllocation | finalMismatch | noMetadata =>
    cases h

end Finding

/-- The files that findings drop. -/
def droppedFiles (findings : List Finding) : List String := findings.filterMap Finding.dropped?

@[simp] theorem droppedFiles_append (fs gs : List Finding) :
    droppedFiles (fs ++ gs) = droppedFiles fs ++ droppedFiles gs := List.filterMap_append

theorem countP_isDropping (findings : List Finding) :
    (findings.map Finding.warning).countP Warning.isDropping = (droppedFiles findings).length := by
  rw [droppedFiles, List.length_filterMap_eq_countP, List.countP_map]
  exact List.countP_congr fun f _ => by rw [Function.comp, Finding.isDropping_warning]

/-- Of a file there are as many dropping warnings as it is dropped times. -/
theorem countP_isDropping_source (findings : List Finding) (name : String) :
    ((findings.map Finding.warning).countP fun w => w.isDropping ∧ w.source = some name)
      = (droppedFiles findings).count name := by
  rw [droppedFiles, List.count_filterMap, List.countP_map]
  refine List.countP_congr fun f _ => ?_
  simp only [Function.comp, Finding.isDropping_warning, decide_eq_true_eq, beq_iff_eq]
  change f.dropped?.isSome ∧ f.source? = some name ↔ f.dropped? = some name
  constructor
  · rintro ⟨hsome, hname⟩
    rw [← Finding.source?_eq_dropped? hsome, hname]
  · intro hname
    have hsome : f.dropped?.isSome := by rw [hname]; rfl
    exact ⟨hsome, by rw [Finding.source?_eq_dropped? hsome, hname]⟩

/-! ### Dropped and kept at each point -/

/-- A file that is read keeps its name, and one that is not is dropped. -/
theorem load_perm (files : List (String × List UInt8)) :
    (droppedFiles (Campaign.findingsOf files)
      ++ (Campaign.candidatesOf files).map Candidate.source).Perm (files.map (·.1)) := by
  induction files with
  | nil => exact .nil
  | cons f rest ih =>
    cases hparse : Metadata.parse f.2 with
    | error fault =>
      obtain ⟨hcandidates, hfindings⟩ := Campaign.of_cons_of_parse_error hparse rest
      rw [hcandidates, hfindings, List.map_cons]
      exact ih.cons f.1
    | ok metadata =>
      obtain ⟨hcandidates, hfindings⟩ := Campaign.of_cons_of_parse_ok hparse rest
      rw [hcandidates, hfindings, List.map_cons, List.map_cons]
      exact List.perm_middle.trans (ih.cons f.1)

/-- Of the findings on a candidate only the one on absent fields drops it. -/
theorem droppedFiles_findings (c : Candidate) :
    droppedFiles c.findings = if c.record?.isSome then [] else [c.source] := by
  cases hr : c.record? with
  | none => rw [Candidate.findings, hr]; rfl
  | some r =>
    refine List.filterMap_eq_nil_iff.mpr fun f hf => ?_
    rcases Candidate.mem_findings hf with ⟨hnone, -⟩ | ⟨r, -, ⟨share, value, rfl⟩ | ⟨d, rfl⟩⟩
    · cases hr.symm.trans hnone
    · rfl
    · rfl

/-- A candidate that lacks a field is dropped, and any other one makes a record. -/
theorem completeness_perm (cs : List Candidate) :
    (droppedFiles (cs.flatMap Candidate.findings)
      ++ (cs.filterMap Candidate.record?).map Record.source).Perm (cs.map Candidate.source) := by
  induction cs with
  | nil => exact .nil
  | cons c rest ih =>
    rw [List.flatMap_cons, droppedFiles_append, droppedFiles_findings]
    cases hr : c.record? with
    | none => simpa [hr] using ih
    | some r =>
      have hmiddle := List.perm_middle.trans (ih.cons c.source)
      simpa [hr, (Candidate.makes_of_record? hr).source] using hmiddle

/-- Of neighbours with one id the earlier one is dropped, and any other record survives. -/
theorem survival_perm (rs : List Record) :
    (droppedFiles (Validation.supersessions rs)
      ++ (Validation.survivors rs).map Record.source).Perm (rs.map Record.source) := by
  fun_induction Validation.survivors rs with
  | case1 => exact .nil
  | case2 r => exact .refl _
  | case3 r s rest hid ih =>
    rw [Validation.supersessions, if_pos hid]
    exact ih.cons r.source
  | case4 r s rest hid ih =>
    rw [Validation.supersessions, if_neg hid]
    exact List.perm_middle.trans (ih.cons r.source)

theorem validate_perm (cs : List Candidate) :
    (droppedFiles (validate cs).findings ++ (validate cs).records.map Record.source).Perm
      (cs.map Candidate.source) := by
  have hordered : ((Validation.ordered cs).map Record.source).Perm
      ((cs.filterMap Candidate.record?).map Record.source) := (sortBy_perm _ _).map _
  rw [validate, droppedFiles_append, List.append_assoc]
  exact (((survival_perm _).trans hordered).append_left _).trans (completeness_perm cs)

/-- What the series say drops nothing. -/
theorem droppedFiles_series (g : GlobalState) (rs : List Record) :
    droppedFiles (Series.findings rs g) = [] := by
  refine List.filterMap_eq_nil_iff.mpr fun f hf => ?_
  rcases Series.mem_findings hf with ⟨r, -, p, -, -, rfl⟩ | ⟨r, -, -, rfl⟩ | ⟨r, -, -, rfl⟩
  · rfl
  · rfl
  · rfl

/-! ### Reports on campaigns -/

/-- What a report on a campaign says of its record files, when some records survive: each of the
files is named by one surviving record or by one dropping warning, and nothing else is. -/
structure Report.AccountsFor (report : Report) (fs : FileSystem) (c : Campaign)
    (survivors : List Record) : Prop where
  ids : report.coverage.map (·.1) = survivors.map (·.id)
  once : ∀ name, c.IsRecordFile fs name →
    survivors.countP (·.source = name)
      + report.warnings.countP (fun w => w.isDropping ∧ w.source = some name) = 1
  number : {name | c.IsRecordFile fs name}.ncard
    = report.summary.totalSeeds + report.warnings.countP Warning.isDropping
  survivor_isRecordFile : ∀ r ∈ survivors, c.IsRecordFile fs r.source
  dropping_isRecordFile : ∀ w ∈ report.warnings, w.isDropping →
    ∃ name, w.source = some name ∧ c.IsRecordFile fs name

/-- The findings behind the warnings of a report. -/
def allFindings (fs : FileSystem) (c : Campaign) (g : GlobalState) : List Finding :=
  Campaign.findingsOf (c.recordFiles fs) ++ (validate (c.candidates fs).candidates).findings
    ++ Series.findings (validate (c.candidates fs).candidates).records g

section

variable {fs : FileSystem} {c : Campaign} {g : GlobalState} {location : String} {report : Report}

/-- Without a metadata directory there is no candidate and no report. -/
theorem isDirectory_of_reportOn (h : reportOn location g (c.candidates fs) = .ok report) :
    fs.isDirectory c.metadata := by
  obtain ⟨hne, -⟩ := reportOn_eq_ok_iff.mp h
  by_contra hdir
  refine hne ?_
  rw [Campaign.candidates_eq, if_neg hdir]
  rfl

theorem warnings_of_reportOn (h : reportOn location g (c.candidates fs) = .ok report) :
    report.warnings = (allFindings fs c g).map Finding.warning := by
  have hdir := isDirectory_of_reportOn h
  obtain ⟨-, rfl⟩ := reportOn_eq_ok_iff.mp h
  rw [allFindings, List.map_append, List.map_append]
  simp only [Report.assemble, Series.derive, Campaign.candidates_eq, if_pos hdir]

/-- The record files are those dropped and those of the survivors. -/
theorem allFindings_perm (fs : FileSystem) (c : Campaign) (g : GlobalState) :
    (droppedFiles (allFindings fs c g)
      ++ (validate (c.candidates fs).candidates).records.map Record.source).Perm
      ((c.recordFiles fs).map (·.1)) := by
  rw [allFindings, droppedFiles_append, droppedFiles_append, droppedFiles_series, List.append_nil,
    List.append_assoc]
  refine ((validate_perm _).append_left _).trans ?_
  rw [Campaign.candidates_of_recordFiles]
  exact load_perm _

theorem accountsFor_of_reportOn (h : reportOn location g (c.candidates fs) = .ok report) :
    report.AccountsFor fs c (validate (c.candidates fs).candidates).records := by
  have hperm := allFindings_perm fs c g
  have hwarnings := warnings_of_reportOn h
  have hnodup := hperm.nodup_iff.mpr (Campaign.nodup_recordFiles fs c)
  have hmem := fun name => (hperm.mem_iff (a := name)).trans Campaign.mem_map_recordFiles
  obtain ⟨-, hreport⟩ := reportOn_eq_ok_iff.mp h
  generalize (validate (c.candidates fs).candidates).records = survivors at *
  constructor
  case ids => simp [← hreport, Report.assemble, Series.derive]
  case once =>
    intro name hname
    have hone : (droppedFiles (allFindings fs c g) ++ survivors.map Record.source).count name = 1 :=
      hnodup.count ▸ if_pos ((hmem name).mpr hname)
    have hkept : (survivors.map Record.source).count name
        = survivors.countP (·.source = name) := by
      rw [List.count, List.countP_map]
      exact List.countP_congr fun r _ => by simp
    rw [hwarnings, countP_isDropping_source, ← hkept, Nat.add_comm, ← List.count_append]
    exact hone
  case number =>
    have hset : {name | c.IsRecordFile fs name}
        = ↑(droppedFiles (allFindings fs c g) ++ survivors.map Record.source).toFinset := by
      ext name
      simpa using (hmem name).symm
    rw [hset, Set.ncard_coe_finset, List.toFinset_card_of_nodup hnodup, List.length_append,
      List.length_map, hwarnings, countP_isDropping, ← hreport, Nat.add_comm]
    rfl
  case survivor_isRecordFile =>
    intro r hr
    exact (hmem r.source).mp (List.mem_append_right _ (List.mem_map_of_mem hr))
  case dropping_isRecordFile =>
    rw [hwarnings]
    intro w hw hdrop
    obtain ⟨f, hf, rfl⟩ := List.mem_map.mp hw
    rw [Finding.isDropping_warning] at hdrop
    obtain ⟨name, hname⟩ := Option.isSome_iff_exists.mp hdrop
    have hdropped : name ∈ droppedFiles (allFindings fs c g) :=
      List.mem_filterMap.mpr ⟨f, hf, hname⟩
    refine ⟨name, (Finding.source?_eq_dropped? hdrop).trans hname, ?_⟩
    exact (hmem name).mp (List.mem_append_left _ hdropped)

end

namespace Campaign

/-- Every report on a campaign accounts for all of its record files. -/
theorem report_accountsFor {fs : FileSystem} {root : String} {places : Places} {report : Report}
    (h : Campaign.report fs root places = .ok report) :
    ∃ c, locate fs root places = .ok c ∧
      report.AccountsFor fs c (validate (c.candidates fs).candidates).records := by
  obtain ⟨c, g, hc, -, hreport⟩ := report_eq_ok_iff.mp h
  exact ⟨c, hc, accountsFor_of_reportOn hreport⟩

/-- A campaign with two survivors and one file for each way to be dropped. -/
def strays : FileSystem where
  nodes :=
    [(["metadata"], .directory), (["state"], .directory),
      (["global_state.json", "state"],
        .file (Text.encode "\x7b\"last_allocated_id\": 2, \"total_coverage\": 8\x7d")),
      (["a.json", "metadata"],
        .file (Text.encode "\x7b\"id\": 1, \"new_cov\": 5, \"cov_incr\": 5, \"depth\": 0\x7d")),
      (["b.json", "metadata"],
        .file (Text.encode "\x7b\"id\": 1, \"new_cov\": 7, \"cov_incr\": 7, \"depth\": 0\x7d")),
      (["c.json", "metadata"],
        .file (Text.encode "\x7b\"id\": 2, \"new_cov\": 8, \"cov_incr\": 1, \"depth\": 1\x7d")),
      (["d.json", "metadata"], .file (Text.encode "\x7b\"id\": 3\x7d")),
      (["e.json", "metadata"], .file (Text.encode "\x7b")),
      (["notes.txt", "metadata"], .file [])]
  working := []

theorem report_strays_accountsFor :
    ∃ report, Campaign.report strays "/" Places.usual = .ok report ∧
      report.summary.totalSeeds = 2 ∧ report.warnings.length = 3 ∧
      ∃ c, locate strays "/" Places.usual = .ok c ∧
        report.AccountsFor strays c (validate (c.candidates strays).candidates).records :=
  ⟨_, rfl, rfl, rfl, report_accountsFor rfl⟩

/-- A campaign with two records, of which one is in a file with a long name. -/
def paired : FileSystem where
  nodes := (["a.json", "metadata", "camp"], recordWith "0") ::
    ([longName, "metadata", "camp"], recordWith "1") :: bare.nodes
  working := []

/-- A regular file whose name passes as that of a record file is named by nothing in a report, if its path is
too long. -/
theorem report_paired_unaccounted :
    ∃ report, Campaign.report paired farRoot Places.usual = .ok report ∧
      locate paired farRoot Places.usual = .ok far ∧
      paired.find far.metadata = .ok (["metadata", "camp"], .directory) ∧
      paired.node? [longName, "metadata", "camp"] = some (recordWith "1") ∧
      isRecordName far.ending longName ∧
      (∀ r ∈ (validate (far.candidates paired).candidates).records, r.source ≠ longName) ∧
      ∀ w ∈ report.warnings, w.isDropping → w.source ≠ some longName := by
  obtain ⟨hfar, hmetadata, -⟩ := find_far paired rfl
  obtain ⟨report, hreport⟩ := exists_report_far paired rfl rfl rfl rfl rfl rfl
  obtain ⟨c, g, hc, -, hon⟩ := report_eq_ok_iff.mp hreport
  obtain rfl := Except.ok.inj (hc.symm.trans hfar)
  have haccounts := accountsFor_of_reportOn hon
  refine ⟨report, hreport, hfar, hmetadata, rfl, rfl, fun r hr hsource => ?_,
    fun w hw hdrop hsource => ?_⟩
  · exact not_admits_longName (hsource ▸ (haccounts.survivor_isRecordFile r hr).1)
  · obtain ⟨name, hname, hfile⟩ := haccounts.dropping_isRecordFile w hw hdrop
    obtain rfl := Option.some.inj (hname.symm.trans hsource)
    exact not_admits_longName hfile.1

end Campaign

end FuzzCampaign
