import FuzzCampaign.Proofs.Essentials
import FuzzCampaign.Proofs.ReportMetadata
import FuzzCampaign.Proofs.RunEffects
import FuzzCampaign.Proofs.SavingAgain

/-!
Reports among the records. A report can be saved in the metadata directory under a name that passes as
the name of a record file, and then the next run takes it for one. It states nothing of a seed, so it is
an incomplete candidate, and validation passes it over with a warning. Main statement: the next run gets
the same figures and one more warning, at the place of the file's name, and from then on every run does
the same; only a run that made a directory in the place of the usual configuration file is different.
-/

namespace FuzzCampaign

open Seed

namespace Campaign

section

variable {fs fs' : FileSystem} {c : Campaign} {path name : String} {m : Location} {bytes : List UInt8}

/-! ### The record files -/

/-- Whether a path leads to where a new record file of a campaign can be. -/
structure MakesRecordFile (fs : FileSystem) (c : Campaign) (path name : String) (m : Location) : Prop where
  metadata : ∃ n, fs.find c.metadata = .ok (m, n) ∧ n.isDirectory
  target : fs.target path = name :: m
  absent : fs.node? (name :: m) = none
  admitted : c.Admits name

variable {front back : List (String × List UInt8)}

namespace MakesRecordFile

theorem keeps (h : c.MakesRecordFile fs path name m) (hsaved : CommandLine.Saved fs fs' path bytes) :
    fs.Keeps fs' :=
  hsaved.keeps (h.target ▸ h.absent)

theorem not_device (h : c.MakesRecordFile fs path name m) : fs.node? (fs.target path) ≠ some .sink := by
  rw [h.target, h.absent]
  exact fun hsink => nomatch hsink

/-- The record files are those from before, and the file that was saved. -/
theorem mem_recordFiles (h : c.MakesRecordFile fs path name m)
    (hsaved : CommandLine.Saved fs fs' path bytes) {f : String × List UInt8} :
    f ∈ c.recordFiles fs' ↔ f = (name, bytes) ∨ f ∈ c.recordFiles fs := by
  obtain ⟨n, hfind, hn⟩ := h.metadata
  obtain ⟨x, content⟩ := f
  rw [mem_recordFiles_of_find hfind hn, mem_recordFiles_of_find ((h.keeps hsaved).find_of_found hfind) hn]
  by_cases hx : x = name
  · subst hx
    have hnew := hsaved.node?_eq
    rw [h.target] at hnew
    simp [h.admitted, hnew, h.absent, eq_comm]
  · have hne : x :: m ≠ fs.target path := by
      rw [h.target]
      exact fun heq => hx (List.cons.inj heq).1
    rcases hsaved.rest _ hne with heq | ⟨-, hnone, hdir⟩
    · simp [heq, hx]
    · simp [hnone, hdir, hx]

end MakesRecordFile

/-! ### The candidates -/

/-- What is loaded without the file that was saved. -/
theorem candidates_of_splitAt (h : c.MakesRecordFile fs path name m)
    (hsplit : SplitAt name (c.recordFiles fs) front back) :
    c.candidates fs = ⟨candidatesOf front ++ candidatesOf back,
      (findingsOf (front ++ back)).map Finding.warning⟩ := by
  obtain ⟨n, hfind, hn⟩ := h.metadata
  rw [candidates_of_find hfind hn, hsplit.eq, candidatesOf_append]

/-- A file that states nothing is one more candidate, and nothing is found in it when it is read. -/
theorem candidates_of_saved (h : c.MakesRecordFile fs path name m)
    (hsaved : CommandLine.Saved fs fs' path bytes)
    (hsplit : SplitAt name (c.recordFiles fs) front back) (hempty : Metadata.parse bytes = .ok .empty) :
    c.candidates fs' = ⟨candidatesOf front ++ ⟨name, .empty⟩ :: candidatesOf back,
      (findingsOf (front ++ back)).map Finding.warning⟩ := by
  obtain ⟨n, hfind, hn⟩ := h.metadata
  obtain ⟨hcandidates, hfindings⟩ := of_cons_of_parse_ok (f := (name, bytes)) hempty back
  rw [candidates_of_find ((h.keeps hsaved).find_of_found hfind) hn,
    hsplit.recordFiles_eq fun _ => h.mem_recordFiles hsaved, candidatesOf_append, hcandidates,
    findingsOf_append, hfindings, ← findingsOf_append]

end

end Campaign

/-! ### The report -/

/-- The warning on a file that states nothing. -/
def Warning.nothingStated (name : String) : Warning :=
  ⟨.invalidRecord, some name, "missing required field(s): id, new_cov, cov_incr, depth"⟩

/-- Whether a report is another one with a warning more, that a file states nothing. What was said on files
that cannot be read comes before it, with all that concerns single candidates with earlier names, and
all other warnings come behind it. -/
structure Report.GainsIncomplete (load : List Warning) (name : String) (report other : Report) : Prop
    extends report.SameFigures other where
  files : ∀ w ∈ load, w.kind = .recordParseError
  warnings : ∃ front back rest : List Warning,
    report.warnings = load ++ front ++ back ++ rest ∧
    other.warnings = load ++ front ++ .nothingStated name :: back ++ rest ∧
    (∀ w ∈ front, w.kind.isOfCandidate ∧
      ∃ earlier, w.source = some earlier ∧ Text.encode earlier < Text.encode name) ∧
    (∀ w ∈ back, w.kind.isOfCandidate ∧
      ∃ later, w.source = some later ∧ Text.encode name < Text.encode later) ∧
    ∀ w ∈ rest, ¬w.kind.isOfCandidate

/-- An incomplete candidate is no record. -/
theorem Validation.ordered_middle {d : Candidate} (h : d.record? = none) (front back : List Candidate) :
    ordered (front ++ d :: back) = ordered (front ++ back) := by
  rw [ordered, ordered, List.filterMap_append, List.filterMap_cons_none h, ← List.filterMap_append]

namespace Campaign

variable {fs fs' : FileSystem} {c : Campaign} {path name : String} {m : Location} {bytes : List UInt8}
  {front back : List (String × List UInt8)}

theorem not_isOfCandidate_of_isOfSeries {k : Warning.Kind} (h : k.isOfSeries) : ¬k.isOfCandidate := by
  cases k <;> first | exact Bool.false_ne_true | cases h

/-- What concerns single candidates names their files. -/
theorem candidate_of_forall {p : String → Prop} {files : List (String × List UInt8)}
    (h : ∀ f ∈ files, p f.1) :
    ∀ w ∈ (candidatesOf files).flatMap Candidate.ownWarnings,
      w.kind.isOfCandidate ∧ ∃ source, w.source = some source ∧ p source := by
  intro w hw
  obtain ⟨d, hd, hwd⟩ := List.mem_flatMap.mp hw
  obtain ⟨hsource, hkind⟩ := source_of_mem_ownWarnings hwd
  obtain ⟨f, hf, hdf, -⟩ := mem_candidatesOf.mp hd
  exact ⟨hkind, d.source, hsource, hdf ▸ h f hf⟩

/-- Among other candidates, one that states nothing leaves a report as it is but for a warning. -/
theorem reportOn_of_splitAt {location : String} {g : GlobalState} {files : List (String × List UInt8)}
    {load : List Warning} {r : Report} (hsplit : SplitAt name files front back)
    (hload : ∀ w ∈ load, w.kind = .recordParseError)
    (hr : reportOn location g ⟨candidatesOf front ++ candidatesOf back, load⟩ = .ok r) :
    ∃ r', reportOn location g ⟨candidatesOf front ++ ⟨name, .empty⟩ :: candidatesOf back, load⟩ = .ok r' ∧
      r.GainsIncomplete load name r' := by
  have hordered := Validation.ordered_middle (d := ⟨name, .empty⟩) rfl (candidatesOf front)
    (candidatesOf back)
  have hrecords : (validate (candidatesOf front ++ candidatesOf back)).records.map Record.essence
      = (validate (candidatesOf front ++ ⟨name, .empty⟩ :: candidatesOf back)).records.map
        Record.essence := by
    simp only [validate, hordered]
  rcases reportOn_of_essence_eq hrecords (by rw [hordered]) location g load with
    ⟨failure, hfail, -⟩ | ⟨report, r', hreport, hr', hsame⟩
  · cases hfail.symm.trans hr
  · obtain rfl := Except.ok.inj (hreport.symm.trans hr)
    obtain ⟨links, series, hwarnings, hwarnings', hlinks, hseries⟩ := hsame.warnings
    refine ⟨r', hr', hsame.toSameFigures, hload, _, _, links ++ series, ?_, ?_,
      candidate_of_forall hsplit.encode_earlier, candidate_of_forall hsplit.encode_later, ?_⟩
    · rw [hwarnings, List.flatMap_append]
      simp only [List.append_assoc]
    · rw [hwarnings', List.flatMap_append, List.flatMap_cons]
      simp only [List.append_assoc]
      rfl
    · intro w hw
      rcases List.mem_append.mp hw with hw | hw
      · rw [hlinks w hw]
        exact Bool.false_ne_true
      · exact not_isOfCandidate_of_isOfSeries (hseries w hw)

theorem kind_of_mem_findingsOf {files : List (String × List UInt8)} {w : Warning}
    (hw : w ∈ (findingsOf files).map Finding.warning) : w.kind = .recordParseError := by
  obtain ⟨finding, hfinding, rfl⟩ := List.mem_map.mp hw
  obtain ⟨f, -, fault, -, rfl⟩ := mem_findingsOf.mp hfinding
  rfl

/-- The text of a report states nothing of a seed. -/
theorem parse_of_report {root : String} {places : Places} {r : Report}
    (hr : Campaign.report fs root places = .ok r) (layout : Layout) :
    Metadata.parse (Text.encode (r.text layout)) = .ok .empty := by
  obtain ⟨c, g, -, -, hreport⟩ := report_eq_ok_iff.mp hr
  obtain ⟨-, rfl⟩ := reportOn_eq_ok_iff.mp hreport
  exact Report.parse_metadata _ _ _ layout

/-- With a new record file that states nothing there is a report with one more warning, and the bytes of
that file make no difference. -/
theorem exists_report_of_saved {root : String} {places : Places} {r : Report}
    (hc : locate fs root places = .ok c) (h : c.MakesRecordFile fs path name m)
    (hr : Campaign.report fs root places = .ok r) :
    ∃ r', r.GainsIncomplete (c.candidates fs).warnings name r' ∧
      ∀ fs' bytes, CommandLine.Saved fs fs' path bytes → Metadata.parse bytes = .ok .empty →
        Campaign.report fs' root places = .ok r' := by
  obtain ⟨n, hfind, hn⟩ := h.metadata
  obtain ⟨front, back, hsplit⟩ := exists_splitAt hfind hn h.absent
  rw [report_of_locate hc] at hr
  split at hr
  · cases hr
  · next g hg =>
    rw [candidates_of_splitAt h hsplit] at hr ⊢
    obtain ⟨r', hr', hgains⟩ := reportOn_of_splitAt hsplit (fun _ => kind_of_mem_findingsOf) hr
    refine ⟨r', hgains, fun fs' bytes hsaved hempty => ?_⟩
    have hkeeps := h.keeps hsaved
    rw [report_of_locate (locate_of_keeps hc hkeeps), globalState_of_keeps hg hkeeps,
      candidates_of_saved h hsaved hsplit hempty]
    exact hr'

end Campaign

namespace CommandLine

variable {fs fs' : FileSystem} {a : Arguments} {c : Config} {path name : String} {l : Location}

/-! ### The next run -/

theorem exists_find_of_load (h : Config.load fs path = .ok c) : ∃ k n, fs.find path = .ok (k, n) := by
  unfold Config.load FileSystem.readText FileSystem.read at h
  cases hfind : fs.find path with
  | error e => simp [hfind] at h
  | ok found => exact ⟨found.1, found.2, rfl⟩

theorem load_congr (h : fs'.find path = fs.find path) : Config.load fs' path = Config.load fs path := by
  rw [Config.load, Config.load, FileSystem.readText, FileSystem.readText, FileSystem.read,
    FileSystem.read, h]

theorem load_of_keeps (h : Config.load fs path = .ok c) (hkeeps : fs.Keeps fs') :
    Config.load fs' path = .ok c := by
  obtain ⟨k, n, hfind⟩ := exists_find_of_load h
  rw [load_congr ((hkeeps.find_of_found hfind).trans hfind.symm), h]

theorem pathExists_of_keeps (hkeeps : fs.Keeps fs') (h : fs.pathExists path) : fs'.pathExists path := by
  unfold FileSystem.pathExists at h
  split at h
  · next found hfind =>
    rw [FileSystem.pathExists, hkeeps.find_of_found hfind]
  · cases h

/-- A run that finds its configuration finds it again, unless there is a new one. -/
theorem config_of_keeps {configFile : Option String} (hc : config fs configFile = .ok c)
    (hkeeps : fs.Keeps fs')
    (husual : configFile = none → fs'.pathExists usualConfigFile → fs.pathExists usualConfigFile) :
    config fs' configFile = .ok c := by
  cases configFile with
  | some file => exact load_of_keeps hc hkeeps
  | none =>
    rw [config] at hc ⊢
    split at hc
    · next hexists =>
      rw [if_pos (pathExists_of_keeps hkeeps hexists)]
      exact load_of_keeps hc hkeeps
    · next hnone => rw [if_neg (mt (husual rfl) hnone), hc]

/-- A run that succeeds had a configuration and a report, and saved it. -/
theorem exists_of_status_eq_zero (h : (runArguments fs a).status = 0) :
    ∃ c r, config fs a.configFile = .ok c ∧ Campaign.report fs a.dataDirectory c.places = .ok r ∧
      (save fs (pathOf c a) (r.text (outputOf c a).layout)).2 = .ok () := by
  cases hc : config fs a.configFile with
  | error failure => cases (refused_of_config hc).status.symm.trans h
  | ok c =>
    cases hr : Campaign.report fs a.dataDirectory c.places with
    | error failure => cases (refused_of_report hc hr).status.symm.trans h
    | ok r =>
      cases hsave : (save fs (pathOf c a) (r.text (outputOf c a).layout)).2 with
      | error message =>
        rw [runArguments_eq_publish hc hr, publish_of_error hsave] at h
        cases h
      | ok => exact ⟨c, r, rfl, hr, hsave⟩

/-- Whether a run gets a report and publishes it. -/
structure Reports (fs : FileSystem) (a : Arguments) (c : Config) (r : Report) (out : Outcome) : Prop where
  report : Campaign.report fs a.dataDirectory c.places = .ok r
  published : Published fs r (outputOf c a).layout (pathOf c a) out

/-- A run that succeeds has a report, and its report can be saved again. -/
theorem reports_of_status_eq_zero (hc : config fs a.configFile = .ok c)
    (hstatus : (runArguments fs a).status = 0)
    (hdevice : fs.node? (fs.target (pathOf c a)) ≠ some .sink) :
    ∃ r l name, Reports fs a c r (runArguments fs a) ∧
      Ready (runArguments fs a).files (pathOf c a) l name := by
  obtain ⟨c', r, hc', hr, hsave⟩ := exists_of_status_eq_zero hstatus
  obtain rfl := Except.ok.inj (hc'.symm.trans hc)
  obtain ⟨l, name, -, hready⟩ := ready_of_save hdevice hsave
  have hpublished := published_of_save hdevice hsave
  rw [runArguments_eq_publish hc hr]
  refine ⟨r, l, name, ⟨hr, hpublished⟩, ?_⟩
  rw [publish_of_ok hsave]
  exact hready

/-- A run that is ready to save its report does so, and changes one file. -/
theorem run_of_ready {r : Report} (hc : config fs a.configFile = .ok c)
    (hr : Campaign.report fs a.dataDirectory c.places = .ok r) (h : Ready fs (pathOf c a) l name) :
    runArguments fs a = ⟨0, summaryText r ++ line ("Saved: " ++ pathOf c a), warningText r.warnings,
      fs.put (name :: l) (.file (Text.encode (r.text (outputOf c a).layout)))⟩ := by
  have hsave := h.save_eq (r.text (outputOf c a).layout)
  have hok : (save fs (pathOf c a) (r.text (outputOf c a).layout)).2 = .ok () := by rw [hsave]
  rw [runArguments_eq_publish hc hr, publish_of_ok hok, ← pathOf, hsave]

theorem reports_of_ready {r : Report} (hc : config fs a.configFile = .ok c)
    (hr : Campaign.report fs a.dataDirectory c.places = .ok r) (h : Ready fs (pathOf c a) l name) :
    Reports fs a c r (runArguments fs a) := by
  have hdevice : fs.node? (fs.target (pathOf c a)) ≠ some .sink := by
    obtain ⟨old, hold⟩ := h.file
    rw [h.writable.target_eq, hold]
    exact fun hsink => nomatch hsink
  have hsave : (save fs (pathOf c a) (r.text (outputOf c a).layout)).2 = .ok () := by rw [h.save_eq]
  rw [runArguments_eq_publish hc hr]
  exact ⟨hr, published_of_save hdevice hsave⟩

/-- A run whose report becomes a new record file succeeds again, with the same figures and one more warning,
and from then on every run does what the one before it did. This holds unless the run has brought about
something in the place of the usual configuration file. A report states nothing of a seed in either
layout, whatever it reports on. -/
theorem run_own_report {arguments : List String} {k : Campaign} {name : String} {m : Location}
    (ha : Arguments.parse arguments = .run a) (hc : config fs a.configFile = .ok c)
    (hk : Campaign.locate fs a.dataDirectory c.places = .ok k)
    (hstatus : (run fs arguments).status = 0)
    (hnew : k.MakesRecordFile fs (pathOf c a) name m)
    (husual : a.configFile = none → (run fs arguments).files.pathExists usualConfigFile →
      fs.pathExists usualConfigFile) :
    (∃ r r',
      let fs₁ := (run fs arguments).files
      let fs₂ := (run fs₁ arguments).files
      Reports fs a c r (run fs arguments) ∧ Reports fs₁ a c r' (run fs₁ arguments) ∧
        r.GainsIncomplete (k.candidates fs).warnings name r' ∧
        Reports fs₂ a c r' (run fs₂ arguments) ∧ run fs₂ arguments = run fs₁ arguments) ∧
    ∀ records g earlier layout, Seed.Metadata.parse
      (Text.encode ((Report.derived records g earlier).text layout)) = .ok .empty := by
  have hrun : ∀ fs', run fs' arguments = runArguments fs' a := fun fs' => by rw [run, ha]
  simp only [hrun] at hstatus husual ⊢
  refine ⟨?_, Report.parse_metadata⟩
  obtain ⟨r, l, x, hreports, hready⟩ := reports_of_status_eq_zero hc hstatus hnew.not_device
  obtain ⟨r', hgains, hagain⟩ := Campaign.exists_report_of_saved hk hnew hreports.report
  -- the second run
  have hsaved := hreports.published.files
  have hc₁ := config_of_keeps hc (hnew.keeps hsaved) husual
  have hr₁ := hagain _ _ hsaved (Campaign.parse_of_report hreports.report _)
  have hreports₁ := reports_of_ready hc₁ hr₁ hready
  have hrun₁ := run_of_ready hc₁ hr₁ hready
  -- the third run
  have hsaved₂ := hsaved.trans hreports₁.published.files
  have hready₂ := hready.put (Text.encode (r'.text (outputOf c a).layout))
  obtain ⟨old, hold⟩ := hready.file
  have hc₂ := config_of_keeps hc (hnew.keeps hsaved₂) fun hnone hexists => by
    rw [hrun₁, FileSystem.pathExists_put_file hold] at hexists
    exact husual hnone hexists
  have hr₂ := hagain _ _ hsaved₂ (Campaign.parse_of_report hr₁ _)
  rw [hrun₁] at hc₂ hr₂
  refine ⟨r, r', hreports, hreports₁, hgains, ?_, ?_⟩
  · rw [hrun₁]
    exact reports_of_ready hc₂ hr₂ hready₂
  · rw [hrun₁, run_of_ready hc₂ hr₂ hready₂, FileSystem.put_put]

/-- A campaign below the working directory, with one record between two files that state an id only and
before one that cannot be read. -/
def nested : FileSystem where
  nodes :=
    [(["camp"], .directory), (["metadata", "camp"], .directory), (["state", "camp"], .directory),
      (["global_state.json", "state", "camp"],
        .file (Text.encode "\x7b\"last_allocated_id\": 1, \"total_coverage\": 5\x7d")),
      (["a.json", "metadata", "camp"], .file (Text.encode "\x7b\"id\": 7\x7d")),
      (["c.json", "metadata", "camp"],
        .file (Text.encode "\x7b\"id\": 1, \"new_cov\": 5, \"cov_incr\": 5, \"depth\": 0\x7d")),
      (["d.json", "metadata", "camp"], .file (Text.encode "\x7b\"id\": 8\x7d")),
      (["e.json", "metadata", "camp"], .file (Text.encode "["))]
  working := []

/-- Arguments for a report among the records. -/
def inside : List String := ["-d", "camp", "-o", "metadata/b.json"]

theorem run_nested_own_report :
    (run nested inside).status = 0 ∧ ∃ r r',
      let fs₁ := (run nested inside).files
      let fs₂ := (run fs₁ inside).files
      Campaign.report nested "camp" Places.usual = .ok r ∧
        Campaign.report fs₁ "camp" Places.usual = .ok r' ∧
        r.warnings.map Warning.source = [some "e.json", some "a.json", some "d.json"] ∧
        r'.warnings.length = 4 ∧ r.SameFigures r' ∧
        Published fs₁ r' .pretty "camp/metadata/b.json" (run fs₁ inside) ∧
        run fs₂ inside = run fs₁ inside := by
  have hnew : Campaign.MakesRecordFile nested
      ⟨"camp", "camp/metadata", "camp/state/global_state.json", ".json"⟩ "camp/metadata/b.json" "b.json"
      ["metadata", "camp"] := ⟨⟨.directory, rfl, rfl⟩, rfl, rfl, by decide⟩
  obtain ⟨⟨r, r', hreports, hreports₁, hgains, -, hsame⟩, -⟩ :=
    @run_own_report nested ⟨"camp", none, some "metadata/b.json", false⟩ .usual inside _ _ _ rfl rfl rfl
      rfl hnew (fun _ hexists => by cases hexists)
  have hr := hreports.report
  have hsources : r.warnings.map Warning.source = [some "e.json", some "a.json", some "d.json"] := by
    obtain rfl := Except.ok.inj hr
    rfl
  refine ⟨rfl, r, r', hr, hreports₁.report, hsources, ?_, hgains.toSameFigures, hreports₁.published,
    hsame⟩
  obtain ⟨front, back, rest, hwarnings, hwarnings', -⟩ := hgains.warnings
  have hlength := congrArg List.length hsources
  simp only [hwarnings, hwarnings', List.length_map, List.length_append, List.length_cons,
    List.length_nil] at hlength ⊢
  omega

/-- Arguments for a report among the records that make a directory on the way, and what they ask for. -/
def detour : List String := ["-d", "camp", "-o", "../seedstat.toml/../camp/metadata/b.json"]

def detourArguments : Arguments := ⟨"camp", none, some "../seedstat.toml/../camp/metadata/b.json", false⟩

open Campaign (far farRoot lone longName)

/-- Arguments for a report among the records of the campaign far away, in a file with a long name. -/
def overlooked : List String := ["-d", farRoot, "-o", "/camp/metadata/id-0000000001.json"]

def overlookedArguments : Arguments := ⟨farRoot, none, some "/camp/metadata/id-0000000001.json", false⟩

theorem parse_overlooked : Arguments.parse overlooked = .run overlookedArguments := by
  have hvalue : Arguments.isValue farRoot := by simp [Arguments.isValue, farRoot]
  have hne : farRoot ≠ "" := by simp [farRoot]
  have hstep : Arguments.step .nothing "-d" = .await .nothing .dataDirectory := rfl
  have hset : Arguments.Given.nothing.setValue? .dataDirectory farRoot
      = some ⟨some farRoot, none, none, false⟩ := by
    rw [Arguments.Given.setValue?, if_neg (by simp [hne, Arguments.Given.value?, Arguments.Given.nothing])]
    rfl
  rw [Arguments.parse, overlooked, Arguments.read, if_neg (by decide), hstep]
  simp only [Arguments.read, hvalue, if_true, hset]
  rfl

/-- The report is a regular file among the records, and the next run does not see it. -/
theorem run_overlooked :
    pathOf .usual overlookedArguments = "/camp/metadata/id-0000000001.json" ∧
      ¬(run lone overlooked).files.pathExists usualConfigFile ∧
      ∃ r, Reports lone overlookedArguments .usual r (run lone overlooked) ∧
        Reports (run lone overlooked).files overlookedArguments .usual r
          (run (run lone overlooked).files overlooked) := by
  have hpath : pathOf .usual overlookedArguments = "/camp/metadata/id-0000000001.json" := by
    simp [pathOf, outputOf, withReportFile, overlookedArguments, reportPath, Path.join, Path.isAbsolute]
  have hsave : ∀ text, save lone "/camp/metadata/id-0000000001.json" text
      = (lone.put [longName, "metadata", "camp"] (.file (Text.encode text)), .ok ()) :=
    fun _ => rfl
  have hrun : ∀ fs, run fs overlooked = runArguments fs overlookedArguments := fun fs => by
    rw [run, parse_overlooked]
  have hc : config lone overlookedArguments.configFile = .ok .usual := rfl
  obtain ⟨r, hr⟩ := Campaign.exists_report_far lone rfl rfl rfl rfl rfl rfl
  have hok : (save lone (pathOf .usual overlookedArguments)
      (r.text (outputOf .usual overlookedArguments).layout)).2 = .ok () := by rw [hpath, hsave]
  have hfirst := (runArguments_eq_publish (a := overlookedArguments) hc hr).trans (publish_of_ok hok)
  have hfiles : (runArguments lone overlookedArguments).files
      = lone.put [longName, "metadata", "camp"]
        (.file (Text.encode (r.text (outputOf .usual overlookedArguments).layout))) := by
    rw [hfirst, ← pathOf, hpath, hsave]
  obtain ⟨r', l, name, hreports, hready⟩ := reports_of_status_eq_zero hc (by rw [hfirst]) (by
    rw [hpath]
    decide)
  have hr' : Campaign.report (runArguments lone overlookedArguments).files farRoot Places.usual
      = .ok r' := by
    rw [hfiles, Campaign.report_lone_put]
    exact hreports.report
  have hnone : ¬(runArguments lone overlookedArguments).files.pathExists usualConfigFile := by
    rw [hfiles]
    exact Bool.false_ne_true
  simp only [hrun]
  exact ⟨hpath, hnone, r', hreports, reports_of_ready (if_neg hnone) hr' hready⟩

/-- A run after one that made a directory on the way to its report takes it for its configuration file, and
fails. A run after one whose report has a name that is too long among the records does not see it. -/
theorem run_detour_refused_and_overlooked :
    (Arguments.parse detour = .run detourArguments ∧ config nested none = .ok .usual ∧
      Campaign.locate nested "camp" Places.usual
        = .ok ⟨"camp", "camp/metadata", "camp/state/global_state.json", ".json"⟩ ∧
      Campaign.MakesRecordFile nested
        ⟨"camp", "camp/metadata", "camp/state/global_state.json", ".json"⟩
        (pathOf .usual detourArguments) "b.json" ["metadata", "camp"] ∧
      (run nested detour).status = 0 ∧ (run (run nested detour).files detour).status = 1) ∧
    Arguments.parse overlooked = .run overlookedArguments ∧
      config lone none = .ok .usual ∧
      Campaign.locate lone farRoot Places.usual = .ok far ∧
      lone.find far.metadata = .ok (["metadata", "camp"], .directory) ∧
      lone.target (pathOf .usual overlookedArguments)
        = [longName, "metadata", "camp"] ∧
      lone.node? [longName, "metadata", "camp"] = none ∧
      isRecordName far.ending longName ∧
      ¬(run lone overlooked).files.pathExists usualConfigFile ∧
      ∃ r, Reports lone overlookedArguments .usual r (run lone overlooked) ∧
        Reports (run lone overlooked).files overlookedArguments .usual r
          (run (run lone overlooked).files overlooked) := by
  obtain ⟨hpath, hnone, hreports⟩ := run_overlooked
  obtain ⟨hfar, hmetadata⟩ := Campaign.find_far_lone
  refine ⟨⟨rfl, rfl, rfl, ⟨⟨.directory, rfl, rfl⟩, rfl, rfl, by decide⟩, rfl, rfl⟩,
    parse_overlooked, rfl, hfar, hmetadata, ?_, rfl, rfl, hnone, hreports⟩
  rw [hpath]
  rfl

end CommandLine

end FuzzCampaign
