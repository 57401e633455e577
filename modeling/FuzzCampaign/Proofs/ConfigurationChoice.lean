import FuzzCampaign.Proofs.FileContents
import FuzzCampaign.Proofs.Repetition

/-!
Which configuration a run goes by, and where its report goes. One configuration file is chosen before
anything in it is looked at: the one that is named, else whatever has the usual name in the working
directory, else none. If the chosen one is no configuration the run fails, and no other one is tried. The
option for the report file replaces one entry of the configuration and nothing else. Main statement: a
run goes by the chosen configuration or fails with its fault; a report file named by the option does all
that the same one in a configuration would do; and a relative one lies below the data directory, an
absolute one where it says, wherever it was named.
-/

namespace FuzzCampaign

namespace FileSystem

/-! ### Paths below others -/

theorem target_of_isAbsolute (fs : FileSystem) {path : String} (h : Path.isAbsolute path) :
    fs.target path = (Path.pieces path).foldl move [] := by
  rw [target, base, if_pos h]

/-- A relative path below a root leads on from where the root leads. -/
theorem target_join (fs : FileSystem) (root : String) {path : String} (h : ¬Path.isAbsolute path) :
    fs.target (Path.join root path) = (Path.pieces path).foldl move (fs.target root) := by
  by_cases hroot : root = ""
  · subst hroot
    have hjoin : Path.join "" path = path := by
      rw [Path.join, if_neg h, if_pos (.inl rfl), String.empty_append]
    have hempty : fs.target "" = fs.working := rfl
    rw [hjoin, hempty, target, base, if_neg h]
  · obtain ⟨body, hpieces, hbody⟩ := Path.exists_pieces_join hroot h
    have hbase : fs.base (Path.join root path) = fs.base root := by
      rw [base, base, Path.isAbsolute_join hroot h]
    have htarget : fs.target root = body.foldl move (fs.base root) := by
      rcases hbody with hbody | hbody
      · rw [target, hbody]
      · rw [target, hbody, List.foldl_append]
        rfl
    rw [target, hbase, hpieces, List.foldl_append, htarget]

end FileSystem

namespace CommandLine

open FileSystem

/-! ### What a run does by its configuration -/

/-- Whether a run failed with something that is wrong with its configuration, and did nothing else. -/
structure RefusedConfig (fs : FileSystem) (reason : String) (out : Outcome) : Prop
    extends Refused fs out where
  diagnostics : out.diagnostics = "Error: Configuration error: " ++ reason ++ "\n"

/-- Whether a run goes by a configuration file: if it cannot be read or is no configuration, the run
fails and says so, and otherwise it is a run with this configuration. -/
structure GoesBy (fs : FileSystem) (a : Arguments) (path : String) (out : Outcome) : Prop where
  unread : ∀ e, fs.readText path = .error e →
    RefusedConfig fs ("Failed to read config file at " ++ Text.quoted path ++ ": " ++ e.message) out
  invalid : ∀ text fault, fs.readText path = .ok text → Config.parse text = .error fault →
    RefusedConfig fs ("Failed to parse TOML from config file " ++ Text.quoted path ++ ": "
      ++ fault.message) out
  valid : ∀ text c, fs.readText path = .ok text → Config.parse text = .ok c →
    out = runWith fs a.dataDirectory (withReportFile c a.output)

/-- Where a report file lies, and the path by which it is announced. -/
structure Lies (fs : FileSystem) (directory file path : String) (place : Location) : Prop where
  absolute : Path.isAbsolute file → path = file ∧ place = (Path.pieces file).foldl move []
  relative : ¬Path.isAbsolute file → (path = directory ++ file ∨ path = directory ++ "/" ++ file) ∧
    place = (Path.pieces file).foldl move (fs.target directory)

/-- Whether a run that succeeds announces its report and leaves it in a file, unless there is a device
in that place. -/
structure LeavesReport (fs : FileSystem) (directory : String) (c : Config) (path : String)
    (place : Location) (out : Outcome) : Prop where
  saved : out.status = 0 → ∃ r, Campaign.report fs directory c.places = .ok r ∧
    out.output = summaryText r ++ line ("Saved: " ++ path) ∧
    (fs.node? place ≠ some .sink →
      out.files.node? place = some (.file (Text.encode (r.text c.output.layout))))

/-- Whether arguments are others without the option for the report file, where another configuration
file may be named. -/
structure WithoutOutput (a a' : Arguments) : Prop where
  dataDirectory : a'.dataDirectory = a.dataDirectory
  output : a'.output = none

/-- Whether two runs end alike on file systems that differ in certain places only: with the same status
and texts, and with the same in all other places and in that of the report. -/
structure Alike (places : Location → Prop) (place : Location) (out out' : Outcome) : Prop where
  status : out'.status = out.status
  output : out'.output = out.output
  diagnostics : out'.diagnostics = out.diagnostics
  files : ∀ k, ¬places k → out'.files.node? k = out.files.node? k
  report : out.status = 0 → out'.files.node? place = out.files.node? place

/-- What a run does with its configuration and with the option for the report file. -/
structure Resolved (fs : FileSystem) (a : Arguments) (out : Outcome) : Prop where
  named : ∀ path, a.configFile = some path → GoesBy fs a path out
  usual : ∀ n, a.configFile = none →
    fs.find usualConfigFile = .ok (usualConfigFile :: fs.working, n) → GoesBy fs a usualConfigFile out
  absent : a.configFile = none →
    (∀ n, fs.find usualConfigFile ≠ .ok (usualConfigFile :: fs.working, n)) →
      out = runWith fs a.dataDirectory (withReportFile .usual a.output)
  placed : ∀ c, config fs a.configFile = .ok c →
    ∃ path place, Lies fs a.dataDirectory (a.output.getD c.output.reportFile) path place ∧
      LeavesReport fs a.dataDirectory c path place out
  replaced : ∀ file c arguments' a', a.output = some file → config fs a.configFile = .ok c →
    Arguments.parse arguments' = .run a' → WithoutOutput a a' →
    config fs a'.configFile = .ok { c with output := { c.output with reportFile := file } } →
      run fs arguments' = out
  elsewhere : ∀ file c arguments' a' fs' places, a.output = some file →
    config fs a.configFile = .ok c → Arguments.parse arguments' = .run a' → WithoutOutput a a' →
    SameBut places fs fs' →
    (∀ k, Campaign.locate fs a.dataDirectory c.places = .ok k → k.ReadsNoneOf fs places) →
    config fs' a'.configFile = .ok { c with output := { c.output with reportFile := file } } →
      Alike places (fs.target (reportPath a.dataDirectory file)) out (run fs' arguments')

variable {fs fs' : FileSystem} {a a' : Arguments} {c : Config}

/-! ### The choice -/

theorem refusedConfig_of_load {reason : String}
    (h : config fs a.configFile = .error (.config reason)) :
    RefusedConfig fs reason (runArguments fs a) := by
  refine ⟨refused_of_config h, ?_⟩
  rw [runArguments, h]
  rfl

/-- A run that loads a configuration file goes by it. -/
theorem goesBy_of_config {path : String} (h : config fs a.configFile = Config.load fs path) :
    GoesBy fs a path (runArguments fs a) := by
  rw [Config.load] at h
  refine ⟨fun e he => ?_, fun text fault htext hparse => ?_, fun text c htext hparse => ?_⟩
  · rw [he] at h
    exact refusedConfig_of_load h
  · simp only [htext, hparse] at h
    exact refusedConfig_of_load h
  · simp only [htext, hparse] at h
    rw [runArguments, h]

/-- What has the usual name lies in the working directory. -/
theorem pathExists_usual_iff : fs.pathExists usualConfigFile ↔
    ∃ n, fs.find usualConfigFile = .ok (usualConfigFile :: fs.working, n) := by
  rw [pathExists_iff]
  constructor
  · rintro ⟨k, n, hfind⟩
    obtain ⟨-, rfl, -⟩ := find_usualConfigFile_iff.mp hfind
    exact ⟨n, hfind⟩
  · rintro ⟨n, hfind⟩
    exact ⟨_, n, hfind⟩

/-! ### The place of the report -/

theorem lies_reportPath (fs : FileSystem) (directory file : String) :
    Lies fs directory file (reportPath directory file) (fs.target (reportPath directory file)) where
  absolute h := by
    have hpath : reportPath directory file = file := if_pos h
    rw [hpath]
    exact ⟨rfl, fs.target_of_isAbsolute h⟩
  relative h := by
    refine ⟨?_, fs.target_join directory h⟩
    rw [reportPath, Path.join, if_neg h]
    split
    · exact .inl rfl
    · exact .inr rfl

theorem reportFile_outputOf (c : Config) (a : Arguments) :
    (outputOf c a).reportFile = a.output.getD c.output.reportFile := by
  rw [outputOf]
  cases a.output <;> rfl

theorem layout_outputOf (c : Config) (a : Arguments) : (outputOf c a).layout = c.output.layout := by
  rw [outputOf]
  cases a.output <;> rfl

theorem leavesReport_runArguments (hc : config fs a.configFile = .ok c) :
    LeavesReport fs a.dataDirectory c (pathOf c a) (fs.target (pathOf c a)) (runArguments fs a) := by
  refine ⟨fun hstatus => ?_⟩
  obtain ⟨c', r, hc', hr, hsave⟩ := exists_of_status_eq_zero hstatus
  obtain rfl := Except.ok.inj (hc'.symm.trans hc)
  refine ⟨r, hr, ?_, fun hdevice => ?_⟩
  · rw [runArguments_eq_publish hc hr, publish_of_ok hsave]
    rfl
  · rw [runArguments_eq_publish hc hr, ← layout_outputOf c' a]
    exact (published_of_save hdevice hsave).files.node?_eq

/-! ### The option for the report file -/

/-- A run with the option is a run with the configuration that has its file. -/
theorem runArguments_of_output {file : String} (hfile : a.output = some file)
    (hc : config fs a.configFile = .ok c) :
    runArguments fs a
      = runWith fs a.dataDirectory { c with output := { c.output with reportFile := file } } := by
  rw [runArguments, hc, hfile]
  rfl

theorem runArguments_without (h : WithoutOutput a a') (hc : config fs a'.configFile = .ok c) :
    runArguments fs a' = runWith fs a.dataDirectory c := by
  rw [runArguments, hc, h.output, h.dataDirectory]
  rfl

theorem publish_alike {places : Location → Prop} (h : SameBut places fs fs') (directory : String)
    (o : Output) (r : Report) :
    Alike places (fs.target (reportPath directory o.reportFile)) (publish fs directory o r)
      (publish fs' directory o r) := by
  obtain ⟨hsame, hfiles, hreport⟩ :=
    save_sameBut h (reportPath directory o.reportFile) (r.text o.layout)
  cases hsave : (save fs (reportPath directory o.reportFile) (r.text o.layout)).2 with
  | error message =>
    rw [hsave] at hsame
    rw [publish_of_error hsave, publish_of_error hsame]
    -- the projections are taken first, since otherwise the texts are compared
    refine ⟨rfl, ?_, ?_, fun k hk => ?_, fun hstatus => ?_⟩
    · dsimp only
    · dsimp only
    · dsimp only
      exact hfiles.node?_eq hk
    · cases hstatus
  | ok =>
    rw [hsave] at hsame
    rw [publish_of_ok hsave, publish_of_ok hsame]
    refine ⟨rfl, ?_, ?_, fun k hk => ?_, fun _ => ?_⟩
    · dsimp only
    · dsimp only
    · dsimp only
      exact hfiles.node?_eq hk
    · dsimp only
      exact hreport hsave

/-- A run with a configuration depends on no contents of files that the campaign does not read. -/
theorem runWith_alike {places : Location → Prop} (h : SameBut places fs fs') (directory : String)
    (c : Config) (hreads : ∀ k, Campaign.locate fs directory c.places = .ok k →
      k.ReadsNoneOf fs places) :
    Alike places (fs.target (reportPath directory c.output.reportFile)) (runWith fs directory c)
      (runWith fs' directory c) := by
  rw [runWith, runWith, Campaign.report_of_sameBut h hreads]
  cases Campaign.report fs directory c.places with
  | error failure =>
    refine ⟨rfl, rfl, rfl, fun k hk => h.node?_eq hk, fun hstatus => ?_⟩
    cases hstatus
  | ok r => exact publish_alike h directory c.output r

/-- Accepted arguments decide by which configuration the run goes, whatever the campaign holds. A report
file that they name stands for one in the configuration in all that the run does, also when the
configuration is in a file with other contents, and it lies where the one in the configuration would. -/
theorem configuration_resolved {arguments : List String} (h : Arguments.parse arguments = .run a) :
    Resolved fs a (run fs arguments) := by
  have hrun : run fs arguments = runArguments fs a := by rw [run, h]
  rw [hrun]
  constructor
  case named =>
    intro path hpath
    exact goesBy_of_config (by rw [hpath]; rfl)
  case usual =>
    intro n hnone hfind
    refine goesBy_of_config ?_
    rw [hnone, config, if_pos (pathExists_usual_iff.mpr ⟨n, hfind⟩)]
  case absent =>
    intro hnone hfind
    have hconfig : config fs a.configFile = .ok .usual := by
      rw [hnone, config, if_neg]
      intro hexists
      obtain ⟨n, hn⟩ := pathExists_usual_iff.mp hexists
      exact hfind n hn
    rw [runArguments, hconfig]
  case placed =>
    intro c hc
    refine ⟨pathOf c a, fs.target (pathOf c a), ?_, leavesReport_runArguments hc⟩
    rw [← reportFile_outputOf]
    exact lies_reportPath fs a.dataDirectory _
  case replaced =>
    intro file c arguments' a' hfile hc h' hwithout hc'
    rw [run, h']
    exact (runArguments_without hwithout hc').trans (runArguments_of_output hfile hc).symm
  case elsewhere =>
    intro file c arguments' a' fs' places hfile hc h' hwithout hsame hreads hc'
    have hrun' : run fs' arguments' = runArguments fs' a' := by rw [run, h']
    rw [hrun', runArguments_of_output hfile hc, runArguments_without hwithout hc']
    exact runWith_alike hsame a.dataDirectory
      { c with output := { c.output with reportFile := file } } hreads

theorem eq_ok_of_toOption {ε α : Type} {x : Except ε α} {v : α} (h : x.toOption = some v) :
    x = .ok v := by
  cases x with
  | error e => cases h
  | ok w => exact congrArg _ (Option.some.inj h)

/-- A campaign below the working directory, with a usual configuration file that is none and two files
that are. -/
def configured : FileSystem where
  nodes :=
    [(["camp"], .directory), (["metadata", "camp"], .directory), (["state", "camp"], .directory),
      (["global_state.json", "state", "camp"],
        .file (Text.encode "\x7b\"last_allocated_id\": 1, \"total_coverage\": 5\x7d")),
      (["c.json", "metadata", "camp"],
        .file (Text.encode "\x7b\"id\": 1, \"new_cov\": 5, \"cov_incr\": 5, \"depth\": 0\x7d")),
      (["seedstat.toml"], .file (Text.encode "output.pretty=1")),
      (["plain.toml"], .file (Text.encode "output.pretty=false")),
      (["full.toml"], .file (Text.encode "[output]\npretty=false\nreport-file='out/r.json'"))]
  working := []

/-- The same with other contents in the first of these two. -/
def reconfigured : FileSystem :=
  configured.put ["plain.toml"] (.file (Text.encode "output=['out/r.json',false]"))

theorem sameBut_reconfigured : SameBut (· = ["plain.toml"]) configured reconfigured where
  working := rfl
  node?_cases k := by
    by_cases hk : k = ["plain.toml"]
    · subst hk
      exact .inr ⟨rfl, _, _, rfl, node?_put_self _ (by decide) _⟩
    · exact .inl (node?_put_of_ne _ _ hk)

theorem readsNoneOf_configured {k : Campaign}
    (hk : Campaign.locate configured "camp" Places.usual = .ok k) :
    k.ReadsNoneOf configured (· = ["plain.toml"]) := by
  obtain rfl : (⟨"camp", "camp/metadata", "camp/state/global_state.json", ".json"⟩ : Campaign) = k :=
    Except.ok.inj hk
  constructor
  · intro l n h
    obtain rfl : ["global_state.json", "state", "camp"] = l := congrArg Prod.fst (Except.ok.inj h)
    decide
  · intro m n name h _
    obtain rfl : ["metadata", "camp"] = m := congrArg Prod.fst (Except.ok.inj h)
    simp

/-- Arguments that name a report file, and others for the same run with the two files. -/
def withOption : List String := ["-d", "camp", "-c", "plain.toml", "-o", "out/r.json"]

def withPlain : List String := ["-d", "camp", "-c", "plain.toml"]

def withFull : List String := ["-d", "camp", "-c", "full.toml"]

theorem run_configured_resolved :
    (run configured withOption).status = 0 ∧
      run configured withFull = run configured withOption ∧
      Alike (· = ["plain.toml"]) ["r.json", "out", "camp"] (run configured withOption)
        (run reconfigured withPlain) ∧
      ∃ reason, RefusedConfig configured reason (run configured ["-d", "camp"]) := by
  have hoption : Arguments.parse withOption
      = .run ⟨"camp", some "plain.toml", some "out/r.json", false⟩ := rfl
  have hplain : Arguments.parse withPlain = .run ⟨"camp", some "plain.toml", none, false⟩ := rfl
  have hfull : Arguments.parse withFull = .run ⟨"camp", some "full.toml", none, false⟩ := rfl
  have hbare : Arguments.parse ["-d", "camp"] = .run ⟨"camp", none, none, false⟩ := rfl
  have hc : config configured (some "plain.toml") = .ok ⟨.usual, ⟨"report.json", .compact⟩⟩ :=
    eq_ok_of_toOption (by decide +kernel)
  have hcfull : config configured (some "full.toml") = .ok ⟨.usual, ⟨"out/r.json", .compact⟩⟩ :=
    eq_ok_of_toOption (by decide +kernel)
  have hcplain : config reconfigured (some "plain.toml") = .ok ⟨.usual, ⟨"out/r.json", .compact⟩⟩ :=
    eq_ok_of_toOption (by decide +kernel)
  have htext : configured.readText usualConfigFile = .ok "output.pretty=1" :=
    eq_ok_of_toOption (by decide +kernel)
  have hresolved := @configuration_resolved configured _ _ hoption
  have hrefused := @configuration_resolved configured _ _ hbare
  refine ⟨by decide +kernel, ?_, ?_, ?_⟩
  · exact hresolved.replaced _ _ _ _ rfl hc hfull ⟨rfl, rfl⟩ hcfull
  · exact hresolved.elsewhere _ _ _ _ _ _ rfl hc hplain ⟨rfl, rfl⟩ sameBut_reconfigured
      (fun _ => readsNoneOf_configured) hcplain
  · cases hparse : Config.parse "output.pretty=1" with
    | error fault => exact ⟨_, (hrefused.usual _ rfl rfl).invalid _ fault htext hparse⟩
    | ok c =>
      have hnone : (Config.parse "output.pretty=1").toOption = none := by decide +kernel
      rw [hparse] at hnone
      cases hnone

end CommandLine

end FuzzCampaign
