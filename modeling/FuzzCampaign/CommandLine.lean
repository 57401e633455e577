import FuzzCampaign.Arguments
import FuzzCampaign.Config

/-!
The command line: arguments and a file system in, an exit status, two texts and a file system out.
A run picks its configuration, reports on the campaign, shows the warnings and the totals, and only
then writes the report. A failure before that leaves the file system as it was. The second of the two texts
has the warnings and errors; the log lines that go to the same stream, each with its time, are left out.
-/

namespace FuzzCampaign.CommandLine

/-- What a run leaves behind. -/
structure Outcome where
  status : Nat
  output : String
  diagnostics : String
  files : FileSystem
deriving DecidableEq, Repr

/-- The configuration file that is used when no other one is named. -/
def usualConfigFile : String := "seedstat.toml"

/-- The configuration of a run: from the file named, else from the usual file if there is anything
of that name, else the usual one. -/
def config (fs : FileSystem) (configFile : Option String) : Except Failure Config :=
  match configFile with
  | some path => Config.load fs path
  | none =>
    if fs.pathExists usualConfigFile then Config.load fs usualConfigFile else .ok .usual

/-- The configuration with another report file, if one is named. -/
def withReportFile (c : Config) (reportFile : Option String) : Config :=
  match reportFile with
  | some path => { c with output := { c.output with reportFile := path } }
  | none => c

/-- The path of a report: a relative one lies below the data directory. -/
def reportPath (dataDirectory reportFile : String) : String := Path.join dataDirectory reportFile

/-- One line of text. -/
def line (text : String) : String := text ++ "\n"

/-- The numbers of warnings by kind. -/
def warningLines (ws : List Warning) : List String :=
  match Warning.counts ws with
  | [] => ["Warnings: none"]
  | counts =>
    ("Warnings: " ++ natText ws.length)
      :: counts.map fun c => "  " ++ c.1.name ++ ": " ++ natText c.2

/-- The totals of a report as they are shown. -/
def summaryLines (r : Report) : List String :=
  let s := r.summary
  ["Seeds: " ++ natText s.totalSeeds,
    "  initial: " ++ natText s.initialSeeds ++ ", mutated: " ++ natText s.mutatedSeeds
      ++ ", max depth: " ++ natText s.maxDepth,
    "Final coverage: " ++ s.finalCoverage.twoPlaces ++ "%",
    "Recorded coverage (global state): " ++ s.recordedCoverage.twoPlaces ++ "%",
    "Total bugs found: " ++ natText s.totalBugs]
    ++ warningLines r.warnings

/-- Lines as one text. -/
def unlines (lines : List String) : String := String.join (lines.map line)

/-- The text that shows the totals of a report. -/
def summaryText (r : Report) : String := unlines (summaryLines r)

/-- The text that shows warnings. -/
def warningText (ws : List Warning) : String := unlines (ws.map fun w => "Warning: " ++ w.text)

/-- The text that shows an error. -/
def errorText (message : String) : String := line ("Error: " ++ message)

/-- Makes the directory in which a file is to lie. A path without a parent needs none. -/
def prepare (fs : FileSystem) (path : String) : FileSystem × Except String Unit :=
  match Path.parent? path with
  | none => (fs, .ok ())
  | some parent =>
    if parent = "" then (fs, .ok ())
    else match fs.makeDirectories parent with
      | (fs, .ok ()) => (fs, .ok ())
      | (fs, .error e) =>
        (fs, .error ("Failed to create report directory " ++ Text.quoted parent ++ ": "
          ++ e.message))

/-- Writes a text to a path, with the directories that it needs. -/
def save (fs : FileSystem) (path text : String) : FileSystem × Except String Unit :=
  match prepare fs path with
  | (fs, .error message) => (fs, .error message)
  | (fs, .ok ()) =>
    match fs.write path (Text.encode text) with
    | .ok fs => (fs, .ok ())
    | .error e =>
      (fs, .error ("Failed to write report to " ++ Text.quoted path ++ ": " ++ e.message))

/-- Shows a report and writes it. -/
def publish (fs : FileSystem) (dataDirectory : String) (o : Output) (r : Report) : Outcome :=
  let path := reportPath dataDirectory o.reportFile
  match save fs path (r.text o.layout) with
  | (fs, .ok ()) =>
    ⟨0, summaryText r ++ line ("Saved: " ++ path), warningText r.warnings, fs⟩
  | (fs, .error message) => ⟨1, summaryText r, warningText r.warnings ++ errorText message, fs⟩

/-- A run with a configuration. -/
def runWith (fs : FileSystem) (dataDirectory : String) (c : Config) : Outcome :=
  match Campaign.report fs dataDirectory c.places with
  | .error failure => ⟨1, "", errorText failure.message, fs⟩
  | .ok r => publish fs dataDirectory c.output r

/-- A run with accepted arguments. -/
def runArguments (fs : FileSystem) (a : Arguments) : Outcome :=
  match config fs a.configFile with
  | .error failure => ⟨1, "", errorText failure.message, fs⟩
  | .ok c => runWith fs a.dataDirectory (withReportFile c a.output)

/-- The name and version of the program. -/
def versionText : String := line "seedstat_cli 0.1.0"

/-- How the program is used. -/
def usageText : String := line "Usage: seedstat [OPTIONS] --data-dir <DATA_DIR>"

/-- What the program does, how it is used, and its options. -/
def helpText : String :=
  unlines ["Summarise a finished fuzzing campaign into chartable series", ""] ++ usageText
    ++ unlines
      ["", "Options:",
        "  -d, --data-dir <DATA_DIR>        Campaign output directory (contains `metadata/` and `state/`)",
        "  -c, --config-file <CONFIG_FILE>  ",
        "  -o, --output <OUTPUT>            Report file; relative paths resolve against the data directory",
        "  -v, --verbose                    ",
        "  -h, --help                       Print help",
        "  -V, --version                    Print version"]

/-- A run of the program. -/
def run (fs : FileSystem) (arguments : List String) : Outcome :=
  match Arguments.parse arguments with
  | .misuse => ⟨2, "", usageText, fs⟩
  | .version => ⟨0, versionText, "", fs⟩
  | .help => ⟨0, helpText, "", fs⟩
  | .run a => runArguments fs a

end FuzzCampaign.CommandLine
