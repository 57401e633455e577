import FuzzCampaign.CommandLine

/-!
The program. It looks at the places that a run can ask about, runs on what it saw, shows the two
texts, and makes the directories and files that the run left new or changed.
-/

namespace FuzzCampaign.Program

/-- A location as an absolute path. -/
def pathOf (l : Location) : String := "/" ++ Path.ofPieces l.reverse

/-- The locations that a path leads through. -/
def trail (fs : FileSystem) (path : String) : List Location :=
  (Path.pieces path).foldl
    (fun seen piece => FileSystem.move (seen.headD []) piece :: seen) [fs.base path]

/-- Takes over what is at a location, if anything is. -/
def look (fs : FileSystem) (l : Location) : IO FileSystem := do
  try
    let found ← (← IO.FS.realPath (pathOf l)).metadata
    match found.type with
    | .dir => return fs.put l .directory
    | .file => return fs.put l (.file (← IO.FS.readBinFile (pathOf l)).toList)
    | _ => return fs.put l .sink
  catch _ => return fs

/-- Takes over all that a path leads through. -/
def lookAlong (fs : FileSystem) (path : String) : IO FileSystem :=
  (trail fs path).foldlM look fs

/-- Takes over the record files in a directory. -/
def lookInside (fs : FileSystem) (c : Campaign) : IO FileSystem := do
  match fs.find c.metadata with
  | .error _ => return fs
  | .ok (l, _) =>
    try
      let entries ← (← IO.FS.realPath (pathOf l)).readDir
      let names := entries.toList.map fun e => e.fileName
      (names.filter (isRecordName c.ending)).foldlM (fun fs name => look fs (name :: l)) fs
    catch _ => return fs

/-- Takes over the places that a run with a configuration asks about. -/
def lookForRun (fs : FileSystem) (dataDirectory : String) (c : Config) : IO FileSystem := do
  let fs ← lookAlong fs dataDirectory
  let fs ← lookAlong fs (CommandLine.reportPath dataDirectory c.output.reportFile)
  match Campaign.locate fs dataDirectory c.places with
  | .error _ => return fs
  | .ok campaign =>
    let fs ← lookAlong fs campaign.stateFile
    let fs ← lookAlong fs campaign.metadata
    lookInside fs campaign

/-- Takes over the places that accepted arguments ask about. -/
def lookForArguments (fs : FileSystem) (a : Arguments) : IO FileSystem := do
  let fs ← lookAlong fs (a.configFile.getD CommandLine.usualConfigFile)
  match CommandLine.config fs a.configFile with
  | .error _ => return fs
  | .ok c => lookForRun fs a.dataDirectory (CommandLine.withReportFile c a.output)

/-- The file system of the working directory, of which nothing was looked at yet. -/
def unseen : IO FileSystem := do
  let here := (← IO.currentDir).toString
  return { nodes := [], working := (Path.pieces here).foldl FileSystem.move [] }

/-- Makes a node that a run left new or changed. -/
def make (entry : Location × Node) : IO Unit :=
  match entry.2 with
  | .file bytes => IO.FS.writeBinFile (pathOf entry.1) ⟨bytes.toArray⟩
  | .directory => IO.FS.createDir (pathOf entry.1)
  | .sealedDirectory | .sink => return ()

/-- The nodes that are new or changed, those nearest to the root first. -/
def changes (before after : FileSystem) : List (Location × Node) :=
  sortBy (fun a b => a.1.length ≤ b.1.length)
    (after.nodes.filter fun e => before.node? e.1 ≠ some e.2)

/-- Runs the program and gives its exit status. -/
def run (arguments : List String) : IO UInt32 := do
  let before ← match FuzzCampaign.Arguments.parse arguments with
    | .run a => do lookForArguments (← unseen) a
    | _ => unseen
  let outcome := CommandLine.run before arguments
  IO.eprint outcome.diagnostics
  IO.print outcome.output
  (changes before outcome.files).forM make
  return UInt32.ofNat outcome.status

end FuzzCampaign.Program

def main (arguments : List String) : IO UInt32 := FuzzCampaign.Program.run arguments
