import FuzzCampaign.FileSystem
import FuzzCampaign.Seed.Format
import FuzzCampaign.Source

/-!
A campaign's directory as a source: the global state is one file, and each record is a file of its
own in the metadata directory, known by its name's ending. Record files are taken in the order of
their names. One that cannot be read as a record makes a warning and nothing else.
-/

namespace FuzzCampaign

open Seed

/-- Where a campaign's files lie, as paths below its root, and how record files' names end. -/
structure Places where
  metadata : String
  stateFile : String
  extension : String
deriving DecidableEq, Repr

/-- The usual places. -/
def Places.usual : Places := ⟨"metadata", "state/global_state.json", "json"⟩

/-- Whether places are the same, where paths may be written in different ways. -/
def Places.agree (p q : Places) : Bool :=
  Path.isSame p.metadata q.metadata && Path.isSame p.stateFile q.stateFile
    && p.extension == q.extension

/-- A campaign's directory, with the paths of what is in it. -/
structure Campaign where
  root : String
  metadata : String
  stateFile : String
  ending : String
deriving DecidableEq, Repr

/-- The ending of record files' names: one dot and the extension without dots in front. -/
def recordEnding (ext : String) : String :=
  String.ofList ('.' :: ext.toList.dropWhile (· = '.'))

/-- Whether a name is that of a record file: hidden names are not, and something stands in front of
the ending. -/
def isRecordName (ending name : String) : Bool :=
  name.toList.head? != some '.'
    && ending.toList.isSuffixOf name.toList
    && decide (ending.toList.length < name.toList.length)

namespace Campaign

/-- The campaign at a root, which must be a directory. -/
def locate (fs : FileSystem) (root : String) (places : Places) : Except Failure Campaign :=
  if fs.isDirectory root then
    .ok
      { root
        metadata := Path.join root places.metadata
        stateFile := Path.join root places.stateFile
        ending := recordEnding places.extension }
  else .error (.directoryNotFound root)

/-- Reads the global state. -/
def globalState (fs : FileSystem) (c : Campaign) : Except Failure GlobalState :=
  match fs.read c.stateFile with
  | .error e => .error (.globalStateMissing c.stateFile e.message)
  | .ok bytes =>
    match GlobalState.parse bytes with
    | .error fault =>
      .error (.globalStateMissing c.stateFile ("invalid JSON: " ++ fault.message bytes))
    | .ok g => .ok g

/-- The names of the record files, with their paths, by name. It is asked of the path whether there is a
regular file, so one whose path is too long to be followed is passed over. -/
def recordPaths (fs : FileSystem) (c : Campaign) : List (String × String) :=
  sortBy (fun a b => a.1 ≤ b.1)
    (((fs.names c.metadata).map fun name => (name, Path.join c.metadata name)).filter fun f =>
      fs.isFile f.2 && isRecordName c.ending f.1)

/-- What the bytes of a record file hold: a candidate, or a reason why it is passed over. -/
def parseRecord (name : String) (bytes : List UInt8) : Except Finding Candidate :=
  match Metadata.parse bytes with
  | .ok metadata => .ok ⟨name, metadata⟩
  | .error fault => .error (.unreadable name ("invalid record JSON: " ++ fault.message bytes))

/-- Reads a record file through its path. -/
def readRecord (fs : FileSystem) (name path : String) : Except Finding Candidate :=
  match fs.read path with
  | .ok bytes => parseRecord name bytes
  | .error e => .error (.unreadable name ("read failed: " ++ e.message))

/-- The candidates among what was read. -/
def candidatesIn (read : List (Except Finding Candidate)) : List Candidate :=
  read.filterMap Except.toOption

/-- The findings among what was read. -/
def findingsIn (read : List (Except Finding Candidate)) : List Finding :=
  read.filterMap fun r =>
    match r with
    | .ok _ => none
    | .error finding => some finding

/-- Reads the candidates. Without a metadata directory there are none, and a warning says so. -/
def candidates (fs : FileSystem) (c : Campaign) : Loaded :=
  if fs.isDirectory c.metadata then
    let read := (c.recordPaths fs).map fun f => readRecord fs f.1 f.2
    ⟨candidatesIn read, (findingsIn read).map Finding.warning⟩
  else ⟨[], [(Finding.noMetadata c.metadata).warning]⟩

/-- The campaign as a source. -/
def source (fs : FileSystem) (c : Campaign) : Source Id where
  location := c.root
  globalState := c.globalState fs
  candidates := .ok (c.candidates fs)

/-- Reports on the campaign at a root. -/
def report (fs : FileSystem) (root : String) (places : Places) : Except Failure Report :=
  match locate fs root places with
  | .error failure => .error failure
  | .ok c => (c.source fs).report

end Campaign

end FuzzCampaign
