import FuzzCampaign.Campaign
import FuzzCampaign.Report.Written
import FuzzCampaign.Toml.Document

/-!
The configuration: where a campaign's files lie, and where and how its report is written. It is read
from a TOML document with two sections. What a section does not set keeps its usual value, and keys
that nobody knows are refused. A section may also be an array of its values in order. What the TOML parser
says of a malformed document is left out: one short text stands for it.
-/

namespace FuzzCampaign

open Toml (Value)

/-- Where the report goes, and in which layout. -/
structure Output where
  reportFile : String
  layout : Layout
deriving DecidableEq, Repr

/-- The usual place and layout of a report. -/
def Output.usual : Output := ⟨"report.json", .pretty⟩

/-- Whether reports go to the same place in the same layout. -/
def Output.agree (o p : Output) : Bool := Path.isSame o.reportFile p.reportFile && o.layout == p.layout

/-- A configuration. -/
structure Config where
  places : Places
  output : Output
deriving DecidableEq, Repr

/-- The configuration that holds without a file. -/
def Config.usual : Config := ⟨.usual, .usual⟩

/-- Whether a configuration says nothing else than the usual one. -/
def Config.isUsual (c : Config) : Bool := c.places.agree .usual && c.output.agree .usual

namespace Config

/-- What is wrong with a configuration document. -/
inductive Fault where
  | malformed
  | unknownKey (key : String) (known : List String)
  | wrongType (found expected : String)
deriving DecidableEq, Repr

/-- Names of which one is expected. -/
def choice (names : List String) : String :=
  match names.map fun n => "`" ++ n ++ "`" with
  | [a, b] => a ++ " or " ++ b
  | names => "one of " ++ String.intercalate ", " names

/-- The message of a fault. A text that is no TOML document at all has one message here, which stands for
the parser's own account of where and how it goes wrong. -/
def Fault.message : Fault → String
  | malformed => "TOML syntax error"
  | unknownKey key known => "unknown field `" ++ key ++ "`, expected " ++ choice known
  | wrongType found expected => "invalid type: " ++ found ++ ", expected " ++ expected

/-- A path. -/
def readPath : Value → Except Fault String
  | .string text => .ok text
  | v => .error (.wrongType v.description "path string")

/-- A text. -/
def readText : Value → Except Fault String
  | .string text => .ok text
  | v => .error (.wrongType v.description "a string")

/-- Whether the report is laid out. -/
def readLayout : Value → Except Fault Layout
  | .boolean true => .ok .pretty
  | .boolean false => .ok .compact
  | v => .error (.wrongType v.description "a boolean")

/-- A section of a document: its name, its keys in order, and how a key's value is stored. -/
structure Section (σ : Type) where
  name : String
  usual : σ
  keys : List String
  store : σ → String → Value → Except Fault σ

namespace Section

variable {σ : Type}

/-- Stores a value under a key, which must be known. -/
def set (s : Section σ) (draft : σ) (entry : String × Value) : Except Fault σ :=
  if entry.1 ∈ s.keys then s.store draft entry.1 entry.2
  else .error (.unknownKey entry.1 s.keys)

/-- Reads a section. A date has the one key that dates have. -/
def read (s : Section σ) : Value → Except Fault σ
  | .table entries => entries.foldlM s.set s.usual
  | .array items => (s.keys.zip items).foldlM s.set s.usual
  | .datetime => .error (.unknownKey "$__toml_private_datetime" s.keys)
  | v => .error (.wrongType v.description ("struct " ++ s.name))

end Section

/-- The section on input. -/
def inputSection : Section Places where
  name := "InputConfig"
  usual := .usual
  keys := ["metadata-dir", "state-file", "record-extension"]
  store draft key v :=
    if key = "metadata-dir" then (readPath v).map fun p => { draft with metadata := p }
    else if key = "state-file" then (readPath v).map fun p => { draft with stateFile := p }
    else (readText v).map fun t => { draft with extension := t }

/-- The section on output. -/
def outputSection : Section Output where
  name := "OutputConfig"
  usual := .usual
  keys := ["report-file", "pretty"]
  store draft key v :=
    if key = "report-file" then (readPath v).map fun p => { draft with reportFile := p }
    else (readLayout v).map fun l => { draft with layout := l }

/-- Adds a section of the document. -/
def addSection (draft : Config) (entry : String × Value) : Except Fault Config :=
  if entry.1 = "input" then (inputSection.read entry.2).map fun p => { draft with places := p }
  else if entry.1 = "output" then
    (outputSection.read entry.2).map fun o => { draft with output := o }
  else .error (.unknownKey entry.1 ["input", "output"])

/-- The configuration of a document's tree. -/
def ofTree (entries : List (String × Value)) : Except Fault Config :=
  entries.foldlM addSection usual

/-- The configuration of a document. -/
def parse (text : String) : Except Fault Config :=
  match Toml.parse text with
  | none => .error .malformed
  | some entries => ofTree entries

/-- Reads a configuration file. -/
def load (fs : FileSystem) (path : String) : Except Failure Config :=
  match fs.readText path with
  | .error e =>
    .error (.config ("Failed to read config file at " ++ Text.quoted path ++ ": " ++ e.message))
  | .ok text =>
    match parse text with
    | .error fault =>
      .error (.config ("Failed to parse TOML from config file " ++ Text.quoted path ++ ": "
        ++ fault.message))
    | .ok config => .ok config

end Config

end FuzzCampaign
