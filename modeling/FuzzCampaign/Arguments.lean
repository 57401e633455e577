/-!
The arguments of the command line. They are read from left to right, and the first one that is out of
place, or asks for the version or for help, decides. Options take a value, flags take none, and
neither may be given twice. Short ones may be bundled behind one dash.
-/

namespace FuzzCampaign

/-- Accepted arguments of a run. -/
structure Arguments where
  dataDirectory : String
  configFile : Option String
  output : Option String
  verbose : Bool
deriving DecidableEq, Repr

/-- What the arguments ask for. -/
inductive Request where
  | run (arguments : Arguments)
  | version
  | help
  | misuse
deriving DecidableEq, Repr

namespace Arguments

/-- An option, which takes a value. -/
inductive Valued where
  | dataDirectory
  | configFile
  | output
deriving DecidableEq, Repr

/-- What an argument name stands for. -/
inductive Name where
  | valued (option : Valued)
  | verbose
  | version
  | help
deriving DecidableEq, Repr

/-- The long names. -/
def longName? (name : String) : Option Name :=
  if name = "data-dir" then some (.valued .dataDirectory)
  else if name = "config-file" then some (.valued .configFile)
  else if name = "output" then some (.valued .output)
  else if name = "verbose" then some .verbose
  else if name = "version" then some .version
  else if name = "help" then some .help
  else none

/-- The short names. -/
def shortName? (letter : Char) : Option Name :=
  if letter = 'd' then some (.valued .dataDirectory)
  else if letter = 'c' then some (.valued .configFile)
  else if letter = 'o' then some (.valued .output)
  else if letter = 'v' then some .verbose
  else if letter = 'V' then some .version
  else if letter = 'h' then some .help
  else none

/-- What was given so far. -/
structure Given where
  dataDirectory : Option String
  configFile : Option String
  output : Option String
  verbose : Bool
deriving DecidableEq, Repr

namespace Given

/-- Nothing was given. -/
def nothing : Given := ⟨none, none, none, false⟩

/-- What was given for an option. -/
def value? (g : Given) : Valued → Option String
  | .dataDirectory => g.dataDirectory
  | .configFile => g.configFile
  | .output => g.output

/-- Gives an option its value, which may be neither empty nor the second one. -/
def setValue? (g : Given) (option : Valued) (value : String) : Option Given :=
  if value = "" ∨ (g.value? option).isSome then none
  else match option with
    | .dataDirectory => some { g with dataDirectory := some value }
    | .configFile => some { g with configFile := some value }
    | .output => some { g with output := some value }

/-- Gives the flag, once. -/
def setVerbose? (g : Given) : Option Given :=
  if g.verbose then none else some { g with verbose := true }

/-- The request of arguments that are all in place. -/
def request (g : Given) : Request :=
  match g.dataDirectory with
  | none => .misuse
  | some dataDirectory => .run ⟨dataDirectory, g.configFile, g.output, g.verbose⟩

end Given

/-- Whether an argument can be the value of the option before it: it starts with no dash, or is one. -/
def isValue (argument : String) : Bool :=
  argument == "-" || argument.toList.head? != some '-'

/-- What one argument does: reading goes on, or goes on with the next argument as a value, or the
request is decided. -/
inductive Step where
  | go (given : Given)
  | await (given : Given) (option : Valued)
  | decided (request : Request)
deriving DecidableEq, Repr

/-- Goes on unless an argument was out of place. -/
def Step.ofOption : Option Given → Step
  | some g => .go g
  | none => .decided .misuse

/-- A long name and the value attached to it. -/
def splitAttached (name : List Char) : List Char × Option (List Char) :=
  match name.dropWhile (· ≠ '=') with
  | [] => (name, none)
  | _ :: value => (name.takeWhile (· ≠ '='), some value)

/-- A long argument, behind its dashes. -/
def stepLong (g : Given) (argument : List Char) : Step :=
  let (name, attached) := splitAttached argument
  match longName? (String.ofList name), attached with
  | some (.valued option), some value => .ofOption (g.setValue? option (String.ofList value))
  | some (.valued option), none => .await g option
  | some .verbose, none => .ofOption g.setVerbose?
  | some .version, none => .decided .version
  | some .help, none => .decided .help
  | _, _ => .decided .misuse

/-- A value that is attached to a short name, without the sign between them. -/
def attachedValue (rest : List Char) : String :=
  match rest with
  | '=' :: value => String.ofList value
  | value => String.ofList value

/-- A bundle of short arguments, behind its dash. -/
def stepShort (g : Given) : List Char → Step
  | [] => .go g
  | letter :: rest =>
    match shortName? letter with
    | some (.valued option) =>
      if rest = [] then .await g option
      else .ofOption (g.setValue? option (attachedValue rest))
    | some .verbose =>
      match g.setVerbose? with
      | some g => stepShort g rest
      | none => .decided .misuse
    | some .version => .decided .version
    | some .help => .decided .help
    | none => .decided .misuse

/-- One argument that is no option's value. -/
def step (g : Given) (argument : String) : Step :=
  match argument.toList with
  | '-' :: '-' :: name => stepLong g name
  | '-' :: letter :: rest => stepShort g (letter :: rest)
  | _ => .decided .misuse

/-- Reads arguments. Behind two dashes alone nothing may follow. -/
def read (g : Given) : (awaiting : Option Valued) → List String → Request
  | some _, [] => .misuse
  | none, [] => g.request
  | some option, argument :: rest =>
    if isValue argument then
      match g.setValue? option argument with
      | some g => read g none rest
      | none => .misuse
    else .misuse
  | none, argument :: rest =>
    if argument = "--" then if rest = [] then g.request else .misuse
    else match step g argument with
      | .go g => read g none rest
      | .await g option => read g (some option) rest
      | .decided request => request

/-- What a list of arguments asks for. -/
def parse (arguments : List String) : Request := read .nothing none arguments

end Arguments

end FuzzCampaign
