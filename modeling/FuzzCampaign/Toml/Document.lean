import FuzzCampaign.Toml.Scalar
import FuzzCampaign.Toml.Tables

/-!
From the text of a TOML document to its tree. The text is a list of lines, each of them blank, a pair
of key and value, or a header; the lines then build up the tables in order. A key has fewer than
eighty parts, and values are nested less than eighty deep.
-/

namespace FuzzCampaign.Toml

/-- A character of a bare key. -/
def isBare (c : Char) : Bool := c.isAlphanum || c == '-' || c == '_'

/-- One part of a key. -/
def scanKeyPart (cs : List Char) : Option (String × List Char) :=
  match cs.takeWhile isBare with
  | [] => scanShortString cs
  | name => some (String.ofList name, cs.drop name.length)

/-- The parts of a key behind the first one. Each takes some characters. -/
def scanMoreParts : (bound : Nat) → Scanner (List String)
  | 0, cs => some ([], cs)
  | bound + 1, cs =>
    match skipBlanks cs with
    | '.' :: rest =>
      match scanKeyPart (skipBlanks rest) with
      | some (name, rest) => (scanMoreParts bound rest).map fun r => (name :: r.1, r.2)
      | none => none
    | rest => some ([], rest)

/-- The limit on the parts of a key and on the depth of a value. -/
def nestingLimit : Nat := 80

/-- A key as the path to it and its last part, with the blanks around it. -/
def scanKey (cs : List Char) : Option ((List String × String) × List Char) :=
  match scanKeyPart (skipBlanks cs) with
  | none => none
  | some (first, rest) =>
    match scanMoreParts rest.length rest with
    | none => none
    | some (more, rest) =>
      if more.length + 1 < nestingLimit then
        match more.getLast? with
        | none => some (([], first), rest)
        | some last => some ((first :: more.dropLast, last), rest)
      else none

/-- A pair of key and value, with a scanner for the value. -/
def scanPairWith (value : Scanner Value) (cs : List Char) :
    Option ((List String × String × Value) × List Char) :=
  match scanKey cs with
  | none => none
  | some ((path, key), rest) =>
    match expect '=' rest with
    | none => none
    | some rest => (value (skipBlanks rest)).map fun r => ((path, key, r.1), r.2)

/-- The elements of an array behind its bracket, and the bracket that closes it. A comma may stand
behind the last one. -/
def scanItems (item : Scanner Value) : (bound : Nat) → Scanner (List Value)
  | 0, _ => none
  | bound + 1, cs =>
    match skipLines cs with
    | ']' :: rest => some ([], rest)
    | cs =>
      match item cs with
      | none => none
      | some (v, rest) =>
        match skipLines rest with
        | ']' :: rest => some ([v], rest)
        | ',' :: rest => (scanItems item bound rest).map fun r => (v :: r.1, r.2)
        | _ => none

/-- The pairs of an inline table behind the first one, and the brace that closes it. -/
def scanMorePairs (value : Scanner Value) : (bound : Nat) → Entries → Scanner Entries
  | 0, _, _ => none
  | bound + 1, entries, cs =>
    match skipBlanks cs with
    | '\x7d' :: rest => some (entries, rest)
    | ',' :: rest =>
      match scanPairWith value rest with
      | none => none
      | some ((path, key, v), rest) =>
        match addPair path key v entries with
        | none => none
        | some entries => scanMorePairs value bound entries rest
    | _ => none

/-- An inline table behind its brace. No comma stands behind the last pair. -/
def scanInline (value : Scanner Value) (cs : List Char) : Option (Value × List Char) :=
  match skipBlanks cs with
  | '\x7d' :: rest => some (.table [], rest)
  | cs =>
    match scanPairWith value cs with
    | none => none
    | some ((path, key, v), rest) =>
      match addPair path key v [] with
      | none => none
      | some entries =>
        (scanMorePairs value (rest.length + 1) entries rest).map fun r =>
          (.table (finishEntries r.1), r.2)

/-- A value that is nested at most so deep. -/
def scanValue : (depth : Nat) → Scanner Value
  | 0, cs => scanScalar cs
  | depth + 1, cs =>
    match cs with
    | '[' :: rest =>
      (scanItems (scanValue depth) (rest.length + 1) rest).map fun r => (.array r.1, r.2)
    | '\x7b' :: rest => scanInline (scanValue depth) rest
    | cs => scanScalar cs

/-- What a line says. -/
inductive Statement where
  | pair (path : List String) (key : String) (value : Value)
  | header (path : List String) (key : String)
  | itemHeader (path : List String) (key : String)

/-- A header behind its bracket or brackets, up to the end of its line. -/
def scanHeader (close : List Char) (cs : List Char) :
    Option ((List String × String) × List Char) := do
  let (key, rest) ← scanKey cs
  let rest ← expectAll close rest
  let rest ← lineEnd? rest
  return (key, rest)

/-- A line that says something, with its end. -/
def scanStatement (cs : List Char) : Option (Statement × List Char) :=
  match cs with
  | '[' :: '[' :: rest =>
    (scanHeader [']', ']'] rest).map fun r => (.itemHeader r.1.1 r.1.2, r.2)
  | '[' :: rest => (scanHeader [']'] rest).map fun r => (.header r.1.1 r.1.2, r.2)
  | cs =>
    match scanPairWith (scanValue (nestingLimit - 1)) cs with
    | none => none
    | some ((path, key, v), rest) =>
      (lineEnd? rest).map fun rest => (.pair path key v, rest)

/-- The lines of a document that say something. Each takes some characters, so their number bounds
that of the lines. -/
def scanStatements : (bound : Nat) → List Char → Option (List Statement)
  | 0, cs => if skipBlanks cs = [] then some [] else none
  | bound + 1, cs =>
    match skipBlanks cs with
    | [] => some []
    | cs =>
      match lineEnd? cs with
      | some rest => scanStatements bound rest
      | none =>
        match scanStatement cs with
        | none => none
        | some (s, rest) => (scanStatements bound rest).map (s :: ·)

/-- The tables so far, and the path of the one that was opened last. -/
structure Building where
  root : Entries
  current : List String

/-- Adds what a line says. -/
def Building.add (b : Building) : Statement → Option Building
  | .pair path key value =>
    (changeAt .passed (fun _ inner => addPair path key value inner) b.current .opened b.root).map
      fun root => { b with root }
  | .header path key =>
    (openTable path key b.root).map fun root => ⟨root, path ++ [key]⟩
  | .itemHeader path key =>
    (openItem path key b.root).map fun root => ⟨root, path ++ [key]⟩

/-- The tree of a list of lines. -/
def buildTree (statements : List Statement) : Option (List (String × Value)) :=
  (statements.foldlM Building.add ⟨[], []⟩).map fun b => finishEntries b.root

/-- The tree of a document, of which the entries of the root are given. A byte order mark in front
is left out. -/
def parse (text : String) : Option (List (String × Value)) :=
  let cs := match text.toList with
    | '\ufeff' :: rest => rest
    | cs => cs
  (scanStatements cs.length cs).bind buildTree

end FuzzCampaign.Toml
