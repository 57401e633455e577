import FuzzCampaign.Toml.Value

/-!
Tables in the making. A table is opened by a header, or comes about because a header or a dotted key
leads through it, and that decides what may still be added: a header may open a table once that
headers only led through, and dotted keys may extend only what dotted keys made. A value is final.
A table that is opened after it came about moves to the end of its parent's keys.
-/

namespace FuzzCampaign.Toml

/-- How a table came about. -/
inductive Origin where
  | opened
  | passed
  | dotted
deriving DecidableEq, Repr

/-- A node in the making: a value, a table, or an array of tables, of which the last is extended. -/
inductive Draft where
  | value (value : Value)
  | table (origin : Origin) (entries : List (String × Draft))
  | tables (items : List (List (String × Draft)))

/-- The entries of a table in the making. -/
abbrev Entries := List (String × Draft)

/-- The entries with another node for a key that is there. -/
def replaceEntry (key : String) (node : Draft) (entries : Entries) : Entries :=
  entries.map fun e => if e.1 = key then (key, node) else e

/-- Changes the table at the end of a path. A table that is missing on the way comes about in the
manner given; dotted keys do not lead through a table that was opened. -/
def changeAt (origin : Origin) (change : Origin → Entries → Option Entries) :
    (path : List String) → (here : Origin) → Entries → Option Entries
  | [], here, entries => change here entries
  | key :: path, _, entries =>
    match entries.lookup key with
    | none =>
      (changeAt origin change path origin []).map fun inner =>
        entries ++ [(key, .table origin inner)]
    | some (.value _) => none
    | some (.table o inner) =>
      if origin = .dotted ∧ o = .opened then none
      else (changeAt origin change path o inner).map fun inner =>
        replaceEntry key (.table o inner) entries
    | some (.tables items) =>
      match items.getLast? with
      | none => none
      | some last =>
        (changeAt origin change path .opened last).map fun last =>
          replaceEntry key (.tables (items.dropLast ++ [last])) entries

/-- Adds a key that is not there yet. -/
def addEntry (key : String) (value : Value) (entries : Entries) : Option Entries :=
  if (entries.lookup key).isSome then none else some (entries ++ [(key, .value value)])

/-- Adds a value below some entries. A dotted path must end in a table that dotted keys made. -/
def addPair (path : List String) (key : String) (value : Value) (entries : Entries) :
    Option Entries :=
  match path with
  | [] => addEntry key value entries
  | _ :: _ =>
    changeAt .dotted (fun o inner => if o = .dotted then addEntry key value inner else none)
      path .opened entries

/-- Opens a table by a header. -/
def openTable (path : List String) (key : String) (entries : Entries) : Option Entries :=
  changeAt .passed
    (fun _ inner =>
      match inner.lookup key with
      | none => some (inner ++ [(key, .table .opened [])])
      | some (.table .passed kept) =>
        some (inner.filter (·.1 ≠ key) ++ [(key, .table .opened kept)])
      | some _ => none)
    path .opened entries

/-- Opens one more table of an array by a header. -/
def openItem (path : List String) (key : String) (entries : Entries) : Option Entries :=
  changeAt .passed
    (fun _ inner =>
      match inner.lookup key with
      | none => some (inner ++ [(key, .tables [[]])])
      | some (.tables items) => some (replaceEntry key (.tables (items ++ [[]])) inner)
      | some _ => none)
    path .opened entries

mutual

/-- A finished node. -/
def Draft.finish : Draft → Value
  | .value v => v
  | .table _ entries => .table (finishEntries entries)
  | .tables items => .array (finishItems items)

/-- Finished entries. -/
def finishEntries : List (String × Draft) → List (String × Value)
  | [] => []
  | (key, node) :: rest => (key, node.finish) :: finishEntries rest

/-- Finished tables of an array. -/
def finishItems : List (List (String × Draft)) → List Value
  | [] => []
  | entries :: rest => .table (finishEntries entries) :: finishItems rest

end

end FuzzCampaign.Toml
