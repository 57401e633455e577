/-!
Warnings as a report lists them: a kind, the file concerned if there is one, and a text. They are
counted by kind in the order in which the kinds are declared.
-/

namespace FuzzCampaign

/-- What a warning is about. -/
inductive Warning.Kind where
  | recordParseError
  | invalidRecord
  | duplicateId
  | consistencyMismatch
  | coverageRegression
  | idBeyondAllocation
  | incrementMismatch
  | metadataDirMissing
deriving DecidableEq, Repr

namespace Warning.Kind

/-- All kinds, in the order in which they are counted. -/
def all : List Kind :=
  [recordParseError, invalidRecord, duplicateId, consistencyMismatch, coverageRegression,
    idBeyondAllocation, incrementMismatch, metadataDirMissing]

/-- The name of a kind. -/
def name : Kind → String
  | recordParseError => "RecordParseError"
  | invalidRecord => "InvalidRecord"
  | duplicateId => "DuplicateId"
  | consistencyMismatch => "ConsistencyMismatch"
  | coverageRegression => "CoverageRegression"
  | idBeyondAllocation => "IdBeyondAllocation"
  | incrementMismatch => "IncrementMismatch"
  | metadataDirMissing => "MetadataDirMissing"

theorem mem_all (k : Kind) : k ∈ all := by cases k <;> decide

end Warning.Kind

/-- A warning of a report. -/
structure Warning where
  kind : Warning.Kind
  source : Option String
  detail : String
deriving DecidableEq, Repr

namespace Warning

/-- A warning on one line. -/
def text (w : Warning) : String :=
  match w.source with
  | some source => "[" ++ w.kind.name ++ "] " ++ source ++ ": " ++ w.detail
  | none => "[" ++ w.kind.name ++ "] " ++ w.detail

/-- The kinds that occur, each with its number of warnings. -/
def counts (ws : List Warning) : List (Kind × Nat) :=
  Kind.all.filterMap fun k =>
    let n := ws.countP fun w => w.kind = k
    if n = 0 then none else some (k, n)

end Warning

end FuzzCampaign
