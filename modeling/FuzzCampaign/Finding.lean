import FuzzCampaign.Number.Percent
import FuzzCampaign.Seed.Record
import FuzzCampaign.Text.Quoted
import FuzzCampaign.Warning

/-!
What can be found wrong with a campaign's files and records, with the numbers concerned. None of it
stops the analysis. Each finding becomes one warning, and all wording is here.
-/

namespace FuzzCampaign

open Seed

/-- The recorded shares of coverage that have a limit. -/
inductive Share where
  | newCoverage
  | increment
  | oldCoverage
deriving DecidableEq, Repr

/-- The name of a share in a metadata file. -/
def Share.name : Share → String
  | newCoverage => "new_cov"
  | increment => "cov_incr"
  | oldCoverage => "old_cov"

/-- One thing found. The source is the name of the file concerned. -/
inductive Finding where
  | unreadable (source reason : String)
  | incomplete (source : String) (missing : List RequiredField)
  | aboveFull (source : String) (id : Nat) (share : Share) (value : Nat)
  | incrementMismatch (source : String) (id increment difference : Nat)
  | superseded (source : String) (id : Nat) (winner : String)
  | regression (source : String) (earlierId earlierCoverage id coverage : Nat)
  | beyondAllocation (source : String) (id lastAllocated : Nat)
  | finalMismatch (id coverage totalCoverage : Nat)
  | noMetadata (path : String)
deriving DecidableEq, Repr

namespace Finding

/-- The kind of warning that a finding makes. -/
def kind : Finding → Warning.Kind
  | unreadable .. => .recordParseError
  | incomplete .. => .invalidRecord
  | aboveFull .. => .invalidRecord
  | incrementMismatch .. => .incrementMismatch
  | superseded .. => .duplicateId
  | regression .. => .coverageRegression
  | beyondAllocation .. => .idBeyondAllocation
  | finalMismatch .. => .consistencyMismatch
  | noMetadata .. => .metadataDirMissing

/-- The file that a finding concerns. -/
def source? : Finding → Option String
  | unreadable source _ => some source
  | incomplete source _ => some source
  | aboveFull source _ _ _ => some source
  | incrementMismatch source _ _ _ => some source
  | superseded source _ _ => some source
  | regression source _ _ _ _ => some source
  | beyondAllocation source _ _ => some source
  | finalMismatch .. => none
  | noMetadata _ => none

/-- A coverage in basis points and, in parentheses, in percent. -/
def coverageText (bp : Nat) : String :=
  natText bp ++ " bp (" ++ (Percent.ofBasisPoints bp).twoPlaces ++ "%)"

/-- What a finding says. -/
def detail : Finding → String
  | unreadable _ reason => reason
  | incomplete _ missing =>
    "missing required field(s): " ++ String.intercalate ", " (missing.map RequiredField.name)
  | aboveFull _ id share value =>
    "id " ++ natText id ++ ": " ++ share.name ++ " = " ++ natText value ++ " exceeds "
      ++ natText fullCoverage ++ " basis points"
  | incrementMismatch _ id increment difference =>
    "id " ++ natText id ++ ": cov_incr = " ++ natText increment
      ++ " but new_cov - old_cov = " ++ natText difference
  | superseded _ id winner => "id " ++ natText id ++ " superseded by " ++ winner
  | regression _ earlierId earlierCoverage id coverage =>
    "coverage fell from " ++ natText earlierCoverage ++ " bp at id " ++ natText earlierId
      ++ " to " ++ natText coverage ++ " bp at id " ++ natText id
  | beyondAllocation _ id lastAllocated =>
    "id " ++ natText id ++ " exceeds last_allocated_id " ++ natText lastAllocated
  | finalMismatch id coverage totalCoverage =>
    "final seed coverage " ++ coverageText coverage ++ " at id " ++ natText id
      ++ " differs from global state total_coverage " ++ coverageText totalCoverage
  | noMetadata path => "metadata directory not found: " ++ Text.quoted path

/-- The warning that a finding makes. -/
def warning (f : Finding) : Warning := ⟨f.kind, f.source?, f.detail⟩

end Finding

end FuzzCampaign
