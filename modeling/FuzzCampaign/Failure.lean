import FuzzCampaign.Text.Quoted

/-!
The reasons for which a campaign gets no report. Paths are quoted in the messages, so the part behind
a path cannot be taken for a piece of it.
-/

namespace FuzzCampaign

/-- Why there is no report. -/
inductive Failure where
  | directoryNotFound (path : String)
  | globalStateMissing (path reason : String)
  | noRecordsFound (path : String)
  | config (reason : String)
  | io (reason : String)
deriving DecidableEq, Repr

/-- The message of a failure. -/
def Failure.message : Failure → String
  | directoryNotFound path => "Campaign directory not found: " ++ Text.quoted path
  | globalStateMissing path reason =>
    "Global state unavailable at " ++ Text.quoted path ++ ": " ++ reason
  | noRecordsFound path => "No usable seed records found under " ++ Text.quoted path
  | config reason => "Configuration error: " ++ reason
  | io reason => "I/O error: " ++ reason

end FuzzCampaign
