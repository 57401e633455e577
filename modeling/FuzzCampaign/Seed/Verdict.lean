/-!
The outcome that a campaign's bug detection gave a seed. Verdict names are compared as they are: a
name in other letters is a verdict of its own and no bug.
-/

namespace FuzzCampaign.Seed

/-- What bug detection said about a seed; `unknown` if it said nothing. -/
inductive Verdict where
  | bug
  | normal
  | skipped
  | unknown
  | other (text : String)
deriving DecidableEq, Repr

namespace Verdict

/-- Reads a verdict name. -/
def ofText (text : String) : Verdict :=
  if text = "BUG" then bug
  else if text = "NORMAL" then normal
  else if text = "SKIPPED" then skipped
  else if text = "" then unknown
  else other text

/-- Only the verdict `bug` counts as one. -/
def isBug : Verdict → Bool
  | bug => true
  | _ => false

theorem ofText_eq_bug_iff {text : String} : ofText text = bug ↔ text = "BUG" := by
  unfold ofText
  repeat' split
  all_goals simp_all

end Verdict

end FuzzCampaign.Seed
