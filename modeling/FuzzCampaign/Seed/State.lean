/-!
The processing state that the engine recorded for a seed. Reading a state's name and writing it
again gives the name back, whatever it is.
-/

namespace FuzzCampaign.Seed

/-- How far the engine got with a seed. -/
inductive State where
  | pending
  | processed
  | crash
  | timeout
  | other (text : String)
deriving DecidableEq, Repr

namespace State

/-- Reads a state's name. -/
def ofText (text : String) : State :=
  if text = "PENDING" then pending
  else if text = "PROCESSED" then processed
  else if text = "CRASH" then crash
  else if text = "TIMEOUT" then timeout
  else other text

/-- The name of a state. -/
def text : State → String
  | pending => "PENDING"
  | processed => "PROCESSED"
  | crash => "CRASH"
  | timeout => "TIMEOUT"
  | other text => text

/-- The place of a state among the known ones; the others come last. -/
def rank : State → Nat
  | pending => 0
  | processed => 1
  | crash => 2
  | timeout => 3
  | other _ => 4

/-- Known states come in the order of their names' introduction, the others after them by their
text. -/
def precedes (a b : State) : Bool :=
  match a, b with
  | other s, other t => s ≤ t
  | _, _ => a.rank ≤ b.rank

@[simp] theorem text_ofText (text : String) : (ofText text).text = text := by
  unfold ofText
  repeat' split
  all_goals simp_all [State.text]

end State

end FuzzCampaign.Seed
