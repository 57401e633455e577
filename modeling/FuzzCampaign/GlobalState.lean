/-!
What the engine says about the campaign as a whole, apart from the seeds' own files. It is compared
with the records and never corrects them.
-/

namespace FuzzCampaign

/-- How many seeds wait, and how many were handled. -/
structure QueueStats where
  poolSize : Nat
  processed : Nat
deriving DecidableEq, Repr

/-- The engine's account of the campaign; the total coverage is in basis points. -/
structure GlobalState where
  lastAllocated : Nat
  totalCoverage : Nat
  current : Option Nat
  queue : Option QueueStats
deriving DecidableEq, Repr

end FuzzCampaign
