import FuzzCampaign.Number.Signed

/-!
Coverage is recorded in basis points, 10000 of which are all reachable blocks, and published in
percent. The conversion rounds twice: the count to a 53 bit number, and its hundredth part.
-/

namespace FuzzCampaign

/-- A share in percent. -/
abbrev Percent := Signed

/-- Full coverage in basis points. -/
def fullCoverage : Nat := 10000

/-- Basis points as a percentage. -/
def Percent.ofBasisPoints (bp : Nat) : Percent :=
  .ofMagnitude ((Binary64.ofNat bp).div (Binary64.ofNat 100))

end FuzzCampaign
