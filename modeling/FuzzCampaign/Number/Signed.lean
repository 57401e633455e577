import FuzzCampaign.Number.Notation

/-!
Numbers of 53 significant bits with a sign. Zero has a sign too, and it is written.
-/

namespace FuzzCampaign

/-- A magnitude with a sign. -/
structure Signed where
  isNegative : Bool
  magnitude : Binary64
deriving DecidableEq, Repr

namespace Signed

/-- The number that is not negative. -/
def ofMagnitude (x : Binary64) : Signed := ⟨false, x⟩

/-- The sign in front of a text of the magnitude. -/
def signText (x : Signed) : String := if x.isNegative then "-" else ""

/-- The text of a number in a report. -/
def reportText (x : Signed) : String := x.signText ++ x.magnitude.reportText

/-- The text of a number in a message about the configuration. -/
def plainText (x : Signed) : String := x.signText ++ x.magnitude.plainText

/-- The exact value with two places. -/
def twoPlaces (x : Signed) : String := x.signText ++ x.magnitude.twoPlaces

end Signed

end FuzzCampaign
