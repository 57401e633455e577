import FuzzCampaign.Number.Shortest

/-!
How numbers are written. Report numbers use the shortest digits, positionally while the value is
below `10 ^ 16` and not below `10 ^ -5`, and otherwise with an exponent that always has a sign.
Configuration numbers are always positional. Percentages in messages have two places, and a tie goes
to the even neighbour.
-/

namespace FuzzCampaign

/-- A whole number in decimal digits. -/
def natText (n : Nat) : String := String.ofList (Nat.toDigits 10 n)

namespace Decimal

/-- The digits of the coefficient. -/
def digits (d : Decimal) : List Char := Nat.toDigits 10 d.coefficient

/-- How far the point stands behind the first digit's left. -/
def pointAt (d : Decimal) : Int := d.digits.length + d.exponent

/-- Digits around a point, with zeros where the digits do not reach. -/
def positional (d : Decimal) : String :=
  let ds := d.digits
  let k := d.pointAt
  if k ≤ 0 then String.ofList ('0' :: '.' :: (List.replicate (-k).toNat '0' ++ ds))
  else if ds.length ≤ k.toNat then
    String.ofList (ds ++ List.replicate (k.toNat - ds.length) '0' ++ ['.', '0'])
  else String.ofList (ds.take k.toNat ++ '.' :: ds.drop k.toNat)

/-- One digit before the point, the others behind it, and a signed exponent. -/
def scientific (d : Decimal) : String :=
  let x := d.pointAt - 1
  let mantissa := match d.digits with
    | [] => ['0']
    | [c] => [c]
    | c :: cs => c :: '.' :: cs
  String.ofList (mantissa ++ 'e' :: (if x < 0 then '-' else '+') :: Nat.toDigits 10 x.natAbs)

end Decimal

namespace Binary64

/-- The text of a number in a report. -/
def reportText (x : Binary64) : String :=
  if x.isZero then "0.0"
  else
    let d := x.shortest .toEven
    if -5 < d.pointAt ∧ d.pointAt ≤ 16 then d.positional else d.scientific

/-- The text of a number in a message about the configuration. -/
def plainText (x : Binary64) : String :=
  if x.isZero then "0.0" else (x.shortest .upward).positional

/-- Hundredths of the exact value, rounded to the nearest. -/
def hundredths (x : Binary64) : Nat := roundHalfEven (x.ratio.1 * 100) x.ratio.2

/-- The exact value with two places. -/
def twoPlaces (x : Binary64) : String :=
  let h := x.hundredths
  natText (h / 100) ++ "." ++ natText (h % 100 / 10) ++ natText (h % 10)

end Binary64

end FuzzCampaign
