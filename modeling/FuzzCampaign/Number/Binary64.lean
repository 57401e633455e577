/-!
Numbers of 53 significant bits, without a sign. A value is a significand and an exponent of two, and
every operation is one exact quotient of naturals followed by one rounding to the nearest value,
where a tie goes to the even significand. Values below the normal range keep the least exponent;
above it the exponent is not bounded, and `overflows` tells which values no longer fit 64 bits.
-/

namespace FuzzCampaign

/-- The quotient rounded to the nearest natural; a tie goes to the even one. -/
def roundHalfEven (num den : Nat) : Nat :=
  let q := num / den
  let r := num % den
  if 2 * r < den then q
  else if den < 2 * r then q + 1
  else if q % 2 = 0 then q
  else q + 1

/-- The number `significand * 2 ^ exponent`. -/
structure Binary64 where
  significand : Nat
  exponent : Int
deriving DecidableEq, Repr

namespace Binary64

/-- The exponent of the smallest values. -/
def leastExponent : Int := -1074

/-- The exponent of the largest values. -/
def greatestExponent : Int := 971

/-- One more than the largest significand. -/
def significandBound : Nat := Nat.pow 2 53

/-- The quotient of `num` by `den * 2 ^ exponent`, as numerator and denominator. -/
def scaled (num den : Nat) (exponent : Int) : Nat × Nat :=
  (num * Nat.pow 2 (-exponent).toNat, den * Nat.pow 2 exponent.toNat)

/-- The least exponent, from `leastExponent` on, at which the quotient stays below the significand's
bound. Both logarithms err by less than one, so the estimate is right or one too small. -/
def exponentFor (num den : Nat) : Int :=
  let low := max ((Nat.log2 num : Int) - Nat.log2 den - 53) leastExponent
  let (n, d) := scaled num den low
  if n < d * significandBound then low else low + 1

/-- The value nearest to a quotient of naturals with a positive divisor. -/
def ofRatio (num den : Nat) : Binary64 :=
  let e := exponentFor num den
  let (n, d) := scaled num den e
  let m := roundHalfEven n d
  if m = significandBound then ⟨significandBound / 2, e + 1⟩ else ⟨m, e⟩

/-- The value nearest to a natural. -/
def ofNat (n : Nat) : Binary64 := ofRatio n 1

/-- The value as a quotient of naturals. -/
def ratio (x : Binary64) : Nat × Nat :=
  (x.significand * Nat.pow 2 x.exponent.toNat, Nat.pow 2 (-x.exponent).toNat)

/-- Zero, whatever its exponent. -/
def isZero (x : Binary64) : Bool := x.significand == 0

/-- Whether a value lies beyond the largest finite one. -/
def overflows (x : Binary64) : Bool := decide (greatestExponent < x.exponent)

/-- The product, rounded once. -/
def mul (x y : Binary64) : Binary64 :=
  ofRatio (x.ratio.1 * y.ratio.1) (x.ratio.2 * y.ratio.2)

/-- The quotient by a divisor other than zero, rounded once. -/
def div (x y : Binary64) : Binary64 :=
  ofRatio (x.ratio.1 * y.ratio.2) (x.ratio.2 * y.ratio.1)

/-- The value nearest to a power of ten. -/
def tenPow (k : Nat) : Binary64 := ofNat (Nat.pow 10 k)

end Binary64

end FuzzCampaign
