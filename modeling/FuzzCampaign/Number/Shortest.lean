import FuzzCampaign.Number.Binary64

/-!
The fewest decimal digits that read back as a given value. The reals that round to the value form an
interval, its ends included exactly when the significand is even. Grids of one, two, ... seventeen
digits are tried in turn; on each only the two neighbours of the value can lie in the interval, and
the nearer of those that do is taken.
-/

namespace FuzzCampaign

/-- The decimal `coefficient * 10 ^ exponent`. -/
structure Decimal where
  coefficient : Nat
  exponent : Int
deriving DecidableEq, Repr

/-- Which of two equally near decimals is taken. -/
inductive Tie where
  | toEven
  | upward
deriving DecidableEq, Repr

namespace Decimal

/-- How many digits a natural has; zero has none. -/
def digitCount (n : Nat) : Nat := if n = 0 then 0 else (Nat.toDigits 10 n).length

/-- The same value without the zeros at the end of its coefficient, of which at most `bound` are
taken away. -/
def trimZeros : (bound : Nat) → Decimal → Decimal
  | 0, d => d
  | bound + 1, d =>
    if d.coefficient ≠ 0 ∧ d.coefficient % 10 = 0 then
      trimZeros bound ⟨d.coefficient / 10, d.exponent + 1⟩
    else d

end Decimal

namespace Binary64

/-- A value between the two reals that bound what rounds to it, all three over one denominator. -/
structure Interval where
  low : Nat
  middle : Nat
  high : Nat
  denominator : Nat
  closed : Bool

/-- The interval of a value. Below a power of two the neighbour is half as far away. -/
def interval (x : Binary64) : Interval :=
  let narrow := x.significand = significandBound / 2 ∧ leastExponent < x.exponent
  let up := Nat.pow 2 (x.exponent - 2).toNat
  { low := (if narrow then 4 * x.significand - 1 else 4 * x.significand - 2) * up
    middle := 4 * x.significand * up
    high := (4 * x.significand + 2) * up
    denominator := Nat.pow 2 (2 - x.exponent).toNat
    closed := x.significand % 2 == 0 }

namespace Interval

/-- The least `k` for which the middle is below `10 ^ k`. -/
def scale (i : Interval) : Int :=
  if i.denominator ≤ i.middle then Decimal.digitCount (i.middle / i.denominator)
  else 1 - (Decimal.digitCount ((i.denominator - 1) / i.middle) : Int)

/-- Whether `c * 10 ^ e` rounds to the middle. -/
def holds (i : Interval) (c : Nat) (e : Int) : Bool :=
  let value := c * Nat.pow 10 e.toNat * i.denominator
  let unit := Nat.pow 10 (-e).toNat
  if i.closed then i.low * unit ≤ value && value ≤ i.high * unit
  else i.low * unit < value && value < i.high * unit

/-- The decimal of the grid `10 ^ e` that is nearest to the middle, among those that round to it. -/
def nearest? (tie : Tie) (i : Interval) (e : Int) : Option Decimal :=
  let num := i.middle * Nat.pow 10 (-e).toNat
  let den := i.denominator * Nat.pow 10 e.toNat
  let c := num / den
  let above := 2 * (num % den)
  match i.holds c e, i.holds (c + 1) e with
  | false, false => none
  | true, false => some ⟨c, e⟩
  | false, true => some ⟨c + 1, e⟩
  | true, true =>
    if above < den then some ⟨c, e⟩
    else if den < above then some ⟨c + 1, e⟩
    else match tie with
      | .upward => some ⟨c + 1, e⟩
      | .toEven => if c % 2 = 0 then some ⟨c, e⟩ else some ⟨c + 1, e⟩

end Interval

/-- The shortest decimal that reads back as the value. Seventeen digits always do. -/
def shortest (tie : Tie) (x : Binary64) : Decimal :=
  if x.isZero then ⟨0, 0⟩
  else
    let i := x.interval
    let k := i.scale
    match (List.range 17).findSome? fun n => i.nearest? tie (k - (n + 1 : Nat)) with
    | some d => d.trimZeros 17
    | none => ⟨i.middle / i.denominator, 0⟩

end Binary64

end FuzzCampaign
