import FuzzCampaign.Json.Fault
import FuzzCampaign.Number.Signed

/-!
Numbers in a JSON text. A number without fraction and exponent is an integer if it fits 64 bits.
Any other one has a significand below `2 ^ 64`, which the digits fill as long as they fit, and an
exponent of ten; its value is the significand times or divided by a power of ten, rounded once for
each of the operations, which is not always the nearest value to the digits.
-/

namespace FuzzCampaign.Json

/-- A number as it is read. -/
inductive Numeral where
  | natural (n : Nat)
  | negative (n : Nat)
  | float (value : Signed)
deriving DecidableEq, Repr

/-- The text of a number in a message. -/
def Numeral.text : Numeral → String
  | natural n => "integer " ++ named (natText n)
  | negative n => "integer " ++ named ("-" ++ natText n)
  | float value => "floating point " ++ named value.reportText

/-- The digits at the start, and the rest. -/
def splitDigits : List UInt8 → List Nat × List UInt8
  | [] => ([], [])
  | b :: rest =>
    match digit? b with
    | some d =>
      let (ds, rest) := splitDigits rest
      (d :: ds, rest)
    | none => ([], b :: rest)

/-- Takes digits into a significand while it stays below `2 ^ 64`; the second part is the number of
digits that are not taken. -/
def absorb (significand : Nat) : List Nat → Nat × Nat
  | [] => (significand, 0)
  | d :: ds =>
    if significand * 10 + d < Nat.pow 2 64 then absorb (significand * 10 + d) ds
    else (significand, ds.length + 1)

/-- Reads the digits of an exponent below `2 ^ 31`. At the digit that makes it too large there is no
value, and the rest starts behind that digit. -/
def scanExponent (value : Nat) : List UInt8 → Option Nat × List UInt8
  | [] => (some value, [])
  | b :: rest =>
    match digit? b with
    | some d =>
      if value * 10 + d < Nat.pow 2 31 then scanExponent (value * 10 + d) rest else (none, rest)
    | none => (some value, b :: rest)

/-- Divides by a power of ten, at most by `10 ^ 308` at a time. -/
def divideByTens (f : Binary64) (k : Nat) : Binary64 :=
  if k ≤ 308 then f.div (.tenPow k)
  else if f.isZero then f
  else divideByTens (f.div (.tenPow 308)) (k - 308)
termination_by k
decreasing_by omega

/-- The value of a significand with an exponent of ten, unless it is beyond the largest number. -/
def decimalValue? (significand : Nat) (exponent : Int) : Option Binary64 :=
  let f := Binary64.ofNat significand
  if exponent < 0 then some (divideByTens f exponent.natAbs)
  else if 308 < exponent then if f.isZero then some f else none
  else
    let v := f.mul (.tenPow exponent.natAbs)
    if v.overflows then none else some v

/-- The number with a significand and an exponent of ten, in front of the bytes that are left. -/
def floatNumeral (isNegative : Bool) (significand : Nat) (exponent : Int) : Reader Numeral :=
  fun rest =>
    match decimalValue? significand exponent with
    | some v => .ok (.float ⟨isNegative, v⟩, rest)
    | none => faultAt .numberOutOfRange rest

/-- Whether a byte starts an exponent. -/
def isExponentMark (b : UInt8) : Bool := b == ascii 'e' || b == ascii 'E'

/-- Whether an exponent counts down, and the bytes behind its sign. -/
def readExponentSign : List UInt8 → Bool × List UInt8
  | [] => (false, [])
  | b :: rest =>
    if b = ascii '-' then (true, rest)
    else if b = ascii '+' then (false, rest)
    else (false, b :: rest)

/-- Reads an exponent whose mark has been read. One that is too large makes zero, or no number. -/
def readExponent (isNegative : Bool) (significand : Nat) (start : Int) : Reader Numeral :=
  fun bytes =>
    let (countsDown, bytes) := readExponentSign bytes
    match bytes with
    | [] => faultAt .endInValue []
    | b :: rest =>
      match digit? b with
      | none => faultAt .malformedNumber rest
      | some d =>
        match scanExponent d rest with
        | (some e, rest) =>
          floatNumeral isNegative significand (if countsDown then start - e else start + e) rest
        | (none, rest) =>
          if significand ≠ 0 ∧ !countsDown then faultAt .numberOutOfRange rest
          else .ok (.float ⟨isNegative, .ofNat 0⟩, (splitDigits rest).2)

/-- Reads what follows the digits of a number that is no integer any more. -/
def readFloatEnd (isNegative : Bool) (significand : Nat) (exponent : Int) : Reader Numeral
  | [] => floatNumeral isNegative significand exponent []
  | b :: rest =>
    if isExponentMark b then readExponent isNegative significand exponent rest
    else floatNumeral isNegative significand exponent (b :: rest)

/-- Reads a fraction whose point has been read. Digits that do not fit are dropped. -/
def readFraction (isNegative : Bool) (significand : Nat) (exponent : Int) : Reader Numeral :=
  fun bytes =>
    match splitDigits bytes with
    | ([], []) => faultIn .endInValue []
    | ([], rest) => faultIn .malformedNumber rest
    | (d :: ds, rest) =>
      let (s, dropped) := absorb significand (d :: ds)
      readFloatEnd isNegative s (exponent - ((d :: ds).length - dropped : Nat)) rest

/-- The integer of a significand, if its sign lets it fit 64 bits. Minus zero is no integer. -/
def integerNumeral (isNegative : Bool) (significand : Nat) : Numeral :=
  if !isNegative then .natural significand
  else if significand = 0 ∨ Nat.pow 2 63 < significand then .float ⟨true, .ofNat significand⟩
  else .negative significand

/-- Reads what follows the integer digits, of which `beyond` did not fit. -/
def readNumberEnd (isNegative : Bool) (significand beyond : Nat) : Reader Numeral := fun bytes =>
  let whole : Except Fault (Numeral × List UInt8) :=
    if beyond = 0 then .ok (integerNumeral isNegative significand, bytes)
    else floatNumeral isNegative significand beyond bytes
  match bytes with
  | [] => whole
  | b :: rest =>
    if b = ascii '.' then readFraction isNegative significand beyond rest
    else if isExponentMark b then readExponent isNegative significand beyond rest
    else whole

/-- Reads a number behind its sign. Only a lone zero starts with zero. -/
def readMagnitude (isNegative : Bool) : Reader Numeral
  | [] => faultAt .endInValue []
  | b :: rest =>
    match digit? b with
    | none => faultAt .malformedNumber rest
    | some 0 =>
      match rest with
      | [] => readNumberEnd isNegative 0 0 []
      | c :: _ =>
        if isDigit c then faultIn .malformedNumber rest else readNumberEnd isNegative 0 0 rest
    | some d =>
      let (ds, rest) := splitDigits rest
      let (s, beyond) := absorb d ds
      readNumberEnd isNegative s beyond rest

/-- Whether a byte starts a number. -/
def startsNumber (b : UInt8) : Bool := b == ascii '-' || isDigit b

/-- Reads a number. -/
def readNumeral : Reader Numeral
  | [] => faultAt .endInValue []
  | b :: rest => if b = ascii '-' then readMagnitude true rest else readMagnitude false (b :: rest)

end FuzzCampaign.Json
