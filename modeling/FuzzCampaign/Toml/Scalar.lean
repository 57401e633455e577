import FuzzCampaign.Toml.Text
import FuzzCampaign.Toml.Value

/-!
Numbers, dates, times and booleans of a TOML document. Digits may be divided by single underscores.
Whole numbers have 64 bits with a sign. Other numbers have the value nearest to what is written;
one that is too large is malformed, unless it is negative.
-/

namespace FuzzCampaign.Toml

/-- The value of a digit in a base. -/
def digitIn? (base : Nat) (c : Char) : Option Nat := (hexValue? c).filter (· < base)

/-- The digits behind the first one; an underscore is taken only with a digit behind it. -/
def scanMoreDigits (base : Nat) : List Char → List Nat × List Char
  | [] => ([], [])
  | '_' :: c :: rest =>
    match digitIn? base c with
    | some d =>
      let (ds, rest) := scanMoreDigits base rest
      (d :: ds, rest)
    | none => ([], '_' :: c :: rest)
  | c :: rest =>
    match digitIn? base c with
    | some d =>
      let (ds, rest) := scanMoreDigits base rest
      (d :: ds, rest)
    | none => ([], c :: rest)

/-- Digits of a base, of which there is at least one. -/
def scanDigits (base : Nat) : Scanner (List Nat)
  | [] => none
  | c :: rest =>
    (digitIn? base c).map fun d =>
      let (ds, rest) := scanMoreDigits base rest
      (d :: ds, rest)

/-- The number that digits of a base write. -/
def ofDigits (base : Nat) (ds : List Nat) : Nat := ds.foldl (fun n d => n * base + d) 0

/-- Whether a sign is negative, and what follows it; without a sign a number is not. -/
def scanSign : List Char → Bool × List Char
  | '-' :: rest => (true, rest)
  | '+' :: rest => (false, rest)
  | cs => (false, cs)

/-- The decimal digits of a whole part. Only a lone zero starts with zero. -/
def scanWhole (cs : List Char) : Option (List Nat × List Char) :=
  match cs with
  | '0' :: rest => some ([0], rest)
  | cs => scanDigits 10 cs

/-- A whole number, if it has 64 bits with a sign. -/
def integer? (isNegative : Bool) (n : Nat) : Option Value :=
  if isNegative then if n ≤ Nat.pow 2 63 then some (.integer (-(n : Int))) else none
  else if n < Nat.pow 2 63 then some (.integer n) else none

/-- A whole number in another base, behind its mark. -/
def scanBased (base : Nat) (cs : List Char) : Option (Value × List Char) :=
  match scanDigits base cs with
  | some (ds, rest) => (integer? false (ofDigits base ds)).map fun v => (v, rest)
  | none => none

/-- A whole number. -/
def scanInteger (cs : List Char) : Option (Value × List Char) :=
  match cs with
  | '0' :: 'x' :: rest => scanBased 16 rest
  | '0' :: 'o' :: rest => scanBased 8 rest
  | '0' :: 'b' :: rest => scanBased 2 rest
  | cs =>
    let (isNegative, cs) := scanSign cs
    match scanWhole cs with
    | some (ds, rest) => (integer? isNegative (ofDigits 10 ds)).map fun v => (v, rest)
    | none => none

/-- The number nearest to digits with an exponent of ten. Far outside the range of numbers the power
of ten is not computed. -/
def nearestReal (isNegative : Bool) (coefficient : Nat) (exponent : Int) : Real :=
  let scale := Decimal.digitCount coefficient + exponent
  if coefficient = 0 ∨ scale < -330 then .finite ⟨isNegative, .ofNat 0⟩
  else if 310 < scale then .infinite isNegative
  else
    let x := Binary64.ofRatio (coefficient * Nat.pow 10 exponent.toNat)
      (Nat.pow 10 (-exponent).toNat)
    if x.overflows then .infinite isNegative else .finite ⟨isNegative, x⟩

/-- An exponent, if there is one: its value, and whether it is there. -/
def scanExponent (cs : List Char) : Option (Option Int × List Char) :=
  match cs with
  | c :: rest =>
    if c = 'e' ∨ c = 'E' then
      let (isNegative, rest) := scanSign rest
      (scanDigits 10 rest).map fun r =>
        let e : Int := ofDigits 10 r.1
        (some (if isNegative then -e else e), r.2)
    else some (none, c :: rest)
  | [] => some (none, [])

/-- The digits of a fraction, if there is one. -/
def scanFraction (cs : List Char) : Option (List Nat × List Char) :=
  match cs with
  | '.' :: rest => scanDigits 10 rest
  | cs => some ([], cs)

/-- One of the special numbers. -/
def scanSpecial (isNegative : Bool) (cs : List Char) : Option (Value × List Char) :=
  match cs with
  | 'i' :: 'n' :: 'f' :: rest => some (.real (.infinite isNegative), rest)
  | 'n' :: 'a' :: 'n' :: rest => some (.real .notANumber, rest)
  | _ => none

/-- A number that is not whole: it has a fraction or an exponent, or is special. -/
def scanReal (cs : List Char) : Option (Value × List Char) :=
  let (isNegative, cs) := scanSign cs
  match scanWhole cs with
  | none => scanSpecial isNegative cs
  | some (whole, rest) =>
    match scanFraction rest with
    | none => none
    | some (fraction, rest) =>
      match scanExponent rest with
      | none => none
      | some (exponent, rest) =>
        if fraction = [] ∧ exponent = none then none
        else
          let v := nearestReal isNegative (ofDigits 10 (whole ++ fraction))
            (exponent.getD 0 - fraction.length)
          if v = .infinite false then none else some (.real v, rest)

/-- A number of exactly so many digits. -/
def scanFixed : (digits : Nat) → (value : Nat) → Scanner Nat
  | 0, value, cs => some (value, cs)
  | _ + 1, _, [] => none
  | digits + 1, value, c :: rest =>
    match digitIn? 10 c with
    | some d => scanFixed digits (value * 10 + d) rest
    | none => none

/-- A number of two digits within bounds. -/
def scanPair (low high : Nat) (cs : List Char) : Option (Nat × List Char) :=
  (scanFixed 2 0 cs).filter fun r => low ≤ r.1 ∧ r.1 ≤ high

/-- How many days a month has. -/
def daysIn (year month : Nat) : Nat :=
  if month = 2 then
    if year % 4 = 0 ∧ (year % 100 ≠ 0 ∨ year % 400 = 0) then 29 else 28
  else if month = 4 ∨ month = 6 ∨ month = 9 ∨ month = 11 then 30
  else 31

/-- Passes over a date. -/
def skipDate? (cs : List Char) : Option (List Char) := do
  let (year, cs) ← scanFixed 4 0 cs
  let cs ← expect '-' cs
  let (month, cs) ← scanPair 1 12 cs
  let cs ← expect '-' cs
  let (_, cs) ← scanPair 1 (daysIn year month) cs
  return cs

/-- Passes over the fraction of a second, if there is one. -/
def skipSecondFraction (cs : List Char) : List Char :=
  match cs with
  | '.' :: c :: rest =>
    if (digitIn? 10 c).isSome then rest.dropWhile fun c => (digitIn? 10 c).isSome
    else '.' :: c :: rest
  | cs => cs

/-- Passes over hours and minutes. -/
def skipHourMinute? (cs : List Char) : Option (List Char) := do
  let (_, cs) ← scanPair 0 23 cs
  let cs ← expect ':' cs
  let (_, cs) ← scanPair 0 59 cs
  return cs

/-- Passes over a time of day. -/
def skipTime? (cs : List Char) : Option (List Char) := do
  let cs ← skipHourMinute? cs
  let cs ← expect ':' cs
  let (_, cs) ← scanPair 0 60 cs
  return skipSecondFraction cs

/-- Passes over the offset of a time, if there is one. -/
def skipOffset (cs : List Char) : List Char :=
  match cs with
  | c :: rest =>
    if c = 'Z' ∨ c = 'z' then rest
    else if c = '+' ∨ c = '-' then (skipHourMinute? rest).getD (c :: rest)
    else c :: rest
  | [] => []

/-- Passes over the time behind a date, if there is one. -/
def skipTimeOfDate (cs : List Char) : List Char :=
  match cs with
  | c :: rest =>
    if c = 'T' ∨ c = 't' ∨ c = ' ' then
      match skipTime? rest with
      | some rest => skipOffset rest
      | none => c :: rest
    else c :: rest
  | [] => []

/-- A date, a time, or both. -/
def scanDatetime (cs : List Char) : Option (Value × List Char) :=
  match skipDate? cs with
  | some rest => some (.datetime, skipTimeOfDate rest)
  | none => (skipTime? cs).map fun rest => (.datetime, rest)

/-- A boolean. -/
def scanBoolean (cs : List Char) : Option (Value × List Char) :=
  match cs with
  | 't' :: 'r' :: 'u' :: 'e' :: rest => some (.boolean true, rest)
  | 'f' :: 'a' :: 'l' :: 's' :: 'e' :: rest => some (.boolean false, rest)
  | _ => none

/-- A value without parts: of the readings that fit, the first one. -/
def scanScalar (cs : List Char) : Option (Value × List Char) :=
  ((scanString cs).map fun r => (Value.string r.1, r.2))
    <|> scanBoolean cs <|> scanDatetime cs <|> scanReal cs <|> scanInteger cs

end FuzzCampaign.Toml
