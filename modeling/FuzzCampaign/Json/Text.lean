import FuzzCampaign.Json.Fault

/-!
Strings in a JSON text. A string is read byte by byte: escapes turn into the bytes of their
character, the two halves of a pair into those of one character, and what has been gathered at the
closing quote must be text.
-/

namespace FuzzCampaign.Json

/-- The byte that a letter behind a backslash stands for. -/
def escapedByte? (b : UInt8) : Option UInt8 :=
  if b = ascii '"' then some b
  else if b = ascii '\\' then some b
  else if b = ascii '/' then some b
  else if b = ascii 'b' then some 0x08
  else if b = ascii 'f' then some 0x0c
  else if b = ascii 'n' then some 0x0a
  else if b = ascii 'r' then some 0x0d
  else if b = ascii 't' then some 0x09
  else none

/-- Where the reading of a string stands. Behind the first half of a pair, that half is kept. -/
inductive TextPhase where
  | plain
  | escape
  | code (high : Option Nat) (left : Nat) (value : Option Nat)
  | secondBackslash (high : Nat)
  | secondLetter (high : Nat)
deriving DecidableEq, Repr

/-- A number that opens a pair. -/
def isHighHalf (n : Nat) : Bool := 0xd800 ≤ n && n < 0xdc00

/-- A number that closes a pair. -/
def isLowHalf (n : Nat) : Bool := 0xdc00 ≤ n && n < 0xe000

/-- The character of a pair. -/
def joinHalves (high low : Nat) : Char :=
  Char.ofNat (0x10000 + (high - 0xd800) * 0x400 + (low - 0xdc00))

/-- What a number of four digits means: a phase to go on in, with the bytes gained, or a fault. -/
def finishCode (high : Option Nat) (value : Option Nat) : Except Cause (List UInt8 × TextPhase) :=
  match high, value with
  | _, none => .error .malformedEscape
  | none, some n =>
    if isLowHalf n then .error .lowHalfExpected
    else if isHighHalf n then .ok ([], .secondBackslash n)
    else .ok (String.utf8EncodeChar (Char.ofNat n), .plain)
  | some h, some n =>
    if isLowHalf n then .ok (String.utf8EncodeChar (joinHalves h n), .plain)
    else .error .lowHalfExpected

/-- Reads up to the closing quote. What is gathered is kept last byte first. -/
def scanText (gathered : List UInt8) : TextPhase → List UInt8 →
    Except Fault (List UInt8 × List UInt8)
  | _, [] => faultAt .endInString []
  | .plain, b :: rest =>
    if b = ascii '"' then .ok (gathered.reverse, rest)
    else if b = ascii '\\' then scanText gathered .escape rest
    else if b < 0x20 then faultAt .controlCharacter rest
    else scanText (b :: gathered) .plain rest
  | .escape, b :: rest =>
    if b = ascii 'u' then scanText gathered (.code none 4 (some 0)) rest
    else match escapedByte? b with
      | some e => scanText (e :: gathered) .plain rest
      | none => faultAt .malformedEscape rest
  | .code high left value, b :: rest =>
    let value := value.bind fun n => (hexDigit? b).map fun d => n * 16 + d
    if 1 < left then scanText gathered (.code high (left - 1) value) rest
    else match finishCode high value with
      | .error cause => faultAt cause rest
      | .ok (bytes, phase) => scanText (bytes.reverse ++ gathered) phase rest
  | .secondBackslash high, b :: rest =>
    if b = ascii '\\' then scanText gathered (.secondLetter high) rest
    else faultAt .halfExpected rest
  | .secondLetter high, b :: rest =>
    if b = ascii 'u' then scanText gathered (.code (some high) 4 (some 0)) rest
    else faultAt .halfExpected rest

/-- Reads a string whose opening quote has been read. -/
def readText : Reader String := fun bytes =>
  match scanText [] .plain bytes with
  | .error fault => .error fault
  | .ok (gathered, rest) =>
    match Text.decode? gathered with
    | some s => .ok (s, rest)
    | none => faultAt (.notText (Text.undecodedLength gathered)) rest

end FuzzCampaign.Json
