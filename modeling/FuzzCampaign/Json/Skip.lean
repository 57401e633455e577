import FuzzCampaign.Json.Text
import FuzzCampaign.Json.Numeral

/-!
Values that nobody asked for are passed over byte by byte. What is open is kept in a list, innermost
first, so nesting has no limit, and the way through the bytes is a plain recursion on them.

        start ──▶ word, number or string ──▶ after ──▶ , ──▶ start or key
          └─▶ [ or { opens ──▶ first ──▶ start or key, or closes at once

A value is over when nothing is open any more. A number is over only at the byte behind it, which is
then left.
-/

namespace FuzzCampaign.Json

/-- A container that is open. -/
inductive Container where
  | list
  | object
deriving DecidableEq, Repr

namespace Container

/-- The fault of a text that ends inside a container. -/
def endCause : Container → Cause
  | list => .endInList
  | object => .endInObject

/-- The fault of a text in which an element is followed by neither a comma nor the end. -/
def commaCause : Container → Cause
  | list => .commaOrListEndExpected
  | object => .commaOrObjectEndExpected

/-- The byte that closes a container. -/
def closer : Container → UInt8
  | list => ascii ']'
  | object => ascii '\x7d'

end Container

/-- Where in a number the way stands: which bytes were read last. -/
inductive NumberPhase where
  | minus
  | zero
  | digits
  | point
  | fraction
  | mark
  | sign
  | exponent
deriving DecidableEq, Repr

/-- Where in a string the way stands. -/
inductive SkipTextPhase where
  | plain
  | escape
  | code (left : Nat) (wellFormed : Bool)
deriving DecidableEq, Repr

/-- Where the way through a value stands. -/
inductive SkipPhase where
  | start
  | first
  | key
  | colon
  | after
  | word (letters : List UInt8)
  | number (phase : NumberPhase)
  | keyText (phase : SkipTextPhase)
  | text (phase : SkipTextPhase)
deriving DecidableEq, Repr

/-- What one byte does: the way goes on, the value is over with this byte or in front of it, or the
byte is a fault, whose place is behind it or in front of it. -/
inductive SkipStep where
  | go (opened : List Container) (phase : SkipPhase)
  | over
  | overBefore
  | faultBehind (cause : Cause)
  | faultBefore (cause : Cause)
deriving DecidableEq, Repr

/-- A value ended with this byte. -/
def ended : List Container → SkipStep
  | [] => .over
  | c :: rest => .go (c :: rest) .after

/-- The phase at a byte that starts a number. -/
def numberStart? (b : UInt8) : Option NumberPhase :=
  if b = ascii '-' then some .minus
  else if b = ascii '0' then some .zero
  else if isDigit b then some .digits
  else none

/-- A byte at which a value starts, or a blank in front of it. -/
def stepStart (opened : List Container) (b : UInt8) : SkipStep :=
  if isBlank b then .go opened .start
  else if b = ascii '"' then .go opened (.text .plain)
  else if b = ascii '[' then .go (.list :: opened) .first
  else if b = ascii '\x7b' then .go (.object :: opened) .first
  else match wordAfter? b, numberStart? b with
    | some letters, _ => .go opened (.word letters)
    | none, some phase => .go opened (.number phase)
    | none, none => .faultBehind .valueExpected

/-- A byte at which a key starts, or a blank in front of it. -/
def stepKey (opened : List Container) (b : UInt8) : SkipStep :=
  if isBlank b then .go opened .key
  else if b = ascii '"' then .go opened (.keyText .plain)
  else .faultBehind .keyExpected

/-- A byte behind a value inside the innermost container. -/
def stepAfter (c : Container) (opened : List Container) (b : UInt8) : SkipStep :=
  if isBlank b then .go (c :: opened) .after
  else if b = c.closer then ended opened
  else if b = ascii ',' then
    .go (c :: opened) (match c with | .list => .start | .object => .key)
  else .faultBehind c.commaCause

/-- A byte behind the opening of the innermost container. -/
def stepFirst (c : Container) (opened : List Container) (b : UInt8) : SkipStep :=
  if isBlank b then .go (c :: opened) .first
  else if b = c.closer then ended opened
  else match c with
    | .list => stepStart (c :: opened) b
    | .object => stepKey (c :: opened) b

/-- The phase of a number that goes on with a byte; `none` if the number is over in front of it. -/
def NumberPhase.step (p : NumberPhase) (b : UInt8) : Except SkipStep (Option NumberPhase) :=
  match p with
  | minus =>
    if b = ascii '0' then .ok (some zero)
    else if isDigit b then .ok (some digits)
    else .error (.faultBehind .malformedNumber)
  | zero =>
    if isDigit b then .error (.faultBehind .malformedNumber)
    else if b = ascii '.' then .ok (some point)
    else if isExponentMark b then .ok (some mark)
    else .ok none
  | digits =>
    if isDigit b then .ok (some digits)
    else if b = ascii '.' then .ok (some point)
    else if isExponentMark b then .ok (some mark)
    else .ok none
  | point => if isDigit b then .ok (some fraction) else .error (.faultBehind .malformedNumber)
  | fraction =>
    if isDigit b then .ok (some fraction)
    else if isExponentMark b then .ok (some mark)
    else .ok none
  | mark =>
    if isDigit b then .ok (some exponent)
    else if b = ascii '+' ∨ b = ascii '-' then .ok (some sign)
    else .error (.faultBehind .malformedNumber)
  | sign => if isDigit b then .ok (some exponent) else .error (.faultBehind .malformedNumber)
  | exponent => if isDigit b then .ok (some exponent) else .ok none

/-- Whether a number may end here. -/
def NumberPhase.isComplete : NumberPhase → Bool
  | zero | digits | fraction | exponent => true
  | minus | point | mark | sign => false

/-- The phase of a string that goes on with a byte; `none` if the byte closes it. -/
def SkipTextPhase.step (p : SkipTextPhase) (b : UInt8) : Except SkipStep (Option SkipTextPhase) :=
  match p with
  | plain =>
    if b = ascii '"' then .ok none
    else if b = ascii '\\' then .ok (some escape)
    else if b < 0x20 then .error (.faultBefore .controlCharacter)
    else .ok (some plain)
  | escape =>
    if b = ascii 'u' then .ok (some (code 4 true))
    else if (escapedByte? b).isSome then .ok (some plain)
    else .error (.faultBehind .malformedEscape)
  | code left wellFormed =>
    let wellFormed := wellFormed && (hexDigit? b).isSome
    if 1 < left then .ok (some (code (left - 1) wellFormed))
    else if wellFormed then .ok (some plain)
    else .error (.faultBehind .malformedEscape)

/-- What a byte does in a phase. -/
def SkipPhase.step (opened : List Container) (phase : SkipPhase) (b : UInt8) : SkipStep :=
  match phase with
  | start => stepStart opened b
  | key => stepKey opened b
  | first =>
    match opened with
    | [] => .overBefore
    | c :: opened => stepFirst c opened b
  | after =>
    match opened with
    | [] => .overBefore
    | c :: opened => stepAfter c opened b
  | colon =>
    if isBlank b then .go opened .colon
    else if b = ascii ':' then .go opened .start
    else .faultBehind .colonExpected
  | word [] => .overBefore
  | word (c :: letters) =>
    if b ≠ c then .faultBehind .wordExpected
    else if letters = [] then ended opened
    else .go opened (.word letters)
  | number p =>
    match p.step b with
    | .error fault => fault
    | .ok (some p) => .go opened (.number p)
    | .ok none =>
      match opened with
      | [] => .overBefore
      | c :: opened => stepAfter c opened b
  | keyText p =>
    match p.step b with
    | .error fault => fault
    | .ok (some p) => .go opened (.keyText p)
    | .ok none => .go opened .colon
  | text p =>
    match p.step b with
    | .error fault => fault
    | .ok (some p) => .go opened (.text p)
    | .ok none => ended opened

/-- What the end of the text means in a phase; nothing if the value is over there. -/
def SkipPhase.endCause? (opened : List Container) (phase : SkipPhase) : Option Cause :=
  let inside := opened.head?.map Container.endCause
  match phase with
  | start => some .endInValue
  | word _ => some .endInValue
  | keyText _ => some .endInString
  | text _ => some .endInString
  | number p => if p.isComplete then inside else some .malformedNumber
  | first => inside
  | key => inside
  | colon => inside
  | after => inside

/-- Passes over the rest of a value. -/
def skipFrom (opened : List Container) (phase : SkipPhase) :
    List UInt8 → Except Fault (List UInt8)
  | [] =>
    match phase.endCause? opened with
    | some cause => faultAt cause []
    | none => .ok []
  | b :: rest =>
    match phase.step opened b with
    | .go opened phase => skipFrom opened phase rest
    | .over => .ok rest
    | .overBefore => .ok (b :: rest)
    | .faultBehind cause => faultAt cause rest
    | .faultBefore cause => faultAt cause (b :: rest)

/-- Passes over one value and the blanks in front of it. -/
def skipValue (bytes : List UInt8) : Except Fault (List UInt8) := skipFrom [] .start bytes

end FuzzCampaign.Json
