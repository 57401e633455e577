import FuzzCampaign.Text.Utf8
import FuzzCampaign.Text.Quoted
import FuzzCampaign.Number.Notation

/-!
What can be wrong with a JSON text, and where. A reader takes the bytes that are left and returns
those that it leaves, so a place in the text is the bytes behind it. A fault that concerns a whole
structure waits for the end of that structure to get its place.
-/

namespace FuzzCampaign.Json

/-- What a text does not say as expected. -/
inductive Cause where
  | endInValue
  | endInList
  | endInObject
  | endInString
  | valueExpected
  | wordExpected
  | colonExpected
  | commaOrListEndExpected
  | commaOrObjectEndExpected
  | keyExpected
  | trailingComma
  | trailingCharacters
  | malformedNumber
  | numberOutOfRange
  | malformedEscape
  | lowHalfExpected
  | halfExpected
  | controlCharacter
  | notText (undecoded : Nat)
  | wrongType (found expected : String)
  | wrongValue (found expected : String)
  | repeatedField (name : String)
  | absentField (name : String)
  | tooFewElements (count : Nat) (expected : String)
deriving DecidableEq, Repr

/-- A name between back quotes. -/
def named (name : String) : String := "`" ++ name ++ "`"

namespace Cause

/-- The message of a cause, without the place. -/
def message : Cause → String
  | endInValue => "EOF while parsing a value"
  | endInList => "EOF while parsing a list"
  | endInObject => "EOF while parsing an object"
  | endInString => "EOF while parsing a string"
  | valueExpected => "expected value"
  | wordExpected => "expected ident"
  | colonExpected => "expected `:`"
  | commaOrListEndExpected => "expected `,` or `]`"
  | commaOrObjectEndExpected => "expected `,` or `\x7d`"
  | keyExpected => "key must be a string"
  | trailingComma => "trailing comma"
  | trailingCharacters => "trailing characters"
  | malformedNumber => "invalid number"
  | numberOutOfRange => "number out of range"
  | malformedEscape => "invalid escape"
  | lowHalfExpected => "lone leading surrogate in hex escape"
  | halfExpected => "unexpected end of hex escape"
  | controlCharacter => "control character (\\u0000-\\u001F) found while parsing a string"
  | notText _ => "invalid unicode code point"
  | wrongType found expected => "invalid type: " ++ found ++ ", expected " ++ expected
  | wrongValue found expected => "invalid value: " ++ found ++ ", expected " ++ expected
  | repeatedField name => "duplicate field " ++ named name
  | absentField name => "missing field " ++ named name
  | tooFewElements count expected =>
    "invalid length " ++ natText count ++ ", expected " ++ expected

/-- How many bytes before its place a fault is shown: where decoding stopped. -/
def setBack : Cause → Nat
  | notText undecoded => undecoded
  | _ => 0

end Cause

/-- A fault with the bytes that follow its place, or those at which the enclosing structure goes on
to its end. -/
inductive Fault where
  | located (cause : Cause) (unread : List UInt8)
  | pending (cause : Cause) (unread : List UInt8)
deriving DecidableEq, Repr

namespace Fault

/-- What is wrong. -/
def cause : Fault → Cause
  | located cause _ => cause
  | pending cause _ => cause

/-- The bytes behind the place of a fault. -/
def unread : Fault → List UInt8
  | located _ unread => unread
  | pending _ unread => unread

/-- Gives a waiting fault its place, behind the end of its structure. -/
def settle (close : List UInt8 → List UInt8) : Fault → Fault
  | located cause unread => located cause unread
  | pending cause unread => located cause (close unread)

end Fault

/-- A line and a column of a text, both as they are shown. -/
structure Place where
  line : Nat
  column : Nat
deriving DecidableEq, Repr

/-- The place behind the bytes that were read: lines count from one, columns are bytes. -/
def Place.after (bytes : List UInt8) : Place where
  line := 1 + bytes.count 0x0a
  column := (bytes.reverse.takeWhile (· != 0x0a)).length

/-- The message of a fault in a text. -/
def Fault.message (text : List UInt8) (f : Fault) : String :=
  let place := Place.after (text.take (text.length - f.unread.length))
  f.cause.message ++ " at line " ++ natText place.line
    ++ " column " ++ natText (place.column - f.cause.setBack)

/-- Reads a value from the bytes that are left. -/
abbrev Reader (α : Type) := List UInt8 → Except Fault (α × List UInt8)

/-- A fault in front of the bytes that are left. -/
def faultAt {α : Type} (cause : Cause) (bytes : List UInt8) : Except Fault α :=
  .error (.located cause bytes)

/-- A fault in the next byte, whose place is behind it. -/
def faultIn {α : Type} (cause : Cause) (bytes : List UInt8) : Except Fault α :=
  .error (.located cause bytes.tail)

/-- The byte of a character below 128. -/
def ascii (c : Char) : UInt8 := c.toUInt8

/-- A blank between tokens. -/
def isBlank (b : UInt8) : Bool :=
  b == ascii ' ' || b == ascii '\n' || b == ascii '\t' || b == ascii '\r'

/-- The bytes from the next token on. -/
def skipBlanks (bytes : List UInt8) : List UInt8 := bytes.dropWhile isBlank

/-- The value of a decimal digit. -/
def digit? (b : UInt8) : Option Nat :=
  if ascii '0' ≤ b ∧ b ≤ ascii '9' then some (b.toNat - 48) else none

/-- Whether a byte is a decimal digit. -/
def isDigit (b : UInt8) : Bool := (digit? b).isSome

/-- The value of a digit of base sixteen. -/
def hexDigit? (b : UInt8) : Option Nat :=
  if ascii '0' ≤ b ∧ b ≤ ascii '9' then some (b.toNat - 48)
  else if ascii 'a' ≤ b ∧ b ≤ ascii 'f' then some (b.toNat - 87)
  else if ascii 'A' ≤ b ∧ b ≤ ascii 'F' then some (b.toNat - 55)
  else none

/-- Reads the rest of a word. -/
def readWord : (letters : List UInt8) → List UInt8 → Except Fault (List UInt8)
  | [], bytes => .ok bytes
  | _ :: _, [] => faultAt .endInValue []
  | c :: letters, b :: bytes =>
    if b = c then readWord letters bytes else faultAt .wordExpected bytes

/-- The letters behind the first one of a word. -/
def wordAfter? (b : UInt8) : Option (List UInt8) :=
  if b = ascii 'n' then some [ascii 'u', ascii 'l', ascii 'l']
  else if b = ascii 't' then some [ascii 'r', ascii 'u', ascii 'e']
  else if b = ascii 'f' then some [ascii 'a', ascii 'l', ascii 's', ascii 'e']
  else none

end FuzzCampaign.Json
