/-!
JSON values and their two written forms. The compact form has no blanks at all; the laid out form
puts each element on a line of its own, two blanks deeper than its container. Both write a string
alike, with an escape for the quote, the backslash and each control character.
-/

namespace FuzzCampaign

/-- A JSON value. A number is kept as it is written, and members keep their order. -/
inductive Json where
  | null
  | boolean (value : Bool)
  | number (token : String)
  | string (text : String)
  | array (items : List Json)
  | object (members : List (String × Json))

namespace Json

/-- The letter that stands for a character behind a backslash. -/
def escapeLetter? : Char → Option Char
  | '"' => some '"'
  | '\\' => some '\\'
  | '\x08' => some 'b'
  | '\x0c' => some 'f'
  | '\n' => some 'n'
  | '\r' => some 'r'
  | '\t' => some 't'
  | _ => none

/-- A digit below sixteen. -/
def hexDigit (n : Nat) : Char := Nat.digitChar n

/-- A character as it stands in a string. -/
def writtenChar (c : Char) : List Char :=
  match escapeLetter? c with
  | some letter => ['\\', letter]
  | none =>
    if c.toNat < 0x20 then
      ['\\', 'u', '0', '0', hexDigit (c.toNat / 16), hexDigit (c.toNat % 16)]
    else [c]

/-- A string between quotes. -/
def writtenString (s : String) : List Char := '"' :: (s.toList.flatMap writtenChar ++ ['"'])

mutual

/-- The compact form. -/
def compact : Json → List Char
  | null => "null".toList
  | boolean true => "true".toList
  | boolean false => "false".toList
  | number token => token.toList
  | string text => writtenString text
  | array items => '[' :: (compactItems items ++ [']'])
  | object members => '\x7b' :: (compactMembers members ++ ['\x7d'])

/-- The elements of an array, divided by commas. -/
def compactItems : List Json → List Char
  | [] => []
  | [v] => v.compact
  | v :: rest => v.compact ++ ',' :: compactItems rest

/-- The members of an object, divided by commas. -/
def compactMembers : List (String × Json) → List Char
  | [] => []
  | [(k, v)] => writtenString k ++ ':' :: v.compact
  | (k, v) :: rest => writtenString k ++ ':' :: (v.compact ++ ',' :: compactMembers rest)

end

/-- The start of a line at a depth. -/
def newLine (depth : Nat) : List Char := '\n' :: List.replicate (2 * depth) ' '

mutual

/-- The laid out form of a value that stands at a depth. An empty container stays on its line. -/
def pretty (depth : Nat) : Json → List Char
  | null => "null".toList
  | boolean true => "true".toList
  | boolean false => "false".toList
  | number token => token.toList
  | string text => writtenString text
  | array [] => ['[', ']']
  | array (v :: rest) =>
    '[' :: (newLine (depth + 1) ++ prettyItems (depth + 1) (v :: rest) ++ newLine depth ++ [']'])
  | object [] => ['\x7b', '\x7d']
  | object (m :: rest) =>
    '\x7b' :: (newLine (depth + 1) ++ prettyMembers (depth + 1) (m :: rest) ++ newLine depth
      ++ ['\x7d'])

/-- The elements of an array, each on its line. -/
def prettyItems (depth : Nat) : List Json → List Char
  | [] => []
  | [v] => v.pretty depth
  | v :: rest => v.pretty depth ++ ',' :: (newLine depth ++ prettyItems depth rest)

/-- The members of an object, each on its line. -/
def prettyMembers (depth : Nat) : List (String × Json) → List Char
  | [] => []
  | [(k, v)] => writtenString k ++ ':' :: ' ' :: v.pretty depth
  | (k, v) :: rest =>
    writtenString k ++ ':' :: ' ' :: (v.pretty depth ++ ',' :: (newLine depth
      ++ prettyMembers depth rest))

end

end Json

end FuzzCampaign
