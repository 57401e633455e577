/-!
The smallest parts of a TOML document: blanks, line ends, comments and runs of characters. A scanner
takes the characters that are left and returns what it found with those that it leaves; nothing is
returned where the document is malformed.
-/

namespace FuzzCampaign.Toml

/-- Finds a part at the start of the characters that are left. -/
abbrev Scanner (α : Type) := List Char → Option (α × List Char)

/-- A blank within a line. -/
def isBlank (c : Char) : Bool := c == ' ' || c == '\t'

/-- Leaves blanks out. -/
def skipBlanks (cs : List Char) : List Char := cs.dropWhile isBlank

/-- Passes over one character. -/
def expect (c : Char) : List Char → Option (List Char)
  | [] => none
  | d :: rest => if d = c then some rest else none

/-- Passes over some characters. -/
def expectAll : (text : List Char) → List Char → Option (List Char)
  | [], cs => some cs
  | c :: text, cs => (expect c cs).bind (expectAll text)

/-- Passes over a line end. -/
def newline? : List Char → Option (List Char)
  | '\n' :: rest => some rest
  | '\r' :: '\n' :: rest => some rest
  | _ => none

/-- A character that may stand in a comment, and in text that is taken as it is. -/
def isPlain (c : Char) : Bool := c == '\t' || (0x20 ≤ c.toNat && c.toNat != 0x7f)

/-- Passes over a comment, if there is one. -/
def skipComment : List Char → List Char
  | '#' :: rest => rest.dropWhile isPlain
  | cs => cs

/-- Passes over the end of a line: blanks, a comment, and a line end or the end of the document. -/
def lineEnd? (cs : List Char) : Option (List Char) :=
  match skipComment (skipBlanks cs) with
  | [] => some []
  | cs => newline? cs

/-- Passes over blanks and line ends. Each round takes a line end, so the number of characters bounds
the rounds. -/
def skipBlankLinesUpTo : (bound : Nat) → List Char → List Char
  | 0, cs => skipBlanks cs
  | bound + 1, cs =>
    match newline? (skipBlanks cs) with
    | some rest => skipBlankLinesUpTo bound rest
    | none => skipBlanks cs

/-- Passes over blanks and line ends. -/
def skipBlankLines (cs : List Char) : List Char := skipBlankLinesUpTo cs.length cs

/-- Passes over blanks, line ends and comments that end in one. Each round takes some characters, so
their number bounds the rounds. -/
def skipLinesUpTo : (bound : Nat) → List Char → List Char
  | 0, cs => cs
  | bound + 1, cs =>
    match newline? (skipComment (skipBlanks cs)) with
    | some rest => skipLinesUpTo bound rest
    | none => skipBlanks cs

/-- Passes over blanks, line ends and comments. -/
def skipLines (cs : List Char) : List Char := skipLinesUpTo cs.length cs

end FuzzCampaign.Toml
