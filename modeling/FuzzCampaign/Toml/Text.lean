import FuzzCampaign.Toml.Scan

/-!
Strings of a TOML document. Basic strings have escapes, literal ones have none; both come in a form
for one line and in one for several, between three quotes. Up to two quotes may stand anywhere in
the long forms, also in front of the closing ones.
-/

namespace FuzzCampaign.Toml

/-- The value of a digit of base sixteen. -/
def hexValue? (c : Char) : Option Nat :=
  if '0' ≤ c ∧ c ≤ '9' then some (c.toNat - 48)
  else if 'a' ≤ c ∧ c ≤ 'f' then some (c.toNat - 87)
  else if 'A' ≤ c ∧ c ≤ 'F' then some (c.toNat - 55)
  else none

/-- The character that a number of so many digits stands for. -/
def scanCode : (digits : Nat) → (value : Nat) → Scanner Char
  | 0, value, cs => if value.isValidChar then some (Char.ofNat value, cs) else none
  | _ + 1, _, [] => none
  | digits + 1, value, c :: rest =>
    match hexValue? c with
    | some d => scanCode digits (value * 16 + d) rest
    | none => none

/-- The character of an escape whose backslash has been read. -/
def scanEscape : Scanner Char
  | [] => none
  | c :: rest =>
    if c = 'b' then some ('\x08', rest)
    else if c = 'f' then some ('\x0c', rest)
    else if c = 'n' then some ('\n', rest)
    else if c = 'r' then some ('\r', rest)
    else if c = 't' then some ('\t', rest)
    else if c = '"' then some ('"', rest)
    else if c = '\\' then some ('\\', rest)
    else if c = 'u' then scanCode 4 0 rest
    else if c = 'U' then scanCode 8 0 rest
    else none

/-- A basic string behind its quote. Every round takes some characters, so their number bounds the
rounds. What is gathered is kept last character first. -/
def scanBasic : (bound : Nat) → (gathered : List Char) → Scanner (List Char)
  | 0, _, _ => none
  | _ + 1, _, [] => none
  | bound + 1, gathered, c :: rest =>
    if c = '"' then some (gathered.reverse, rest)
    else if c = '\\' then
      match scanEscape rest with
      | some (e, rest) => scanBasic bound (e :: gathered) rest
      | none => none
    else if isPlain c then scanBasic bound (c :: gathered) rest
    else none

/-- A literal string behind its quote. -/
def scanLiteral (cs : List Char) : Option (List Char × List Char) :=
  let body := cs.takeWhile fun c => isPlain c && c != '\x27'
  (expect '\x27' (cs.drop body.length)).map fun rest => (body, rest)

/-- How many quotes stand at the start. -/
def quoteRun (quote : Char) (cs : List Char) : Nat := (cs.takeWhile (· == quote)).length

/-- Passes over a backslash's line end, and all blanks and line ends behind it. -/
def skipContinuation? (cs : List Char) : Option (List Char) :=
  (newline? (skipBlanks cs)).map skipBlankLines

/-- A string between three quotes, behind them. -/
def scanLong (quote : Char) (escapes : Bool) :
    (bound : Nat) → (gathered : List Char) → Scanner (List Char)
  | 0, _, _ => none
  | _ + 1, _, [] => none
  | bound + 1, gathered, c :: rest =>
    let run := quoteRun quote (c :: rest)
    if 3 ≤ run then
      let kept := min (run - 3) 2
      some (gathered.reverse ++ List.replicate kept quote, (c :: rest).drop (kept + 3))
    else if 0 < run then
      scanLong quote escapes bound (List.replicate run quote ++ gathered) ((c :: rest).drop run)
    else match newline? (c :: rest) with
      | some rest => scanLong quote escapes bound ('\n' :: gathered) rest
      | none =>
        if escapes && c == '\\' then
          match skipContinuation? rest with
          | some rest => scanLong quote escapes bound gathered rest
          | none =>
            match scanEscape rest with
            | some (e, rest) => scanLong quote escapes bound (e :: gathered) rest
            | none => none
        else if isPlain c then scanLong quote escapes bound (c :: gathered) rest
        else none

/-- A string between three quotes, behind them. A line end right behind them is left out. -/
def scanLongString (quote : Char) (escapes : Bool) (cs : List Char) :
    Option (List Char × List Char) :=
  let cs := (newline? cs).getD cs
  scanLong quote escapes (cs.length + 1) [] cs

/-- A string of one line. -/
def scanShortString : Scanner String
  | [] => none
  | c :: rest =>
    if c = '"' then (scanBasic (rest.length + 1) [] rest).map fun r => (String.ofList r.1, r.2)
    else if c = '\x27' then (scanLiteral rest).map fun r => (String.ofList r.1, r.2)
    else none

/-- A string of any form. -/
def scanString (cs : List Char) : Option (String × List Char) :=
  match cs with
  | '"' :: '"' :: '"' :: rest =>
    (scanLongString '"' true rest).map fun r => (String.ofList r.1, r.2)
  | '\x27' :: '\x27' :: '\x27' :: rest =>
    (scanLongString '\x27' false rest).map fun r => (String.ofList r.1, r.2)
  | cs => scanShortString cs

end FuzzCampaign.Toml
