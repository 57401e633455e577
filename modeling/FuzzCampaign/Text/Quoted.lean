import FuzzCampaign.Text.Ignorable
import FuzzCampaign.Text.Mark
import FuzzCampaign.Text.Unprintable

/-!
Quoted text in messages. A quote and a backslash get a backslash in front, the four common control
characters have letters of their own, and whatever else cannot be seen by itself is written by its
number, so a quoted text stays on one line and ends at its first bare quote.
-/

namespace FuzzCampaign.Text

/-- The four control characters that are written by a letter, and the two by themselves. -/
def escapeLetter? : Char → Option Char
  | '"' => some '"'
  | '\\' => some '\\'
  | '\n' => some 'n'
  | '\r' => some 'r'
  | '\t' => some 't'
  | '\x00' => some '0'
  | _ => none

/-- Whether a character cannot be seen by itself: it is drawn on the one before it or not at all. -/
def isHidden (c : Char) : Bool :=
  (isMark c && !isSoundMark c) || isIgnorable c || isUnprintable c

/-- A character as it stands inside quotes. -/
def quotedChar (c : Char) : List Char :=
  match escapeLetter? c with
  | some letter => ['\\', letter]
  | none =>
    if isHidden c then
      '\\' :: 'u' :: '\x7b' :: (Nat.toDigits 16 c.toNat ++ ['\x7d'])
    else [c]

/-- A text between quotes. -/
def quoted (s : String) : String :=
  String.ofList ('"' :: (s.toList.flatMap quotedChar ++ ['"']))

end FuzzCampaign.Text
