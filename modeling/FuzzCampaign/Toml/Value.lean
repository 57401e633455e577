import FuzzCampaign.Number.Signed
import FuzzCampaign.Text.Quoted

/-!
The tree of a TOML document. Tables keep their keys in order and have none twice. A date or a time is
a value of its own, of which only its kind is kept.
-/

namespace FuzzCampaign.Toml

/-- A number with a fraction or an exponent, or one of the special ones. -/
inductive Real where
  | notANumber
  | infinite (isNegative : Bool)
  | finite (value : Signed)
deriving DecidableEq, Repr

/-- The text of a number in a message. -/
def Real.text : Real → String
  | notANumber => "NaN"
  | infinite isNegative => if isNegative then "-inf" else "inf"
  | finite value => value.plainText

/-- A value of a document. -/
inductive Value where
  | string (text : String)
  | integer (value : Int)
  | real (value : Real)
  | boolean (value : Bool)
  | datetime
  | array (items : List Value)
  | table (entries : List (String × Value))

/-- The text of a whole number with its sign. -/
def intText (n : Int) : String := (if n < 0 then "-" else "") ++ natText n.natAbs

/-- What a value is, in a message. A date is named like a table. -/
def Value.description : Value → String
  | string text => "string " ++ Text.quoted text
  | integer value => "integer `" ++ intText value ++ "`"
  | real value => "floating point `" ++ value.text ++ "`"
  | boolean value => "boolean `" ++ (if value then "true" else "false") ++ "`"
  | datetime => "map"
  | array _ => "sequence"
  | table _ => "map"

end FuzzCampaign.Toml
