import FuzzCampaign.Json.Fault
import Mathlib.Algebra.Ring.Nat

/-!
What a JSON text is, apart from any way to read it. A value is a tree whose leaves are words, numbers
and strings, each as it is written; its tokens in order, with any blanks around them, are a text of it.
A string is a sequence of glyphs, which say a text unless half of a pair stands alone. A number says a
natural if it is nothing but digits.
-/

namespace FuzzCampaign.Json

/-- A token, by its bytes. -/
abbrev Token := List UInt8

/-! ### Numbers -/

-- by name, so that numerals for digits bring no proofs of their own into definitions
instance neZero_ten : NeZero 10 := ⟨by decide⟩

instance neZero_sixteen : NeZero 16 := ⟨by decide⟩

/-- A decimal digit as it is written. -/
def digitByte (d : Fin 10) : UInt8 := ascii (Nat.digitChar d)

/-- One digit or more. -/
structure Digits where
  first : Fin 10
  more : List (Fin 10)
deriving DecidableEq, Repr

namespace Digits

/-- The digits as they are written. -/
def bytes (d : Digits) : Token := digitByte d.first :: d.more.map digitByte

/-- The natural that the digits say. -/
def value (d : Digits) : Nat := d.more.foldl (fun (n : Nat) (e : Fin 10) => 10 * n + e) d.first

end Digits

/-- The exponent of a number: a mark, a sign or none, and digits. -/
structure Exponent where
  mark : UInt8
  sign : Token
  digits : Digits
  mark_mem : mark ∈ [ascii 'e', ascii 'E']
  sign_mem : sign ∈ [[], [ascii '+'], [ascii '-']]
deriving DecidableEq, Repr

/-- An exponent as it is written. -/
def Exponent.bytes (e : Exponent) : Token := e.mark :: (e.sign ++ e.digits.bytes)

/-- A number. Its whole part starts with zero only if that is all of it. -/
structure NumberToken where
  isNegative : Bool
  whole : Digits
  fraction : Option Digits
  exponent : Option Exponent
  leading : whole.first = 0 → whole.more = []
deriving DecidableEq, Repr

namespace NumberToken

/-- What is written behind the whole part. -/
def endBytes (n : NumberToken) : Token :=
  (match n.fraction with
    | some d => ascii '.' :: d.bytes
    | none => [])
  ++ match n.exponent with
    | some e => e.bytes
    | none => []

/-- A number as it is written. -/
def bytes (n : NumberToken) : Token :=
  (if n.isNegative then [ascii '-'] else []) ++ (n.whole.bytes ++ n.endBytes)

/-- The natural that a number says. Nothing with a sign, a fraction or an exponent says one. -/
def natural? (n : NumberToken) : Option Nat :=
  if n.isNegative ∨ n.fraction.isSome ∨ n.exponent.isSome then none else some n.whole.value

end NumberToken

/-! ### Strings -/

/-- An escape by a letter, and the character that it stands for. -/
inductive Escape where
  | quote
  | backslash
  | slash
  | backspace
  | formFeed
  | lineFeed
  | carriageReturn
  | tab
deriving DecidableEq, Repr

namespace Escape

def letter : Escape → UInt8
  | quote => ascii '"'
  | backslash => ascii '\\'
  | slash => ascii '/'
  | backspace => ascii 'b'
  | formFeed => ascii 'f'
  | lineFeed => ascii 'n'
  | carriageReturn => ascii 'r'
  | tab => ascii 't'

def meaning : Escape → Char
  | quote => '"'
  | backslash => '\\'
  | slash => '/'
  | backspace => '\x08'
  | formFeed => '\x0c'
  | lineFeed => '\n'
  | carriageReturn => '\r'
  | tab => '\t'

end Escape

/-- A digit of base sixteen as it is written. -/
structure HexDigit where
  value : Fin 16
  isUpper : Bool
deriving DecidableEq, Repr

def HexDigit.byte (d : HexDigit) : UInt8 :=
  ascii (if d.isUpper then (Nat.digitChar d.value).toUpper else Nat.digitChar d.value)

/-- Four digits of base sixteen. -/
structure HexUnit where
  first : HexDigit
  second : HexDigit
  third : HexDigit
  fourth : HexDigit
deriving DecidableEq, Repr

namespace HexUnit

def bytes (u : HexUnit) : Token := [u.first.byte, u.second.byte, u.third.byte, u.fourth.byte]

def value (u : HexUnit) : Nat :=
  4096 * u.first.value + 256 * u.second.value + 16 * u.third.value + u.fourth.value

/-- Whether the unit opens a pair. -/
def isHigh (u : HexUnit) : Prop := 0xd800 ≤ u.value ∧ u.value ≤ 0xdbff

/-- Whether the unit closes a pair. -/
def isLow (u : HexUnit) : Prop := 0xdc00 ≤ u.value ∧ u.value ≤ 0xdfff

instance (u : HexUnit) : Decidable u.isHigh := inferInstanceAs (Decidable (_ ∧ _))

instance (u : HexUnit) : Decidable u.isLow := inferInstanceAs (Decidable (_ ∧ _))

/-- The character of a pair. -/
def join (u v : HexUnit) : Char :=
  Char.ofNat (0x10000 + 0x400 * (u.value - 0xd800) + (v.value - 0xdc00))

end HexUnit

/-- Whether a character can be written as it is. -/
def IsPlain (c : Char) : Prop := c ≠ '"' ∧ c ≠ '\\' ∧ 0x20 ≤ c.toNat

instance (c : Char) : Decidable (IsPlain c) := inferInstanceAs (Decidable (_ ∧ _ ∧ _))

/-- A part of a string. -/
inductive Glyph where
  | plain (c : Char) (h : IsPlain c)
  | escape (e : Escape)
  | code (u : HexUnit)
deriving DecidableEq, Repr

def Glyph.bytes : Glyph → Token
  | plain c _ => String.utf8EncodeChar c
  | escape e => [ascii '\\', e.letter]
  | code u => ascii '\\' :: ascii 'u' :: u.bytes

/-- A string between quotes. -/
abbrev StringToken := List Glyph

namespace StringToken

/-- A string as it is written. -/
def bytes (s : StringToken) : Token := ascii '"' :: (s.flatMap Glyph.bytes ++ [ascii '"'])

/-- The characters of a string. A unit that opens a pair is followed by one that closes it, and there
is none of the other. -/
def chars? : StringToken → Option (List Char)
  | [] => some []
  | .plain c _ :: rest => (chars? rest).map (c :: ·)
  | .escape e :: rest => (chars? rest).map (e.meaning :: ·)
  | .code u :: .code v :: rest =>
    if u.isLow then none
    else if u.isHigh then if v.isLow then (chars? rest).map (u.join v :: ·) else none
    else (chars? (.code v :: rest)).map (Char.ofNat u.value :: ·)
  | .code u :: rest =>
    if u.isLow ∨ u.isHigh then none else (chars? rest).map (Char.ofNat u.value :: ·)

/-- The text that a string says, if any. -/
def text? (s : StringToken) : Option String := (chars? s).map String.ofList

end StringToken

/-! ### Values -/

/-- A value as it is written. The members of an object keep their order and may share a key. -/
inductive Value where
  | null
  | boolean (b : Bool)
  | number (n : NumberToken)
  | string (s : StringToken)
  | array (items : List Value)
  | object (members : List (StringToken × Value))

/-- The tokens of elements behind the first one, each with a comma in front of it. -/
def further (elements : List (List Token)) : List Token := elements.flatMap ([ascii ','] :: ·)

/-- Tokens of several elements, divided by commas. -/
def divided : List (List Token) → List Token
  | [] => []
  | ts :: elements => ts ++ further elements

namespace Value

mutual

/-- The tokens of a value in order. -/
def tokens : Value → List Token
  | null => [[ascii 'n', ascii 'u', ascii 'l', ascii 'l']]
  | boolean true => [[ascii 't', ascii 'r', ascii 'u', ascii 'e']]
  | boolean false => [[ascii 'f', ascii 'a', ascii 'l', ascii 's', ascii 'e']]
  | number n => [n.bytes]
  | string s => [s.bytes]
  | array items => [ascii '['] :: (divided (itemTokens items) ++ [[ascii ']']])
  | object members => [ascii '\x7b'] :: (divided (memberTokens members) ++ [[ascii '\x7d']])

/-- The tokens of each element of an array. -/
def itemTokens : List Value → List (List Token)
  | [] => []
  | v :: rest => v.tokens :: itemTokens rest

/-- The tokens of each member of an object. -/
def memberTokens : List (StringToken × Value) → List (List Token)
  | [] => []
  | (k, v) :: rest => (k.bytes :: [ascii ':'] :: v.tokens) :: memberTokens rest

end

theorem itemTokens_eq_map (items : List Value) : itemTokens items = items.map tokens := by
  induction items with
  | nil => rfl
  | cons v rest ih => rw [itemTokens, ih, List.map_cons]

/-- The tokens of a member of an object. -/
def tokensOfMember (m : StringToken × Value) : List Token :=
  m.1.bytes :: [ascii ':'] :: m.2.tokens

theorem memberTokens_eq_map (members : List (StringToken × Value)) :
    memberTokens members = members.map tokensOfMember := by
  induction members with
  | nil => rfl
  | cons m rest ih => rw [memberTokens, ih, List.map_cons, tokensOfMember]

/-- What holds of a value if it holds of all that lie directly in it, holds of every value. -/
@[induction_eliminator]
theorem inductionOn {P : Value → Prop} (v : Value) (null : P null)
    (boolean : ∀ b, P (boolean b)) (number : ∀ n, P (number n)) (string : ∀ s, P (string s))
    (array : ∀ items, (∀ v ∈ items, P v) → P (array items))
    (object : ∀ members : List (StringToken × Value), (∀ m ∈ members, P m.2) → P (object members)) :
    P v :=
  @Value.rec P (fun items => ∀ v ∈ items, P v) (fun members => ∀ m ∈ members, P m.2)
    (fun m => P m.2) null boolean number string array object
    (fun _ h => nomatch h) (fun _ _ hv hrest => List.forall_mem_cons.mpr ⟨hv, hrest⟩)
    (fun _ h => nomatch h) (fun _ _ hm hrest => List.forall_mem_cons.mpr ⟨hm, hrest⟩)
    (fun _ _ hv => hv) v

end Value

/-- The blanks. -/
def blanks : List UInt8 := [ascii ' ', ascii '\n', ascii '\t', ascii '\r']

/-- Whether bytes are tokens in order, with any blanks around each. -/
inductive Spread : List Token → List UInt8 → Prop where
  | nil {gap : List UInt8} (hgap : gap ⊆ blanks) : Spread [] gap
  | cons {gap rest : List UInt8} {t : Token} {ts : List Token} (hgap : gap ⊆ blanks)
      (h : Spread ts rest) : Spread (t :: ts) (gap ++ (t ++ rest))

end FuzzCampaign.Json
