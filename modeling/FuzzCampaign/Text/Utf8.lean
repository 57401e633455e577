/-!
Text as bytes. Decoding accepts exactly the bytes that encode some text; for other bytes, the part
that could be decoded is the longest run of complete sequences at their start.
-/

namespace FuzzCampaign.Text

/-- The bytes of a text. -/
def encode (s : String) : List UInt8 := s.toList.flatMap String.utf8EncodeChar

/-- The text of the bytes, if they encode one. -/
def decode? (bytes : List UInt8) : Option String := String.fromUTF8? bytes.toByteArray

theorem decode?_encode (s : String) : decode? (encode s) = some s := by
  have h : (encode s).toByteArray = s.toByteArray := String.utf8Encode_toList
  simp only [decode?, String.fromUTF8?, h, s.isValidUTF8, dite_true, Option.some.injEq]
  rfl

/-- A byte that continues a sequence. -/
def isContinuation (b : UInt8) : Bool := 0x80 ≤ b && b < 0xc0

/-- How many bytes the sequence has that stands at the start, if it is complete and well formed. -/
def sequenceLength? : List UInt8 → Option Nat
  | [] => none
  | a :: rest =>
    if a < 0x80 then some 1
    else match rest with
      | [] => none
      | b :: rest =>
        if 0xc2 ≤ a ∧ a < 0xe0 then if isContinuation b then some 2 else none
        else match rest with
          | [] => none
          | c :: rest =>
            if 0xe0 ≤ a ∧ a < 0xf0 then
              if isContinuation b && isContinuation c && (a != 0xe0 || 0xa0 ≤ b)
                && (a != 0xed || b < 0xa0) then some 3 else none
            else match rest with
              | [] => none
              | d :: _ =>
                if 0xf0 ≤ a ∧ a < 0xf5 ∧ isContinuation b ∧ isContinuation c ∧ isContinuation d
                  ∧ (a ≠ 0xf0 ∨ 0x90 ≤ b) ∧ (a ≠ 0xf4 ∨ b < 0x90) then some 4 else none

/-- How many bytes the complete sequences at the start take up, of at most `bound` sequences. -/
def validLength : (bound : Nat) → List UInt8 → Nat
  | 0, _ => 0
  | bound + 1, bytes =>
    match sequenceLength? bytes with
    | some n => n + validLength bound (bytes.drop n)
    | none => 0

/-- How many bytes are left over after the part that can be decoded. -/
def undecodedLength (bytes : List UInt8) : Nat :=
  bytes.length - validLength bytes.length bytes

end FuzzCampaign.Text
