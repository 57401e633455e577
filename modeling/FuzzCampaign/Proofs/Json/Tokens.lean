import FuzzCampaign.Json.Numeral
import FuzzCampaign.Proofs.Json.Grammar

/-!
How the tokens of a text are found. Passing over blanks leads to the first byte of the next token, and
the first byte of a value tells what kind of value it is. Behind a value comes a comma, the end of a
container or the end of the text, so what follows a number does not go on with it.
-/

namespace FuzzCampaign.Json

/-! ### Blanks -/

theorem isBlank_iff {b : UInt8} : isBlank b ↔ b ∈ blanks := by
  simp only [isBlank, blanks, Bool.or_eq_true, beq_iff_eq, List.mem_cons, List.not_mem_nil,
    or_false, or_assoc]

theorem skipBlanks_append {gap : List UInt8} (hgap : gap ⊆ blanks) (rest : List UInt8) :
    skipBlanks (gap ++ rest) = skipBlanks rest := by
  refine List.dropWhile_append_of_pos ?_
  intro b hb
  exact isBlank_iff.mpr (hgap hb)

theorem skipBlanks_cons {b : UInt8} (hb : ¬isBlank b) (rest : List UInt8) :
    skipBlanks (b :: rest) = b :: rest :=
  List.dropWhile_cons_of_neg hb

namespace Spread

variable {bytes t : List UInt8} {ts : List Token} {b : UInt8}

theorem nil_iff : Spread [] bytes ↔ bytes ⊆ blanks := by
  constructor
  · rintro ⟨hgap⟩
    exact hgap
  · exact Spread.nil

theorem cons_iff : Spread (t :: ts) bytes ↔
    ∃ gap rest, gap ⊆ blanks ∧ bytes = gap ++ (t ++ rest) ∧ Spread ts rest := by
  constructor
  · rintro (_ | ⟨hgap, h⟩)
    exact ⟨_, _, hgap, rfl, h⟩
  · rintro ⟨gap, rest, hgap, rfl, h⟩
    exact .cons hgap h

/-- Nothing but blanks is left behind the last token. -/
theorem skipBlanks_nil (h : Spread [] bytes) : skipBlanks bytes = [] := by
  have hpass := skipBlanks_append (nil_iff.mp h) []
  rwa [List.append_nil] at hpass

/-- The next token is what the blanks lead to. -/
theorem skipBlanks_eq (h : Spread ((b :: t) :: ts) bytes) (hb : ¬isBlank b) :
    ∃ rest, skipBlanks bytes = b :: (t ++ rest) ∧ Spread ts rest := by
  obtain ⟨gap, rest, hgap, rfl, hrest⟩ := cons_iff.mp h
  refine ⟨rest, ?_, hrest⟩
  rw [skipBlanks_append hgap, List.cons_append, skipBlanks_cons hb]

/-- The blanks in front of the tokens can be passed over beforehand. -/
theorem of_skipBlanks (h : Spread ((b :: t) :: ts) bytes) (hb : ¬isBlank b) :
    Spread ((b :: t) :: ts) (skipBlanks bytes) := by
  obtain ⟨rest, heq, hrest⟩ := h.skipBlanks_eq hb
  rw [heq]
  exact .cons (List.nil_subset _) hrest

/-- Tokens with the same blanks in front of each. -/
theorem flatMap {gap : List UInt8} (hgap : gap ⊆ blanks) (ts : List Token) :
    Spread ts (ts.flatMap (gap ++ ·)) := by
  induction ts with
  | nil => exact .nil (List.nil_subset _)
  | cons t ts ih =>
    rw [List.flatMap_cons, List.append_assoc]
    exact .cons hgap ih

end Spread

/-! ### First bytes -/

theorem digit?_digitByte (d : Fin 10) : digit? (digitByte d) = some d.val := by
  revert d
  decide

theorem isDigit_digitByte (d : Fin 10) : isDigit (digitByte d) := by
  rw [isDigit, digit?_digitByte, Option.isSome_some]

namespace Value

/-- The first byte of a value. -/
def lead : Value → UInt8
  | null => ascii 'n'
  | boolean true => ascii 't'
  | boolean false => ascii 'f'
  | number n => if n.isNegative then ascii '-' else digitByte n.whole.first
  | string _ => ascii '"'
  | array _ => ascii '['
  | object _ => ascii '\x7b'

theorem tokens_eq_lead (v : Value) : ∃ t ts, v.tokens = (v.lead :: t) :: ts := by
  cases v with
  | null => exact ⟨_, _, rfl⟩
  | boolean b => cases b <;> exact ⟨_, _, rfl⟩
  | number n =>
    refine ⟨n.bytes.tail, [], ?_⟩
    rw [tokens, lead, NumberToken.bytes]
    cases n.isNegative <;> rfl
  | string s => exact ⟨_, _, rfl⟩
  | array items => exact ⟨_, _, rfl⟩
  | object members => exact ⟨_, _, rfl⟩

theorem startsNumber_lead_number (n : NumberToken) : startsNumber (number n).lead := by
  rw [lead]
  cases n.isNegative
  · rw [if_neg Bool.false_ne_true, startsNumber, isDigit_digitByte, Bool.or_true]
  · rw [if_pos rfl]
    decide

theorem lead_number_ne (n : NumberToken) {b : UInt8} (hb : startsNumber b = false) :
    (number n).lead ≠ b := by
  rintro rfl
  rw [startsNumber_lead_number] at hb
  cases hb

theorem not_isBlank_lead (v : Value) : ¬isBlank v.lead := by
  cases v with
  | number n =>
    intro hblank
    have hnumber : ∀ b ∈ blanks, startsNumber b = false := by
      simp only [blanks, List.forall_mem_cons]
      exact ⟨rfl, rfl, rfl, rfl, fun _ h => nomatch h⟩
    exact lead_number_ne n (hnumber _ (isBlank_iff.mp hblank)) rfl
  | boolean b => cases b <;> exact of_decide_eq_true rfl
  | null | string | array | object => exact of_decide_eq_true rfl

theorem lead_ne_listEnd (v : Value) : v.lead ≠ ascii ']' := by
  cases v with
  | number n => exact lead_number_ne n rfl
  | boolean b => cases b <;> exact of_decide_eq_true rfl
  | null | string | array | object => exact of_decide_eq_true rfl

/-- Only a number starts with a sign or a digit. -/
theorem exists_of_startsNumber {v : Value} (h : startsNumber v.lead) : ∃ n, v = number n := by
  cases v with
  | number n => exact ⟨n, rfl⟩
  | boolean b => cases b <;> cases h
  | null | string | array | object => cases h

/-- Only a string starts with a quote. -/
theorem exists_of_lead_eq_quote {v : Value} (h : v.lead = ascii '"') : ∃ s, v = string s := by
  cases v with
  | string s => exact ⟨s, rfl⟩
  | number n => exact absurd h (lead_number_ne n rfl)
  | boolean b => cases b <;> cases h
  | null | array | object => cases h

/-- Only `null` starts with its letter. -/
theorem eq_null_of_lead_eq {v : Value} (h : v.lead = ascii 'n') : v = null := by
  cases v with
  | null => rfl
  | number n => exact absurd h (lead_number_ne n rfl)
  | boolean b => cases b <;> cases h
  | string | array | object => cases h

/-- Only an array starts with its opening. -/
theorem exists_of_lead_eq_listStart {v : Value} (h : v.lead = ascii '[') : ∃ items, v = array items := by
  cases v with
  | array items => exact ⟨items, rfl⟩
  | number n => exact absurd h (lead_number_ne n rfl)
  | boolean b => cases b <;> cases h
  | null | string | object => cases h

/-- Only an object starts with its opening. -/
theorem exists_of_lead_eq_objectStart {v : Value} (h : v.lead = ascii '\x7b') :
    ∃ members, v = object members := by
  cases v with
  | object members => exact ⟨members, rfl⟩
  | number n => exact absurd h (lead_number_ne n rfl)
  | boolean b => cases b <;> cases h
  | null | string | array => cases h

end Value

/-! ### What follows a value -/

/-- The bytes that can follow a value, apart from blanks. -/
def delimiters : List UInt8 := [ascii ',', ascii ']', ascii '\x7d']

/-- Whether tokens that follow a value start with a comma or the end of a container, if at all. -/
def Ends : List Token → Prop
  | [] => True
  | t :: _ => ∃ b ∈ delimiters, t = [b]

/-- Whether bytes do not go on with a number that ends in front of them. -/
def Parted (bytes : List UInt8) : Prop :=
  ∀ b, bytes.head? = some b → ¬isDigit b ∧ b ≠ ascii '.' ∧ ¬isExponentMark b

theorem Spread.parted {ts : List Token} {bytes : List UInt8} (h : Spread ts bytes)
    (hends : Ends ts) : Parted bytes := by
  have hpart : ∀ b ∈ blanks ++ delimiters,
      ¬isDigit b ∧ b ≠ ascii '.' ∧ ¬isExponentMark b := by
    simp only [blanks, delimiters, List.cons_append, List.nil_append, List.forall_mem_cons]
    refine ⟨?_, ?_, ?_, ?_, ?_, ?_, ?_, fun _ h => nomatch h⟩
    all_goals decide
  intro b hb
  have hmem : b ∈ blanks ++ delimiters := by
    cases h with
    | nil hgap =>
      obtain ⟨rest, rfl⟩ := List.head?_eq_some_iff.mp hb
      exact List.mem_append_left _ (hgap List.mem_cons_self)
    | @cons gap rest t ts hgap h =>
      obtain ⟨c, hc, rfl⟩ := hends
      cases gap with
      | nil =>
        obtain rfl := Option.some.inj hb
        exact List.mem_append_right _ hc
      | cons d gap =>
        obtain rfl := Option.some.inj hb
        exact List.mem_append_left _ (hgap List.mem_cons_self)
  exact hpart b hmem

end FuzzCampaign.Json
