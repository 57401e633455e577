import FuzzCampaign.Json.Shape
import FuzzCampaign.Proofs.Json.Numbers
import FuzzCampaign.Proofs.Json.Strings

/-!
What single values are read as. A reader that expects a natural or a string gives what the value says,
and is at fault with a value of any other kind; one that also takes `null` gives nothing for it. Main
statements: this holds of each reader wherever the value stands in a text, and what is left are the
tokens behind it.
-/

namespace FuzzCampaign.Json

/-- Whether a reader, set on a value in a text, gives what is stated and leaves the tokens behind it, or
is at fault if nothing is stated. -/
def ReadsAs {α : Type} (read : Reader α) (v : Value) (content : Option α) : Prop :=
  ∀ ts bytes, Spread (v.tokens ++ ts) bytes → Ends ts → Gives (read bytes) content (Spread ts)

/-- What stands in place of the expected is always a fault. -/
theorem mismatch_eq_error {α : Type} (expected : String) (bytes : List UInt8) :
    ∃ fault, (mismatch expected bytes : Except Fault α) = .error fault := by
  unfold mismatch
  repeat' split
  all_goals exact ⟨_, rfl⟩

namespace Value

/-- The natural below a bound of that many bits that a value says. -/
def natural? (bits : Nat) : Value → Option Nat
  | number n => n.natural?.filter (· < 2 ^ bits)
  | _ => none

/-- The text that a value says. -/
def text? : Value → Option String
  | string s => s.text?
  | _ => none

/-- What a value says where it may be `null`. -/
def nullable {α : Type} (content : Value → Option α) : Value → Option (Option α)
  | null => some none
  | v => (content v).map some

/-- The first token of a value stands behind the blanks. -/
theorem skipBlanks_tokens {v : Value} {ts : List Token} {bytes : List UInt8}
    (h : Spread (v.tokens ++ ts) bytes) :
    ∃ t us rest, v.tokens = (v.lead :: t) :: us ∧ skipBlanks bytes = v.lead :: (t ++ rest) ∧
      Spread (us ++ ts) rest := by
  obtain ⟨t, us, heq⟩ := v.tokens_eq_lead
  rw [heq, List.cons_append] at h
  obtain ⟨rest, hskip, hrest⟩ := h.skipBlanks_eq v.not_isBlank_lead
  exact ⟨t, us, rest, heq, hskip, hrest⟩

end Value

/-! ### Naturals -/

/-- A number that says no natural below `2 ^ 64` says none below a smaller bound. -/
theorem natural?_eq_none {n : NumberToken} {bits : Nat} (hbits : bits ≤ 64)
    (h : ∀ k, n.natural? = some k → 2 ^ 64 ≤ k) : (Value.number n).natural? bits = none := by
  rw [Value.natural?]
  cases hk : n.natural? with
  | none => rfl
  | some k =>
    have hle : 2 ^ bits ≤ k := Nat.le_trans (Nat.pow_le_pow_right (by decide) hbits) (h k hk)
    rw [Option.filter_some, if_neg (by simpa using hle)]

theorem readsAs_natural {bits : Nat} (hbits : bits ≤ 64) (v : Value) :
    ReadsAs (readNatural bits) v (v.natural? bits) := by
  intro ts bytes hspread hends
  obtain ⟨t, us, rest, heq, hskip, hrest⟩ := Value.skipBlanks_tokens hspread
  simp only [readNatural, hskip]
  by_cases hstarts : startsNumber v.lead
  · obtain ⟨n, rfl⟩ := Value.exists_of_startsNumber hstarts
    rw [Value.tokens, List.cons.injEq] at heq
    obtain ⟨hbytes, rfl⟩ := heq
    rw [if_pos hstarts, ← List.cons_append, ← hbytes]
    obtain ⟨hread, hother⟩ := readNumeral_token n (hrest.parted hends)
    by_cases hfits : ∃ k, n.natural? = some k ∧ k < 2 ^ 64
    · obtain ⟨k, hk, hlt⟩ := hfits
      simp only [hread k hk hlt, Value.natural?, hk, Option.filter_some, decide_eq_true_eq,
        Nat.pow_eq]
      split
      · exact ⟨rest, rfl, hrest⟩
      · exact ⟨_, rfl⟩
    · have hbig : ∀ k, n.natural? = some k → 2 ^ 64 ≤ k := by
        intro k hk
        exact Nat.not_lt.mp fun hlt => hfits ⟨k, hk, hlt⟩
      rw [natural?_eq_none hbits hbig]
      -- whatever else the number is read as is at fault
      rcases hnumeral : readNumeral (n.bytes ++ rest) with fault | ⟨k | k | x, left⟩
      · exact ⟨_, rfl⟩
      · exact absurd hnumeral (hother hbig k left)
      · exact ⟨_, rfl⟩
      · exact ⟨_, rfl⟩
  · rw [if_neg hstarts]
    have hnone : v.natural? bits = none := by
      cases v with
      | number n => exact absurd (Value.startsNumber_lead_number n) hstarts
      | null | boolean | string | array | object => rfl
    rw [hnone]
    exact mismatch_eq_error _ _

/-! ### Strings -/

/-- A string is read from behind its opening quote. -/
theorem readText_token {s : StringToken} {t : Token} {ts : List Token} {rest : List UInt8}
    (hbytes : s.bytes = ascii '"' :: t) (hrest : Spread ts rest) :
    Gives (readText (t ++ rest)) s.text? (Spread ts) := by
  rw [StringToken.bytes, List.cons.injEq] at hbytes
  rw [← hbytes.2, List.append_assoc, List.singleton_append]
  have hread := gives_readText s rest
  cases htext : s.text? with
  | none =>
    rw [htext] at hread
    exact hread
  | some text =>
    rw [htext] at hread
    obtain ⟨_, hok, rfl⟩ := hread
    exact ⟨_, hok, hrest⟩

theorem readsAs_string (v : Value) : ReadsAs readString v v.text? := by
  intro ts bytes hspread _
  obtain ⟨t, us, rest, heq, hskip, hrest⟩ := Value.skipBlanks_tokens hspread
  simp only [readString, hskip]
  by_cases hquote : v.lead = ascii '"'
  · obtain ⟨s, rfl⟩ := Value.exists_of_lead_eq_quote hquote
    rw [Value.tokens, List.cons.injEq] at heq
    obtain ⟨hbytes, rfl⟩ := heq
    rw [if_pos hquote]
    exact readText_token hbytes hrest
  · rw [if_neg hquote]
    have hnone : v.text? = none := by
      cases v with
      | string s => exact absurd rfl hquote
      | null | boolean | number | array | object => rfl
    rw [hnone]
    exact mismatch_eq_error _ _

/-! ### Values that may be `null` -/

theorem readsAs_option {α : Type} {read : Reader α} {content : Value → Option α} {v : Value}
    (h : ReadsAs read v (content v)) : ReadsAs (readOption read) v (v.nullable content) := by
  intro ts bytes hspread hends
  obtain ⟨t, us, rest, heq, hskip, hrest⟩ := Value.skipBlanks_tokens hspread
  simp only [readOption, hskip]
  by_cases hn : v.lead = ascii 'n'
  · obtain rfl := Value.eq_null_of_lead_eq hn
    rw [Value.tokens, List.cons.injEq] at heq
    obtain ⟨hbytes, rfl⟩ := heq
    obtain ⟨-, rfl⟩ := List.cons.inj hbytes
    exact ⟨rest, rfl, hrest⟩
  · have hsome : v.nullable content = (content v).map some := by
      cases v with
      | null => exact absurd rfl hn
      | boolean | number | string | array | object => rfl
    have hvalue : Spread (v.tokens ++ ts) (v.lead :: (t ++ rest)) := by
      rw [heq]
      exact .cons (List.nil_subset _) hrest
    rw [if_neg hn, hsome]
    exact (h ts _ hvalue hends).map some

/-! ### Fields -/

theorem readsAs_field {σ α : Type} {read : Reader α} {v : Value} {content : Option α}
    (h : ReadsAs read v content) (name : String) (absence : Absence) (store : σ → α → σ)
    (draft : σ) :
    ReadsAs ((Field.of name absence read store).read draft) v (content.map (store draft)) := by
  intro ts bytes hspread hends
  exact (h ts bytes hspread hends).map (store draft)

end FuzzCampaign.Json
