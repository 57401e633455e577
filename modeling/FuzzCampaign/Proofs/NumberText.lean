import FuzzCampaign.Proofs.Json.Writing
import FuzzCampaign.Report.Written

/-!
The numbers of a report are numbers as JSON has them. The digits of a natural start with zero only if
that is all of them, and the shortest decimal of a value is zero only with the exponent zero, so no
layout around the point puts a zero in front of other digits. Main statements: every natural and every
value is written as a number.
-/

namespace FuzzCampaign

open Json

/-! ### Digits -/

/-- Digits as characters. -/
def digitChars (ds : List (Fin 10)) : List Char := ds.map fun (d : Fin 10) => Nat.digitChar d

theorem bytesOf_digitChars (ds : List (Fin 10)) : bytesOf (digitChars ds) = ds.map digitByte := by
  have hdigit : ∀ d : Fin 10, String.utf8EncodeChar (Nat.digitChar d) = [digitByte d] := by decide
  induction ds with
  | nil => rfl
  | cons d ds ih => rw [digitChars, List.map_cons, bytesOf_cons, hdigit, List.map_cons, ← ih]; rfl

/-- The digits of a natural. Only zero itself starts with zero. -/
theorem exists_toDigits (n : Nat) :
    ∃ d ds, Nat.toDigits 10 n = digitChars (d :: ds) ∧ (d = 0 → n = 0 ∧ ds = []) := by
  induction n using Nat.strongRecOn with
  | ind n ih =>
    by_cases hn : n < 10
    · refine ⟨⟨n, hn⟩, [], Nat.toDigits_of_lt_base hn, ?_⟩
      intro hzero
      exact ⟨congrArg Fin.val hzero, rfl⟩
    · have hle : 10 ≤ n := Nat.not_lt.mp hn
      obtain ⟨d, ds, hdigits, hzero⟩ := ih (n / 10) (by omega)
      refine ⟨d, ds ++ [⟨n % 10, Nat.mod_lt n (by decide)⟩], ?_, ?_⟩
      · rw [Nat.toDigits_of_base_le (by decide) hle, hdigits]
        simp [digitChars]
      · intro hd
        obtain ⟨hquotient, -⟩ := hzero hd
        omega

/-- Whether characters are a number without a sign. -/
def IsUnsigned (cs : List Char) : Prop :=
  ∃ n : NumberToken, n.isNegative = false ∧ bytesOf cs = n.bytes

/-- A whole part with a fraction or none and an exponent or none. -/
theorem isUnsigned_of_parts {cs : List Char} {d : Fin 10} {ds : List (Fin 10)}
    (fraction : Option Digits) (exponent : Option Exponent) (hlead : d = 0 → ds = [])
    (h : bytesOf cs = (NumberToken.mk false ⟨d, ds⟩ fraction exponent hlead).bytes) :
    IsUnsigned cs :=
  ⟨_, rfl, h⟩

theorem isUnsigned_toDigits (n : Nat) : IsUnsigned (Nat.toDigits 10 n) := by
  obtain ⟨d, ds, hdigits, hzero⟩ := exists_toDigits n
  refine isUnsigned_of_parts none none (fun hd => (hzero hd).2) ?_
  rw [hdigits, bytesOf_digitChars]
  simp [NumberToken.bytes, Digits.bytes, NumberToken.endBytes]

/-- A sign may stand in front of any number. -/
theorem exists_numberToken {cs : List Char} (h : IsUnsigned cs) (isNegative : Bool) :
    ∃ n : NumberToken, bytesOf ((if isNegative then ['-'] else []) ++ cs) = n.bytes := by
  obtain ⟨n, hn, hbytes⟩ := h
  refine ⟨{ n with isNegative }, ?_⟩
  rw [bytesOf_append, hbytes, NumberToken.bytes, NumberToken.bytes, hn]
  cases isNegative <;> rfl

/-! ### Decimals -/

namespace Decimal

/-- Whether a decimal is zero only with the exponent zero. -/
def IsReduced (d : Decimal) : Prop := d.coefficient = 0 → d.exponent = 0

theorem isReduced_of_ne {d : Decimal} (h : d.coefficient ≠ 0) : d.IsReduced :=
  fun hzero => absurd hzero h

/-- Digits around a point. -/
theorem isUnsigned_point {d : Fin 10} {ds : List (Fin 10)} (es : List (Fin 10))
    (hlead : d = 0 → ds = []) (hne : es ≠ []) :
    IsUnsigned (digitChars (d :: ds) ++ '.' :: digitChars es) := by
  obtain ⟨e, es, rfl⟩ := List.exists_cons_of_ne_nil hne
  refine isUnsigned_of_parts (some ⟨e, es⟩) none hlead ?_
  have hpoint : String.utf8EncodeChar '.' = [ascii '.'] := rfl
  rw [bytesOf_append, bytesOf_cons, bytesOf_digitChars, bytesOf_digitChars, hpoint]
  simp [NumberToken.bytes, Digits.bytes, NumberToken.endBytes]

theorem isUnsigned_positional {d : Decimal} (h : d.IsReduced) : IsUnsigned d.positional.toList := by
  obtain ⟨e, ds, hdigits, hzero⟩ := exists_toDigits d.coefficient
  have hds : d.digits = digitChars (e :: ds) := hdigits
  have hlength : d.digits.length = ds.length + 1 := by simp [hds, digitChars]
  have hzeros : ∀ k, List.replicate k '0' = digitChars (List.replicate k 0) := by
    intro k
    simp [digitChars]
  have happend : ∀ ds es, digitChars (ds ++ es) = digitChars ds ++ digitChars es := by
    intro ds es
    exact List.map_append
  unfold positional
  simp only
  split
  · rw [String.toList_ofList, hds, hzeros, ← happend]
    exact isUnsigned_point (d := 0) _ (fun _ => rfl) (by simp)
  · next hpositive =>
    split
    · next hwhole =>
      rw [String.toList_ofList, hds, hzeros, ← happend, List.cons_append]
      refine isUnsigned_point [0] ?_ (List.cons_ne_nil _ _)
      -- zero has the exponent zero, so no zeros are put behind it
      intro he
      obtain ⟨hcoefficient, rfl⟩ := hzero he
      have hexponent := h hcoefficient
      simp only [pointAt, hlength, hexponent, digitChars] at hwhole ⊢
      simp
    · next hinside =>
      rw [hlength] at hinside
      obtain ⟨k, hk⟩ : ∃ k, d.pointAt.toNat = k + 1 := ⟨d.pointAt.toNat - 1, by omega⟩
      have hlt : k < ds.length := by omega
      rw [String.toList_ofList, hk, hds, digitChars, ← List.map_take, ← List.map_drop,
        List.take_succ_cons, List.drop_succ_cons]
      refine isUnsigned_point _ ?_ (mt List.drop_eq_nil_iff.mp (Nat.not_le.mpr hlt))
      intro he
      obtain ⟨-, rfl⟩ := hzero he
      exact absurd hlt (Nat.not_lt_zero k)

/-- An exponent behind digits, of which all but the first one are a fraction. -/
theorem isUnsigned_exponent {d : Fin 10} (fraction : Option Digits) (mantissa : List Char)
    {sign : List Char} {f : Fin 10} {fs : List (Fin 10)}
    (hmantissa : bytesOf mantissa = digitByte d :: (match fraction with
      | some e => ascii '.' :: e.bytes
      | none => []))
    (hsign : bytesOf sign ∈ [[], [ascii '+'], [ascii '-']]) :
    IsUnsigned (mantissa ++ 'e' :: (sign ++ digitChars (f :: fs))) := by
  refine isUnsigned_of_parts (d := d) fraction
    (some ⟨ascii 'e', bytesOf sign, ⟨f, fs⟩, List.mem_cons_self, hsign⟩) (fun _ => rfl) ?_
  have hmark : String.utf8EncodeChar 'e' = [ascii 'e'] := rfl
  rw [bytesOf_append, hmantissa, bytesOf_cons, bytesOf_append, bytesOf_digitChars, hmark]
  cases fraction <;> simp [NumberToken.bytes, Digits.bytes, NumberToken.endBytes, Exponent.bytes]

theorem isUnsigned_scientific (d : Decimal) : IsUnsigned d.scientific.toList := by
  obtain ⟨e, ds, hdigits, -⟩ := exists_toDigits d.coefficient
  have hds : d.digits = digitChars (e :: ds) := hdigits
  obtain ⟨f, fs, hexponent, -⟩ := exists_toDigits (d.pointAt - 1).natAbs
  have hsign : bytesOf [if d.pointAt - 1 < 0 then '-' else '+'] ∈ [[], [ascii '+'], [ascii '-']] := by
    split <;> decide
  have hone : bytesOf [Nat.digitChar e] = [digitByte e] := bytesOf_digitChars [e]
  rw [scientific, String.toList_ofList, hds, hexponent]
  cases ds with
  | nil => exact isUnsigned_exponent none _ hone hsign
  | cons g gs =>
    refine isUnsigned_exponent (d := e) (some ⟨g, gs⟩)
      (Nat.digitChar e :: '.' :: digitChars (g :: gs)) ?_ hsign
    have hpoint : String.utf8EncodeChar '.' = [ascii '.'] := rfl
    rw [← List.singleton_append, bytesOf_append, hone, bytesOf_cons, bytesOf_digitChars, hpoint]
    rfl

end Decimal

/-! ### Values of 53 significant bits -/

namespace Binary64

open Decimal

theorem interval_low_pos {x : Binary64} (h : x.significand ≠ 0) : 0 < x.interval.low := by
  have hup : 0 < Nat.pow 2 (x.exponent - 2).toNat := Nat.pow_pos (by decide)
  unfold interval
  simp only
  refine Nat.mul_pos ?_ hup
  split <;> omega

/-- Zero does not round to a value other than zero. -/
theorem holds_zero {i : Interval} (h : 0 < i.low) (e : Int) : i.holds 0 e = false := by
  have hunit : 0 < Nat.pow 10 (-e).toNat := Nat.pow_pos (by decide)
  have hlow : 0 < i.low * Nat.pow 10 (-e).toNat := Nat.mul_pos h hunit
  have hle : ¬i.low * Nat.pow 10 (-e).toNat ≤ 0 := Nat.not_le.mpr hlow
  have hlt : ¬i.low * Nat.pow 10 (-e).toNat < 0 := Nat.not_lt_zero _
  simp only [Interval.holds, Nat.zero_mul, hle, hlt, decide_false, Bool.false_and, ite_self]

theorem coefficient_nearest? {tie : Tie} {i : Interval} {e : Int} {d : Decimal} (h : 0 < i.low)
    (hd : i.nearest? tie e = some d) : d.coefficient ≠ 0 := by
  have hzero := holds_zero h e
  unfold Interval.nearest? at hd
  -- the neighbour below is taken only if it rounds to the value, and the one above is no zero
  grind

theorem coefficient_trimZeros {d : Decimal} (bound : Nat) (h : d.coefficient ≠ 0) :
    (trimZeros bound d).coefficient ≠ 0 := by
  fun_induction trimZeros bound d with
  | case1 d => exact h
  | case2 bound d hzero ih => exact ih (by simp only; omega)
  | case3 bound d hzero => exact h

theorem isReduced_shortest (tie : Tie) (x : Binary64) : (x.shortest tie).IsReduced := by
  unfold shortest
  split
  · exact fun _ => rfl
  · next hzero =>
    simp only
    split
    · next d hd =>
      obtain ⟨n, -, hn⟩ := List.exists_of_findSome?_eq_some hd
      have hlow : 0 < x.interval.low := interval_low_pos (by simpa [isZero] using hzero)
      exact isReduced_of_ne (coefficient_trimZeros 17 (coefficient_nearest? hlow hn))
    · exact fun _ => rfl

theorem isUnsigned_reportText (x : Binary64) : IsUnsigned x.reportText.toList := by
  unfold reportText
  split
  · exact isUnsigned_point (d := 0) [0] (fun _ => rfl) (List.cons_ne_nil _ _)
  · simp only
    split
    · exact isUnsigned_positional (isReduced_shortest .toEven x)
    · exact isUnsigned_scientific _

end Binary64

/-! ### What a report writes -/

theorem proper_natural (n : Nat) : Proper (Json.natural n) := by
  obtain ⟨t, -, hbytes⟩ := isUnsigned_toDigits n
  exact .number t ((encode_ofList _).trans hbytes)

theorem proper_percent (p : Percent) : Proper p.json := by
  obtain ⟨t, hbytes⟩ := exists_numberToken (Binary64.isUnsigned_reportText p.magnitude) p.isNegative
  refine .number t ?_
  rw [← hbytes, Signed.reportText, Signed.signText, Text.encode, String.toList_append, bytesOf]
  cases p.isNegative <;> rfl

end FuzzCampaign
