import FuzzCampaign.Proofs.Json.Tokens

/-!
Which numbers are read as naturals. Digits are taken into the significand while it fits 64 bits, and a
number with any left over, with a sign, a fraction or an exponent is read as something else. Main
statement: a number in front of bytes that do not go on with it is read as the natural that it says if
this is below `2 ^ 64`, and as no natural otherwise.
-/

namespace FuzzCampaign.Json

/-! ### Digits -/

/-- A text whose first byte, if any, is no digit. -/
theorem splitDigits_of_parted {bytes : List UInt8}
    (h : ∀ b, bytes.head? = some b → ¬isDigit b) : splitDigits bytes = ([], bytes) := by
  cases bytes with
  | nil => rfl
  | cons b rest =>
    have hb := h b rfl
    rw [isDigit, Bool.not_eq_true, Option.isSome_eq_false_iff, Option.isNone_iff_eq_none] at hb
    rw [splitDigits, hb]

theorem splitDigits_append (ds : List (Fin 10)) {bytes : List UInt8}
    (h : ∀ b, bytes.head? = some b → ¬isDigit b) :
    splitDigits (ds.map digitByte ++ bytes) = (ds.map Fin.val, bytes) := by
  induction ds with
  | nil => exact splitDigits_of_parted h
  | cons d ds ih =>
    rw [List.map_cons, List.cons_append, splitDigits, digit?_digitByte, ih]
    rfl

/-- More digits never make a number smaller. -/
theorem le_foldl_digits (s : Nat) (ds : List (Fin 10)) :
    s ≤ ds.foldl (fun (n : Nat) (e : Fin 10) => 10 * n + e) s := by
  induction ds generalizing s with
  | nil => exact Nat.le_refl s
  | cons d ds ih =>
    have hrest := ih (10 * s + d)
    rw [List.foldl_cons]
    omega

/-- The digits are all taken where the number fits, and else some are left over. -/
theorem absorb_digits {s : Nat} (ds : List (Fin 10)) :
    let value := ds.foldl (fun (n : Nat) (e : Fin 10) => 10 * n + e) s
    (value < 2 ^ 64 → absorb s (ds.map Fin.val) = (value, 0)) ∧
      (s < 2 ^ 64 → 2 ^ 64 ≤ value → (absorb s (ds.map Fin.val)).2 ≠ 0) := by
  induction ds generalizing s with
  | nil =>
    refine ⟨fun _ => rfl, ?_⟩
    intro hs hvalue
    exact absurd hs (Nat.not_lt.mpr hvalue)
  | cons d ds ih =>
    obtain ⟨hfits, hover⟩ := ih (s := 10 * s + d)
    have hle := le_foldl_digits (10 * s + d) ds
    simp only [List.foldl_cons, List.map_cons, absorb, Nat.mul_comm s 10, Nat.pow_eq]
    constructor
    · intro hvalue
      rw [if_pos (Nat.lt_of_le_of_lt hle hvalue)]
      exact hfits hvalue
    · intro _ hvalue
      split
      · next hs => exact hover hs hvalue
      · exact Nat.succ_ne_zero _

/-! ### Numbers that say no natural -/

/-- Whether reading a number has not led to a natural. -/
def Unnatural (outcome : Except Fault (Numeral × List UInt8)) : Prop :=
  ∀ k rest, outcome ≠ .ok (.natural k, rest)

theorem unnatural_floatNumeral (isNegative : Bool) (s : Nat) (e : Int) (bytes : List UInt8) :
    Unnatural (floatNumeral isNegative s e bytes) := by
  intro k rest h
  unfold floatNumeral at h
  split at h
  · cases h
  · cases h

theorem unnatural_readExponent (isNegative : Bool) (s : Nat) (e : Int) (bytes : List UInt8) :
    Unnatural (readExponent isNegative s e bytes) := by
  intro k rest h
  unfold readExponent at h
  dsimp only at h
  split at h
  · cases h
  · split at h
    · cases h
    · split at h
      · exact unnatural_floatNumeral _ _ _ _ _ _ h
      · split at h
        · cases h
        · cases h

theorem unnatural_readFloatEnd (isNegative : Bool) (s : Nat) (e : Int) (bytes : List UInt8) :
    Unnatural (readFloatEnd isNegative s e bytes) := by
  unfold readFloatEnd
  split
  · exact unnatural_floatNumeral _ _ _ _
  · split
    · exact unnatural_readExponent _ _ _ _
    · exact unnatural_floatNumeral _ _ _ _

theorem unnatural_readFraction (isNegative : Bool) (s : Nat) (e : Int) (bytes : List UInt8) :
    Unnatural (readFraction isNegative s e bytes) := by
  intro k rest h
  unfold readFraction at h
  split at h
  · cases h
  · cases h
  · exact unnatural_readFloatEnd _ _ _ _ _ _ h

theorem integerNumeral_true_ne (s k : Nat) : integerNumeral true s ≠ .natural k := by
  unfold integerNumeral
  split
  · next h => cases h
  · split
    · exact Numeral.noConfusion
    · exact Numeral.noConfusion

/-- A whole part with a sign, with digits left over or with more behind it says no natural. -/
theorem unnatural_readNumberEnd {isNegative : Bool} {s beyond : Nat} {bytes : List UInt8}
    (h : isNegative = true ∨ beyond ≠ 0 ∨
      ∃ b, bytes.head? = some b ∧ (b = ascii '.' ∨ isExponentMark b)) :
    Unnatural (readNumberEnd isNegative s beyond bytes) := by
  have hwhole : isNegative = true ∨ beyond ≠ 0 → Unnatural (if beyond = 0 then
      .ok (integerNumeral isNegative s, bytes) else floatNumeral isNegative s beyond bytes) := by
    intro h
    split
    · next hbeyond =>
      obtain rfl := h.resolve_right (not_not_intro hbeyond)
      intro k rest heq
      exact integerNumeral_true_ne s k (Prod.mk.inj (Except.ok.inj heq)).1
    · exact unnatural_floatNumeral _ _ _ _
  unfold readNumberEnd
  dsimp only
  split
  · exact hwhole (by simpa using h)
  · next b rest =>
    split
    · exact unnatural_readFraction _ _ _ _
    · next hpoint =>
      split
      · exact unnatural_readExponent _ _ _ _
      · next hmark => exact hwhole (by simpa [hpoint, hmark] using h)

/-! ### The whole part -/

/-- What is read of a whole part, if it does not go on. -/
theorem readMagnitude_digits (isNegative : Bool) {d : Digits} (hlead : d.first = 0 → d.more = [])
    {bytes : List UInt8} (h : ∀ b, bytes.head? = some b → ¬isDigit b) :
    readMagnitude isNegative (d.bytes ++ bytes)
      = readNumberEnd isNegative (absorb d.first (d.more.map Fin.val)).1
          (absorb d.first (d.more.map Fin.val)).2 bytes := by
  obtain ⟨first, more⟩ := d
  simp only [Digits.bytes, List.cons_append, readMagnitude, digit?_digitByte]
  by_cases hzero : first = 0
  · -- a zero is all of the whole part
    obtain rfl : more = [] := hlead hzero
    rw [hzero]
    cases bytes with
    | nil => rfl
    | cons b rest =>
      have hb : isDigit b = false := Bool.eq_false_iff.mpr (h b rfl)
      simp [hb, absorb]
  · cases hfirst : first.val with
    | zero => exact absurd (Fin.ext hfirst) hzero
    | succ m => simp only [splitDigits_append more h]

/-- A whole part that has all its digits and no more behind it is a natural. -/
theorem readNumberEnd_of_parted (s : Nat) {bytes : List UInt8} (h : Parted bytes) :
    readNumberEnd false s 0 bytes = .ok (.natural s, bytes) := by
  unfold readNumberEnd
  cases bytes with
  | nil => rfl
  | cons b rest =>
    obtain ⟨-, hpoint, hmark⟩ := h b rfl
    dsimp only
    rw [if_neg hpoint, if_neg hmark]
    rfl

namespace NumberToken

variable {n : NumberToken} {bytes : List UInt8}

/-- Behind the whole part of a number that says a natural there is nothing, and behind that of any
other one without a sign there is a point or a mark. -/
theorem endBytes_cases (n : NumberToken) (bytes : List UInt8) :
    (n.fraction = none ∧ n.exponent = none ∧ n.endBytes = []) ∨
      ((n.fraction.isSome ∨ n.exponent.isSome) ∧
        ∃ b, (n.endBytes ++ bytes).head? = some b ∧ (b = ascii '.' ∨ isExponentMark b)) := by
  unfold endBytes
  cases n.fraction with
  | some d => exact .inr ⟨.inl rfl, ascii '.', rfl, .inl rfl⟩
  | none =>
    cases n.exponent with
    | none => exact .inl ⟨rfl, rfl, rfl⟩
    | some e =>
      have hmark : isExponentMark e.mark := by
        have hmem := e.mark_mem
        simp only [List.mem_cons, List.not_mem_nil, or_false] at hmem
        rcases hmem with h | h
        · rw [h]
          rfl
        · rw [h]
          rfl
      exact .inr ⟨.inr rfl, e.mark, rfl, .inr hmark⟩

theorem not_isDigit_endBytes (n : NumberToken) (h : Parted bytes) :
    ∀ b, (n.endBytes ++ bytes).head? = some b → ¬isDigit b := by
  intro b hb
  rcases n.endBytes_cases bytes with ⟨-, -, hnil⟩ | ⟨-, c, hc, hpoint⟩
  · rw [hnil] at hb
    exact (h b hb).1
  · obtain rfl := Option.some.inj (hb.symm.trans hc)
    rcases hpoint with rfl | hmark
    · decide
    · rw [isExponentMark, Bool.or_eq_true, beq_iff_eq, beq_iff_eq] at hmark
      rcases hmark with rfl | rfl
      · decide
      · decide

end NumberToken

/-- What a number is read as, in front of bytes that do not go on with it. -/
theorem readNumeral_token (n : NumberToken) {bytes : List UInt8} (h : Parted bytes) :
    (∀ k, n.natural? = some k → k < 2 ^ 64 →
      readNumeral (n.bytes ++ bytes) = .ok (.natural k, bytes)) ∧
    ((∀ k, n.natural? = some k → 2 ^ 64 ≤ k) → Unnatural (readNumeral (n.bytes ++ bytes))) := by
  have hread : readNumeral (n.bytes ++ bytes)
      = readMagnitude n.isNegative (n.whole.bytes ++ (n.endBytes ++ bytes)) := by
    rw [NumberToken.bytes, List.append_assoc, List.append_assoc]
    cases n.isNegative with
    | true => rfl
    | false =>
      have hminus : ∀ d : Fin 10, digitByte d ≠ ascii '-' := by decide
      rw [if_neg Bool.false_ne_true, List.nil_append, Digits.bytes, List.cons_append, readNumeral,
        if_neg (hminus _)]
  rw [hread, readMagnitude_digits n.isNegative n.leading (n.not_isDigit_endBytes h)]
  obtain ⟨hfits, hover⟩ := absorb_digits (s := n.whole.first) n.whole.more
  have hfirst : n.whole.first.val < 2 ^ 64 :=
    Nat.lt_trans n.whole.first.isLt (by decide)
  constructor
  · intro k hk hlt
    rw [NumberToken.natural?] at hk
    split at hk
    · cases hk
    · next hplain =>
      obtain rfl := Option.some.inj hk
      rw [not_or, not_or] at hplain
      obtain ⟨hsign, hfraction, hexponent⟩ := hplain
      rcases n.endBytes_cases bytes with ⟨-, -, hnil⟩ | ⟨hmore, -⟩
      · rw [hfits hlt, hnil, List.nil_append, Bool.eq_false_iff.mpr hsign]
        exact readNumberEnd_of_parted _ h
      · exact absurd hmore (not_or.mpr ⟨hfraction, hexponent⟩)
  · intro hbig
    refine unnatural_readNumberEnd ?_
    by_cases hsign : n.isNegative = true
    · exact .inl hsign
    · rcases n.endBytes_cases bytes with ⟨hfraction, hexponent, -⟩ | ⟨-, hmore⟩
      · -- it says a natural, which is too large
        refine .inr (.inl (hover hfirst (hbig _ ?_)))
        rw [NumberToken.natural?, hfraction, hexponent, if_neg (by simpa using hsign)]
        rfl
      · exact .inr (.inr hmore)

end FuzzCampaign.Json
