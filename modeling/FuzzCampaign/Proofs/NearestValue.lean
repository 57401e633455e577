import FuzzCampaign.Number.Signed
import Mathlib.Algebra.Order.Field.Basic
import Mathlib.Algebra.Order.Field.Power
import Mathlib.Algebra.Order.Field.Rat
import Mathlib.Tactic.FieldSimp
import Mathlib.Tactic.Linarith

/-!
Rounding to 53 significant bits, told by its result. A value is a dyadic rational, and a quotient goes
to the nearest of them, which is looked for among all values and not only among its two neighbours. Of
two values that are equally near, the one with the even significand is taken, so at most one value is
the nearest; a value goes to itself, and greater quotients do not go to smaller values. Main statement:
what a quotient of naturals is rounded to is nearest to it.
-/

namespace FuzzCampaign

/-! ### The nearest natural -/

/-- Rounding errs by half of the divisor at most, and by as much only when the result is even. -/
theorem roundHalfEven_bounds (num : Nat) {den : Nat} (h : 0 < den) :
    2 * (roundHalfEven num den * den) ≤ 2 * num + den ∧
      2 * num ≤ 2 * (roundHalfEven num den * den) + den ∧
      (2 * (roundHalfEven num den * den) = 2 * num + den ∨
        2 * num = 2 * (roundHalfEven num den * den) + den → roundHalfEven num den % 2 = 0) := by
  have hnum := Nat.div_add_mod num den
  have hmod := Nat.mod_lt num h
  have hfloor : num / den * den = den * (num / den) := Nat.mul_comm _ _
  have hsucc : (num / den + 1) * den = den * (num / den) + den := by
    rw [Nat.add_mul, Nat.one_mul, hfloor]
  simp only [roundHalfEven]
  split
  · rw [hfloor]
    omega
  · split
    · rw [hsucc]
      omega
    · split
      · rw [hfloor]
        omega
      · rw [hsucc]
        omega

theorem abs_roundHalfEven_sub_le (num : Nat) {den : Nat} (h : 0 < den) :
    |(roundHalfEven num den : ℚ) - num / den| ≤ 1 / 2 := by
  have hden : (0 : ℚ) < den := by exact_mod_cast h
  obtain ⟨hupper, hlower, -⟩ := roundHalfEven_bounds num h
  have hupper' : 2 * ((roundHalfEven num den : ℚ) * den) ≤ 2 * num + den := by exact_mod_cast hupper
  have hlower' : 2 * (num : ℚ) ≤ 2 * (roundHalfEven num den * den) + den := by exact_mod_cast hlower
  rw [sub_div' hden.ne', abs_div, abs_of_pos hden, div_le_iff₀ hden, abs_sub_le_iff]
  constructor
  · linarith
  · linarith

/-- Half way between two naturals the even one is taken. -/
theorem even_roundHalfEven {num den : Nat} (h : 0 < den)
    (htie : |(roundHalfEven num den : ℚ) - num / den| = 1 / 2) : roundHalfEven num den % 2 = 0 := by
  have hden : (0 : ℚ) < den := by exact_mod_cast h
  obtain ⟨-, -, heven⟩ := roundHalfEven_bounds num h
  refine heven ?_
  rw [sub_div' hden.ne', abs_div, abs_of_pos hden, div_eq_div_iff hden.ne' (by norm_num)] at htie
  rcases abs_choice ((roundHalfEven num den : ℚ) * den - num) with habs | habs
  · left
    have : 2 * ((roundHalfEven num den : ℚ) * den) = 2 * num + den := by linarith
    exact_mod_cast this
  · right
    have : 2 * (num : ℚ) = 2 * (roundHalfEven num den * den) + den := by linarith
    exact_mod_cast this

/-- A natural other than one that is near is not nearer. -/
theorem half_le_abs_sub {m k : Nat} {t : ℚ} (hm : |(m : ℚ) - t| ≤ 1 / 2) (hne : k ≠ m) :
    1 / 2 ≤ |(k : ℚ) - t| := by
  have hone : (1 : ℚ) ≤ |(k : ℚ) - m| := by
    have hint : (1 : ℤ) ≤ |(k : ℤ) - m| := Int.one_le_abs (by omega)
    exact_mod_cast hint
  have htriangle := abs_sub_le (k : ℚ) t m
  rw [abs_sub_comm t] at htriangle
  linarith

/-- No natural is nearer than one that is near. -/
theorem abs_sub_le_abs_sub {m : Nat} {t : ℚ} (hm : |(m : ℚ) - t| ≤ 1 / 2) (k : Nat) :
    |(m : ℚ) - t| ≤ |(k : ℚ) - t| := by
  by_cases hk : k = m
  · rw [hk]
  · exact hm.trans (half_le_abs_sub hm hk)

theorem roundHalfEven_eq_of_abs_lt {num den k : Nat} (h : 0 < den)
    (hk : |(k : ℚ) - num / den| < 1 / 2) : roundHalfEven num den = k := by
  by_contra hne
  have := half_le_abs_sub (abs_roundHalfEven_sub_le num h) (Ne.symm hne)
  linarith

namespace Binary64

/-! ### Values as rationals -/

/-- The number that a value stands for. -/
def value (x : Binary64) : ℚ := x.significand * 2 ^ x.exponent

/-- Whether a value has no more than 53 significant bits, of which none is below the least. -/
structure Fits (x : Binary64) : Prop where
  significand_lt : x.significand < significandBound
  least_le : leastExponent ≤ x.exponent

/-- Whether a value is the nearest one to a number. All bits of its significand are in use, as far as
the least exponent admits that. -/
structure IsNearest (q : ℚ) (x : Binary64) : Prop where
  fits : x.Fits
  full : x.exponent = leastExponent ∨ x.significand = 0 ∨ significandBound / 2 ≤ x.significand
  nearest : ∀ y : Binary64, y.Fits → |x.value - q| ≤ |y.value - q|
  even : ∀ y : Binary64, y.Fits → y.value ≠ x.value → |y.value - q| = |x.value - q| → x.significand % 2 = 0

theorem value_nonneg (x : Binary64) : 0 ≤ x.value := by
  unfold value
  positivity

/-- A value other than zero that is not too great is finite. -/
theorem overflows_eq_false {x : Binary64} (hpos : 0 < x.value) (h : x.value ≤ 2 ^ greatestExponent) :
    x.overflows = false := by
  by_contra hoverflows
  have hexponent : greatestExponent < x.exponent := by simpa [overflows] using hoverflows
  have hsignificand : 1 ≤ x.significand := by
    refine Nat.one_le_iff_ne_zero.mpr fun hzero => hpos.ne' ?_
    rw [value, hzero, Nat.cast_zero, zero_mul]
  have hlow : (2 : ℚ) ^ x.exponent ≤ x.value :=
    le_mul_of_one_le_left (by positivity) (by exact_mod_cast hsignificand)
  exact absurd (zpow_lt_zpow_right₀ one_lt_two hexponent) (not_lt.mpr (hlow.trans h))

/-- Scaling a unit by a power of two. -/
theorem two_zpow_mul_pow (e : ℤ) (n : Nat) : (2 : ℚ) ^ e * 2 ^ n = 2 ^ (e + n) := by
  rw [zpow_add₀ two_ne_zero, zpow_natCast]

theorem two_pow_toNat (e : ℤ) : (2 : ℚ) ^ e.toNat = 2 ^ e * 2 ^ (-e).toNat := by
  rw [two_zpow_mul_pow, ← zpow_natCast]
  congr 1
  omega

theorem cast_significandBound : (significandBound : ℚ) = 2 ^ 53 := by
  norm_num [significandBound]

theorem ratio_snd_pos (x : Binary64) : 0 < x.ratio.2 := Nat.pow_pos (by decide)

theorem value_eq_div (x : Binary64) : x.value = x.ratio.1 / x.ratio.2 := by
  have hpos : (0 : ℚ) < 2 ^ (-x.exponent).toNat := by positivity
  simp only [value, ratio, Nat.pow_eq, Nat.cast_mul, Nat.cast_pow, Nat.cast_ofNat]
  rw [two_pow_toNat x.exponent]
  field_simp

variable {num den : Nat} {e : ℤ}

theorem scaled_snd_pos (num : Nat) (h : 0 < den) (e : ℤ) : 0 < (scaled num den e).2 :=
  Nat.mul_pos h (Nat.pow_pos (by decide))

theorem scaled_div (num : Nat) (h : 0 < den) (e : ℤ) :
    ((scaled num den e).1 : ℚ) / (scaled num den e).2 = num / den / 2 ^ e := by
  have hden : (0 : ℚ) < den := by exact_mod_cast h
  have hpos : (0 : ℚ) < 2 ^ (-e).toNat := by positivity
  simp only [scaled, Nat.pow_eq, Nat.cast_mul, Nat.cast_pow, Nat.cast_ofNat]
  rw [two_pow_toNat e]
  field_simp

/-! ### The exponent of a quotient -/

/-- Whether a number is a significand in units of `2 ^ e`, with all bits in use as far as the least
exponent admits that. -/
structure IsScale (q : ℚ) (e : ℤ) : Prop where
  least_le : leastExponent ≤ e
  lt : q / 2 ^ e < 2 ^ 53
  full : e = leastExponent ∨ q = 0 ∨ 2 ^ 52 ≤ q / 2 ^ e

/-- The logarithms of numerator and divisor tell that of the quotient but for one. -/
theorem two_pow_lt_div (hnum : num ≠ 0) (hden : 0 < den) :
    (2 : ℚ) ^ ((Nat.log2 num : ℤ) - Nat.log2 den - 1) < num / den := by
  have hden' : (0 : ℚ) < den := by exact_mod_cast hden
  have hlow : (2 : ℚ) ^ Nat.log2 num ≤ num := by exact_mod_cast Nat.log2_self_le hnum
  have hhigh : (den : ℚ) < 2 ^ (Nat.log2 den + 1) := by exact_mod_cast Nat.lt_log2_self
  rw [lt_div_iff₀ hden']
  calc (2 : ℚ) ^ ((Nat.log2 num : ℤ) - Nat.log2 den - 1) * den
      < 2 ^ ((Nat.log2 num : ℤ) - Nat.log2 den - 1) * 2 ^ (Nat.log2 den + 1) := by gcongr
    _ = 2 ^ Nat.log2 num := by
        rw [two_zpow_mul_pow, ← zpow_natCast]
        congr 1
        push_cast
        omega
    _ ≤ num := hlow

theorem div_lt_two_pow (num : Nat) (hden : 0 < den) :
    (num : ℚ) / den < 2 ^ ((Nat.log2 num : ℤ) - Nat.log2 den + 1) := by
  have hden' : (0 : ℚ) < den := by exact_mod_cast hden
  have hlow : (2 : ℚ) ^ Nat.log2 den ≤ den := by exact_mod_cast Nat.log2_self_le hden.ne'
  have hhigh : (num : ℚ) < 2 ^ (Nat.log2 num + 1) := by exact_mod_cast Nat.lt_log2_self
  rw [div_lt_iff₀ hden']
  calc (num : ℚ) < 2 ^ (Nat.log2 num + 1) := hhigh
    _ = 2 ^ ((Nat.log2 num : ℤ) - Nat.log2 den + 1) * 2 ^ Nat.log2 den := by
        rw [two_zpow_mul_pow, ← zpow_natCast]
        congr 1
        push_cast
        omega
    _ ≤ 2 ^ ((Nat.log2 num : ℤ) - Nat.log2 den + 1) * den := by gcongr

theorem scaled_lt_iff (num : Nat) (h : 0 < den) (e : ℤ) :
    (scaled num den e).1 < (scaled num den e).2 * significandBound ↔
      (num : ℚ) / den / 2 ^ e < 2 ^ 53 := by
  have hpos : (0 : ℚ) < (scaled num den e).2 := by exact_mod_cast scaled_snd_pos num h e
  rw [← scaled_div num h, div_lt_iff₀ hpos, ← cast_significandBound, mul_comm]
  norm_cast

theorem isScale_exponentFor (num : Nat) (h : 0 < den) :
    IsScale (num / den) (exponentFor num den) := by
  obtain ⟨low, hlow⟩ : ∃ low, low = max ((Nat.log2 num : ℤ) - Nat.log2 den - 53) leastExponent :=
    ⟨_, rfl⟩
  have hexponent : exponentFor num den
      = if (num : ℚ) / den / 2 ^ low < 2 ^ 53 then low else low + 1 := by
    simp only [exponentFor, ← hlow, scaled_lt_iff num h]
  have hhalf : (num : ℚ) / den / 2 ^ (low + 1) = num / den / 2 ^ low / 2 := by
    rw [zpow_add_one₀ two_ne_zero, ← div_div]
  have hhigh : (num : ℚ) / den / 2 ^ low < 2 ^ 54 := by
    rw [div_lt_iff₀ (by positivity), mul_comm, two_zpow_mul_pow]
    refine (div_lt_two_pow num h).trans_le (zpow_le_zpow_right₀ one_le_two ?_)
    push_cast
    omega
  rw [hexponent]
  split
  · next hlt =>
    refine ⟨hlow ▸ le_max_right _ _, hlt, ?_⟩
    by_cases hleast : low = leastExponent
    · exact .inl hleast
    · by_cases hnum : num = 0
      · exact .inr (.inl (by simp [hnum]))
      · refine .inr (.inr ?_)
        rw [le_div_iff₀ (by positivity), mul_comm, two_zpow_mul_pow]
        refine le_trans (zpow_le_zpow_right₀ one_le_two ?_) (two_pow_lt_div hnum h).le
        push_cast
        omega
  · next hge =>
    refine ⟨by omega, ?_, .inr (.inr ?_)⟩
    · rw [hhalf]
      linarith
    · rw [hhalf]
      linarith

/-! ### Rounding a significand -/

/-- The value of a rounded significand. One that reaches the bound is carried over. -/
def carried (m : Nat) (e : ℤ) : Binary64 :=
  if m = significandBound then ⟨significandBound / 2, e + 1⟩ else ⟨m, e⟩

theorem ofRatio_eq_carried (num den : Nat) :
    ofRatio num den = carried (roundHalfEven (scaled num den (exponentFor num den)).1
      (scaled num den (exponentFor num den)).2) (exponentFor num den) := rfl

theorem value_carried (m : Nat) (e : ℤ) : (carried m e).value = m * 2 ^ e := by
  unfold carried
  split
  · next hm =>
    have hbound : ((significandBound / 2 : Nat) : ℚ) * 2 = significandBound := by
      norm_num [significandBound]
    rw [value, zpow_add_one₀ two_ne_zero, mul_comm (2 ^ e), ← mul_assoc, hbound, hm]
  · rw [value]

theorem fits_carried {m : Nat} (hm : m ≤ significandBound) (he : leastExponent ≤ e) :
    (carried m e).Fits := by
  unfold carried
  split
  · exact ⟨show significandBound / 2 < significandBound by decide,
      show leastExponent ≤ e + 1 by omega⟩
  · next hne => exact ⟨Nat.lt_of_le_of_ne hm hne, he⟩

theorem full_carried {m : Nat} (h : e = leastExponent ∨ m = 0 ∨ significandBound / 2 ≤ m) :
    (carried m e).exponent = leastExponent ∨ (carried m e).significand = 0 ∨
      significandBound / 2 ≤ (carried m e).significand := by
  unfold carried
  split
  · exact .inr (.inr le_rfl)
  · exact h

theorem even_carried {m : Nat} (h : m % 2 = 0) : (carried m e).significand % 2 = 0 := by
  unfold carried
  split
  · exact show significandBound / 2 % 2 = 0 by decide
  · exact h

/-- Distances in units of `2 ^ e`. -/
theorem abs_sub_eq (v q : ℚ) (e : ℤ) : |v - q| = |v / 2 ^ e - q / 2 ^ e| * 2 ^ e := by
  have hpos : (0 : ℚ) < 2 ^ e := by positivity
  rw [← sub_div, abs_div, abs_of_pos hpos, div_mul_cancel₀ _ hpos.ne']

/-- A value whose last bit is no smaller than a unit is a natural in such units. -/
theorem value_eq_units {x : Binary64} (h : e ≤ x.exponent) :
    x.value = (x.significand * 2 ^ (x.exponent - e).toNat : Nat) * 2 ^ e := by
  have hsplit : (2 : ℚ) ^ x.exponent = 2 ^ (x.exponent - e).toNat * 2 ^ e := by
    rw [mul_comm, two_zpow_mul_pow]
    congr 1
    omega
  rw [value, hsplit, ← mul_assoc]
  push_cast
  rfl

/-- No value comes nearer to a number than the naturals do, in the units of that number's scale. -/
theorem exists_nat_nearer {q : ℚ} {y : Binary64} (hq : IsScale q e) (hy : y.Fits) :
    ∃ k : Nat, (k : ℚ) = y.value / 2 ^ e ∨
      |(k : ℚ) - q / 2 ^ e| < |y.value / 2 ^ e - q / 2 ^ e| := by
  have hpos : (0 : ℚ) < 2 ^ e := by positivity
  by_cases hexponent : e ≤ y.exponent
  · refine ⟨y.significand * 2 ^ (y.exponent - e).toNat, .inl ?_⟩
    rw [value_eq_units hexponent, mul_div_cancel_right₀ _ hpos.ne']
  · have hleast := hy.least_le
    rcases hq.full with hfull | hzero | hfull
    · omega
    · by_cases hvalue : y.value = 0
      · exact ⟨0, .inl (by simp [hvalue])⟩
      · refine ⟨0, .inr ?_⟩
        simpa [hzero, hpos.ne'] using hvalue
    · -- any other one lies below the least significand that has all bits in use
      refine ⟨2 ^ 52, .inr ?_⟩
      have hsmall : y.value / 2 ^ e < 2 ^ 52 := by
        have hlt : (y.significand : ℚ) < 2 ^ 53 := by
          rw [← cast_significandBound]
          exact_mod_cast hy.significand_lt
        have hunit : (2 : ℚ) ^ e = 2 ^ (e - 1) * 2 := by
          rw [← zpow_add_one₀ two_ne_zero, sub_add_cancel]
        rw [div_lt_iff₀ hpos]
        calc y.value ≤ y.significand * 2 ^ (e - 1) := by
              unfold value
              gcongr
              · exact one_le_two
              · omega
          _ < 2 ^ 53 * 2 ^ (e - 1) := by gcongr
          _ = 2 ^ 52 * 2 ^ e := by
              rw [hunit]
              linarith
      have hcast : ((2 ^ 52 : Nat) : ℚ) = 2 ^ 52 := by norm_num
      rw [hcast, abs_of_nonpos (by linarith), abs_of_nonpos (by linarith)]
      linarith

/-- Rounding the significand alone gives the nearest value. -/
theorem isNearest_carried {q : ℚ} {m : Nat} (hq : IsScale q e)
    (hm : |(m : ℚ) - q / 2 ^ e| ≤ 1 / 2)
    (htie : |(m : ℚ) - q / 2 ^ e| = 1 / 2 → m % 2 = 0) : IsNearest q (carried m e) := by
  have hpos : (0 : ℚ) < 2 ^ e := by positivity
  have hunits : (carried m e).value / 2 ^ e = m := by
    rw [value_carried, mul_div_cancel_right₀ _ hpos.ne']
  obtain ⟨hupper, hlower⟩ := abs_sub_le_iff.mp hm
  constructor
  case fits =>
    have hle : (m : ℚ) < 2 ^ 53 + 1 := by linarith [hq.lt]
    exact fits_carried (Nat.lt_succ_iff.mp (by exact_mod_cast hle)) hq.least_le
  case full =>
    refine full_carried (hq.full.imp_right (Or.imp ?_ ?_))
    · intro hzero
      rw [hzero, zero_div] at hupper
      have hlt : (m : ℚ) < 1 := by linarith
      exact Nat.lt_one_iff.mp (by exact_mod_cast hlt)
    · intro hfull
      have hlt : (2 : ℚ) ^ 52 < m + 1 := by linarith
      exact Nat.lt_succ_iff.mp (by exact_mod_cast hlt)
  case nearest =>
    intro y hy
    rw [abs_sub_eq _ q e, abs_sub_eq y.value q e, hunits]
    gcongr ?_ * _
    obtain ⟨k, hk | hk⟩ := exists_nat_nearer hq hy
    · exact hk ▸ abs_sub_le_abs_sub hm k
    · exact (abs_sub_le_abs_sub hm k).trans hk.le
  case even =>
    intro y hy hne heq
    rw [abs_sub_eq _ q e, abs_sub_eq (carried m e).value q e, hunits] at heq
    have hdistance := mul_right_cancel₀ hpos.ne' heq
    refine even_carried (htie ?_)
    obtain ⟨k, hk | hk⟩ := exists_nat_nearer hq hy
    · have hkm : k ≠ m := by
        rintro rfl
        refine hne ?_
        rw [value_carried, hk, div_mul_cancel₀ _ hpos.ne']
      rw [← hk] at hdistance
      exact le_antisymm hm (hdistance ▸ half_le_abs_sub hm hkm)
    · exact absurd (abs_sub_le_abs_sub hm k) (by linarith)

/-- A quotient of naturals is rounded to the nearest value. -/
theorem isNearest_ofRatio (num : Nat) (h : 0 < den) : IsNearest (num / den) (ofRatio num den) := by
  have hpos := scaled_snd_pos num h (exponentFor num den)
  rw [ofRatio_eq_carried]
  refine isNearest_carried (isScale_exponentFor num h) ?_ ?_
  · rw [← scaled_div num h]
    exact abs_roundHalfEven_sub_le _ hpos
  · rw [← scaled_div num h]
    exact even_roundHalfEven hpos

theorem isNearest_ofNat (n : Nat) : IsNearest n (ofNat n) := by
  have hratio := isNearest_ofRatio n Nat.one_pos
  rwa [Nat.cast_one, div_one] at hratio

theorem isNearest_div (x : Binary64) {y : Binary64} (h : y.value ≠ 0) :
    IsNearest (x.value / y.value) (x.div y) := by
  have hnum : y.ratio.1 ≠ 0 := by
    intro hzero
    rw [value_eq_div, hzero, Nat.cast_zero, zero_div] at h
    exact h rfl
  have hratio := isNearest_ofRatio (x.ratio.1 * y.ratio.2)
    (Nat.mul_pos x.ratio_snd_pos (Nat.pos_of_ne_zero hnum))
  rw [value_eq_div, value_eq_div, div_div_div_eq]
  exact_mod_cast hratio

/-! ### What being nearest says -/

/-- What is no nearer to the greater of two numbers lies below their middle. -/
theorem two_mul_le_add {a b q : ℚ} (h : a < b) (hnear : |a - q| ≤ |b - q|) : 2 * q ≤ a + b := by
  have hlow := neg_abs_le (a - q)
  rcases abs_choice (b - q) with hb | hb
  · linarith
  · linarith

theorem add_le_two_mul {a b q : ℚ} (h : a < b) (hnear : |b - q| ≤ |a - q|) : a + b ≤ 2 * q := by
  have hhigh := le_abs_self (b - q)
  rcases abs_choice (a - q) with ha | ha
  · linarith
  · linarith

theorem units_lt_iff (k l : Nat) (e : ℤ) : (k : ℚ) * 2 ^ e < l * 2 ^ e ↔ k < l := by
  rw [mul_lt_mul_iff_of_pos_right (by positivity), Nat.cast_lt]

/-- An even significand leads to an even number of smaller units. -/
theorem exists_even_units {x : Binary64} (h : e ≤ x.exponent) (heven : x.significand % 2 = 0) :
    ∃ k : Nat, k % 2 = 0 ∧ x.value = k * 2 ^ e :=
  ⟨_, by rw [Nat.mul_mod, heven, Nat.zero_mul, Nat.zero_mod], value_eq_units h⟩

namespace IsNearest

variable {p q : ℚ} {x y : Binary64}

/-- A value is nearest to itself alone. -/
theorem value_eq (hy : y.Fits) (h : IsNearest y.value x) : x.value = y.value := by
  have hnear := h.nearest y hy
  rw [sub_self, abs_zero] at hnear
  exact sub_eq_zero.mp (abs_nonpos_iff.mp hnear)

/-- Zero is a value, so rounding errs by no more than all of a number. -/
theorem value_le_two_mul (hx : IsNearest q x) (hq : 0 ≤ q) : x.value ≤ 2 * q := by
  have hzero : value ⟨0, 0⟩ = 0 := by simp [value]
  have hnear := hx.nearest ⟨0, 0⟩ ⟨by decide, by decide⟩
  rw [hzero, zero_sub, abs_neg, abs_of_nonneg hq] at hnear
  linarith [le_abs_self (x.value - q)]

/-- No value lies between two that are nearest to one number. -/
theorem not_between (hx : IsNearest q x) (hy : IsNearest q y) {z : Binary64} (hz : z.Fits)
    (hlow : x.value < z.value) : ¬z.value < y.value := by
  intro hhigh
  have hbelow := two_mul_le_add hlow (hx.nearest z hz)
  have habove := add_le_two_mul hhigh (hy.nearest z hz)
  linarith

/-- Ties are decided, so no two values are nearest to one number. -/
theorem value_unique (hx : IsNearest q x) (hy : IsNearest q y) : x.value = y.value := by
  by_contra hne
  wlog hlt : x.value < y.value generalizing x y
  · exact this hy hx (Ne.symm hne) (lt_of_le_of_ne (not_lt.mp hlt) (Ne.symm hne))
  have htie := le_antisymm (hy.nearest x hx.fits) (hx.nearest y hy.fits)
  have hxeven := hx.even y hy.fits (Ne.symm hne) htie
  have hyeven := hy.even x hx.fits hne htie.symm
  have hxlt : x.significand < significandBound := hx.fits.significand_lt
  have hylt : y.significand < significandBound := hy.fits.significand_lt
  have hbound : significandBound % 2 = 0 := by decide
  -- in the smaller of the two units both are even, so another value lies between them
  rcases le_total x.exponent y.exponent with hle | hle
  · obtain ⟨k, hk, hvalue⟩ := exists_even_units hle hyeven
    rw [hvalue, value, units_lt_iff] at hlt
    have hz : Fits ⟨x.significand + 1, x.exponent⟩ :=
      ⟨show x.significand + 1 < significandBound by omega, hx.fits.least_le⟩
    refine hx.not_between hy hz ((units_lt_iff _ _ _).mpr (Nat.lt_succ_self _)) ?_
    rw [hvalue]
    exact (units_lt_iff _ _ _).mpr (show x.significand + 1 < k by omega)
  · obtain ⟨k, hk, hvalue⟩ := exists_even_units hle hxeven
    rw [hvalue, value, units_lt_iff] at hlt
    have hz : Fits ⟨k + 1, y.exponent⟩ :=
      ⟨show k + 1 < significandBound by omega, hy.fits.least_le⟩
    refine hx.not_between hy hz ?_ ((units_lt_iff _ _ _).mpr (show k + 1 < y.significand by omega))
    rw [hvalue]
    exact (units_lt_iff _ _ _).mpr (Nat.lt_succ_self k)

/-- Greater numbers are not nearest to smaller values. -/
theorem value_le_value (hx : IsNearest p x) (hy : IsNearest q y) (h : p ≤ q) :
    x.value ≤ y.value := by
  rcases h.eq_or_lt with rfl | hlt
  · exact (hx.value_unique hy).le
  · by_contra! hgreater
    have hlow := two_mul_le_add hgreater (hy.nearest x hx.fits)
    have hhigh := add_le_two_mul hgreater (hx.nearest y hy.fits)
    linarith

end IsNearest

end Binary64

end FuzzCampaign
