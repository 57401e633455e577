import FuzzCampaign.Json.Text
import FuzzCampaign.Proofs.Json.Tokens

/-!
What strings are read as. Each glyph adds the bytes of its character to what is gathered, and two units
of a pair add those of one. Main statement: a string is read as the text that it says, up to its closing
quote, and one that says none is a fault.
-/

namespace FuzzCampaign.Json

/-- Whether reading gives a value and leaves bytes as stated, or is a fault where there is no value. -/
def Gives {α : Type} (outcome : Except Fault (α × List UInt8)) (value : Option α)
    (left : List UInt8 → Prop) : Prop :=
  match value with
  | some a => ∃ rest, outcome = .ok (a, rest) ∧ left rest
  | none => ∃ fault, outcome = .error fault

namespace Gives

variable {α β : Type} {outcome : Except Fault (α × List UInt8)} {value : Option α}
  {left left' : List UInt8 → Prop}

/-- What is made of the value that is read. -/
theorem map (h : Gives outcome value left) (f : α → β) :
    Gives (match outcome with
      | .error fault => .error fault
      | .ok (a, rest) => .ok (f a, rest)) (value.map f) left := by
  cases value with
  | none =>
    obtain ⟨fault, rfl⟩ := h
    exact ⟨fault, rfl⟩
  | some a =>
    obtain ⟨rest, rfl, hrest⟩ := h
    exact ⟨rest, rfl, hrest⟩

/-- Where more is read behind the value, a fault of the first part is one of the whole. -/
theorem bind {whole : Except Fault (β × List UInt8)} {content : α → Option β}
    (h : Gives outcome value left)
    (hfault : ∀ fault, outcome = .error fault → whole = .error fault)
    (hnext : ∀ a rest, outcome = .ok (a, rest) → value = some a → left rest →
      Gives whole (content a) left') :
    Gives whole (value.bind content) left' := by
  cases value with
  | none =>
    obtain ⟨fault, houtcome⟩ := h
    exact ⟨fault, hfault fault houtcome⟩
  | some a =>
    obtain ⟨rest, houtcome, hrest⟩ := h
    exact hnext a rest houtcome rfl hrest

end Gives

/-! ### Glyphs -/

/-- A byte of a character is the character itself or has its highest bit set. -/
theorem toNat_of_mem_utf8EncodeChar {c : Char} {b : UInt8} (h : b ∈ String.utf8EncodeChar c) :
    b.toNat = c.toNat ∨ 0x80 ≤ b.toNat := by
  change b.toNat = c.val.toNat ∨ 0x80 ≤ b.toNat
  simp only [String.utf8EncodeChar] at h
  generalize c.val.toNat = n at *
  split at h
  · next hn =>
    obtain rfl := List.mem_singleton.mp h
    exact .inl (UInt8.toNat_ofNat_of_lt' (Nat.lt_of_le_of_lt hn (by decide)))
  · right
    have hbyte : ∀ m : Nat, 128 ≤ m → m < 256 → 0x80 ≤ (UInt8.ofNat m).toNat := by
      intro m hm hlt
      rwa [UInt8.toNat_ofNat_of_lt' hlt]
    repeat' split at h
    all_goals
      simp only [List.mem_cons, List.not_mem_nil, or_false] at h
      rcases h with rfl | rfl | rfl | rfl <;> exact hbyte _ (by omega) (by omega)

/-- A byte that stands for itself in a string. -/
def IsPlainByte (b : UInt8) : Prop := b ≠ ascii '"' ∧ b ≠ ascii '\\' ∧ ¬b < 0x20

theorem isPlainByte_of_mem {c : Char} (hc : IsPlain c) {b : UInt8}
    (h : b ∈ String.utf8EncodeChar c) : IsPlainByte b := by
  obtain ⟨hquote, hbackslash, hcontrol⟩ := hc
  rcases toNat_of_mem_utf8EncodeChar h with hself | hhigh
  · refine ⟨?_, ?_, ?_⟩
    · rintro rfl
      exact hquote (Char.toNat_inj.mp hself.symm)
    · rintro rfl
      exact hbackslash (Char.toNat_inj.mp hself.symm)
    · rw [UInt8.lt_iff_toNat_lt, hself, Nat.not_lt]
      exact hcontrol
  · refine ⟨?_, ?_, ?_⟩
    · rintro rfl
      exact absurd hhigh (by decide)
    · rintro rfl
      exact absurd hhigh (by decide)
    · rw [UInt8.lt_iff_toNat_lt, Nat.not_lt]
      exact Nat.le_trans (by decide) hhigh

theorem hexDigit?_byte (d : HexDigit) : hexDigit? d.byte = some d.value.val := by
  have hall : ∀ (value : Fin 16) (isUpper : Bool),
      hexDigit? (HexDigit.mk value isUpper).byte = some value.val := by decide
  exact hall d.value d.isUpper

theorem isLowHalf_iff (u : HexUnit) : isLowHalf u.value ↔ u.isLow := by
  simp only [isLowHalf, HexUnit.isLow, Bool.and_eq_true, decide_eq_true_eq]
  omega

theorem isHighHalf_iff (u : HexUnit) : isHighHalf u.value ↔ u.isHigh := by
  simp only [isHighHalf, HexUnit.isHigh, Bool.and_eq_true, decide_eq_true_eq]
  omega

theorem joinHalves_eq (u v : HexUnit) : joinHalves u.value v.value = u.join v := by
  rw [joinHalves, HexUnit.join, Nat.mul_comm]

section

variable (gathered rest : List UInt8)

theorem scanText_plain {bytes : List UInt8} (h : ∀ b ∈ bytes, IsPlainByte b) :
    scanText gathered .plain (bytes ++ rest)
      = scanText (bytes.reverse ++ gathered) .plain rest := by
  induction bytes generalizing gathered with
  | nil => rfl
  | cons b bytes ih =>
    obtain ⟨⟨hquote, hbackslash, hcontrol⟩, hbytes⟩ := List.forall_mem_cons.mp h
    rw [List.cons_append, scanText, if_neg hquote, if_neg hbackslash, if_neg hcontrol,
      ih _ hbytes, List.reverse_cons, List.append_assoc, List.singleton_append]

theorem scanText_escape (e : Escape) :
    scanText gathered .plain (ascii '\\' :: e.letter :: rest)
      = scanText ((String.utf8EncodeChar e.meaning).reverse ++ gathered) .plain rest := by
  cases e <;> rfl

/-- Four digits are read before it is asked what they mean. -/
theorem scanText_code (high : Option Nat) (u : HexUnit) :
    scanText gathered (.code high 4 (some 0)) (u.bytes ++ rest)
      = match finishCode high (some u.value) with
        | .error cause => faultAt cause rest
        | .ok (bytes, phase) => scanText (bytes.reverse ++ gathered) phase rest := by
  have hvalue : ((u.first.value.val * 16 + u.second.value.val) * 16 + u.third.value.val) * 16
      + u.fourth.value.val = u.value := by
    rw [HexUnit.value]
    omega
  rcases hfinish : finishCode high (some u.value) with cause | ⟨bytes, phase⟩
  · simp [HexUnit.bytes, scanText, hexDigit?_byte, hvalue, hfinish]
  · simp [HexUnit.bytes, scanText, hexDigit?_byte, hvalue, hfinish]

variable {u : HexUnit}

theorem scanText_low (hlow : u.isLow) :
    scanText gathered .plain ((Glyph.code u).bytes ++ rest) = faultAt .lowHalfExpected rest := by
  have hfinish : finishCode none (some u.value) = .error .lowHalfExpected := by
    rw [finishCode, if_pos ((isLowHalf_iff u).mpr hlow)]
  refine (scanText_code gathered rest none u).trans ?_
  rw [hfinish]

theorem scanText_high (hlow : ¬u.isLow) (hhigh : u.isHigh) :
    scanText gathered .plain ((Glyph.code u).bytes ++ rest)
      = scanText gathered (.secondBackslash u.value) rest := by
  have hfinish : finishCode none (some u.value) = .ok ([], .secondBackslash u.value) := by
    rw [finishCode, if_neg (mt (isLowHalf_iff u).mp hlow), if_pos ((isHighHalf_iff u).mpr hhigh)]
  refine (scanText_code gathered rest none u).trans ?_
  rw [hfinish]
  rfl

theorem scanText_single (hlow : ¬u.isLow) (hhigh : ¬u.isHigh) :
    scanText gathered .plain ((Glyph.code u).bytes ++ rest)
      = scanText ((String.utf8EncodeChar (Char.ofNat u.value)).reverse ++ gathered) .plain rest := by
  have hfinish : finishCode none (some u.value)
      = .ok (String.utf8EncodeChar (Char.ofNat u.value), .plain) := by
    rw [finishCode, if_neg (mt (isLowHalf_iff u).mp hlow),
      if_neg (mt (isHighHalf_iff u).mp hhigh)]
  refine (scanText_code gathered rest none u).trans ?_
  rw [hfinish]

/-- Behind a unit that opens a pair, one that closes it completes a character. -/
theorem scanText_second (u v : HexUnit) :
    scanText gathered (.secondBackslash u.value) ((Glyph.code v).bytes ++ rest)
      = if v.isLow then
          scanText ((String.utf8EncodeChar (u.join v)).reverse ++ gathered) .plain rest
        else faultAt .lowHalfExpected rest := by
  refine (scanText_code gathered rest (some u.value) v).trans ?_
  by_cases hlow : v.isLow
  · rw [finishCode, if_pos ((isLowHalf_iff v).mpr hlow), if_pos hlow, joinHalves_eq]
  · rw [finishCode, if_neg (mt (isLowHalf_iff v).mp hlow), if_neg hlow]

/-- A unit that opens a pair must be followed by a unit. -/
theorem scanText_half_alone (high : Nat) {s : StringToken}
    (hs : ∀ u s', s = .code u :: s' → False) :
    ∃ fault, scanText gathered (.secondBackslash high)
      (s.flatMap Glyph.bytes ++ ascii '"' :: rest) = .error fault := by
  match s, hs with
  | [], _ => exact ⟨_, rfl⟩
  | .plain c hc :: s, _ =>
    obtain ⟨b, bytes, hbytes⟩ := List.exists_cons_of_ne_nil (String.utf8EncodeChar_ne_nil (c := c))
    obtain ⟨-, hbackslash, -⟩ := isPlainByte_of_mem hc (hbytes ▸ List.mem_cons_self)
    rw [List.flatMap_cons, Glyph.bytes, hbytes, List.cons_append, List.cons_append, scanText,
      if_neg hbackslash]
    exact ⟨_, rfl⟩
  | .escape e :: s, _ => exact ⟨_, by cases e <;> rfl⟩
  | .code u :: s, hs => exact absurd rfl (hs u s)

end

/-! ### Strings -/

/-- A string is gathered glyph by glyph. -/
theorem gives_scanText (s : StringToken) (gathered rest : List UInt8) :
    Gives (scanText gathered .plain (s.flatMap Glyph.bytes ++ ascii '"' :: rest))
      (s.chars?.map fun cs => gathered.reverse ++ cs.flatMap String.utf8EncodeChar) (· = rest) := by
  have hgather : ∀ (gathered : List UInt8) (c : Char) (chars : Option (List Char)),
      (chars.map (c :: ·)).map (fun cs => gathered.reverse ++ cs.flatMap String.utf8EncodeChar)
        = chars.map fun cs => ((String.utf8EncodeChar c).reverse ++ gathered).reverse
            ++ cs.flatMap String.utf8EncodeChar := by
    intro gathered c chars
    rw [Option.map_map]
    congr 1
    funext cs
    simp
  fun_induction StringToken.chars? s generalizing gathered with
  | case1 => exact ⟨rest, by simp [scanText], rfl⟩
  | case2 c hc s ih =>
    rw [List.flatMap_cons, List.append_assoc, Glyph.bytes,
      scanText_plain _ _ fun b hb => isPlainByte_of_mem hc hb, hgather]
    exact ih _
  | case3 e s ih =>
    rw [List.flatMap_cons, List.append_assoc, Glyph.bytes, List.cons_append, List.cons_append,
      List.nil_append, scanText_escape, hgather]
    exact ih _
  | case4 u v s hlow =>
    rw [List.flatMap_cons, List.append_assoc, scanText_low _ _ hlow]
    exact ⟨_, rfl⟩
  | case5 u v s hlow hhigh hvlow ih =>
    rw [List.flatMap_cons, List.append_assoc, scanText_high _ _ hlow hhigh, List.flatMap_cons,
      List.append_assoc, scanText_second, if_pos hvlow, hgather]
    exact ih _
  | case6 u v s hlow hhigh hvlow =>
    rw [List.flatMap_cons, List.append_assoc, scanText_high _ _ hlow hhigh, List.flatMap_cons,
      List.append_assoc, scanText_second, if_neg hvlow]
    exact ⟨_, rfl⟩
  | case7 u v s hlow hhigh ih =>
    rw [List.flatMap_cons, List.append_assoc, scanText_single _ _ hlow hhigh, hgather]
    exact ih _
  | case8 u s hs hhalf =>
    rw [List.flatMap_cons, List.append_assoc]
    by_cases hlow : u.isLow
    · rw [scanText_low _ _ hlow]
      exact ⟨_, rfl⟩
    · rw [scanText_high _ _ hlow (hhalf.resolve_left hlow)]
      exact scanText_half_alone _ _ _ hs
  | case9 u s hs hhalf ih =>
    rw [not_or] at hhalf
    rw [List.flatMap_cons, List.append_assoc, scanText_single _ _ hhalf.1 hhalf.2, hgather]
    exact ih _

/-- A string is read as the text that it says. -/
theorem gives_readText (s : StringToken) (rest : List UInt8) :
    Gives (readText (s.flatMap Glyph.bytes ++ ascii '"' :: rest)) s.text? (· = rest) := by
  have hscan := gives_scanText s [] rest
  rw [readText, StringToken.text?]
  cases hchars : s.chars? with
  | none =>
    rw [hchars] at hscan
    obtain ⟨fault, hfault⟩ := hscan
    exact ⟨fault, by rw [hfault]⟩
  | some cs =>
    rw [hchars] at hscan
    obtain ⟨_, hok, rfl⟩ := hscan
    have hdecode : Text.decode? (cs.flatMap String.utf8EncodeChar) = some (String.ofList cs) := by
      rw [← Text.decode?_encode (String.ofList cs), Text.encode, String.toList_ofList]
    refine ⟨_, ?_, rfl⟩
    simp only [hok, List.reverse_nil, List.nil_append, hdecode]

end FuzzCampaign.Json
