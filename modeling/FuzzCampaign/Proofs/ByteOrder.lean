import FuzzCampaign.Text.Utf8

/-!
Texts are ordered as their UTF-8 bytes are. The first byte of a character tells how many bytes follow,
and a longer sequence starts with a greater byte, so two characters differ in their bytes where they
first differ in their bits. Main statement: encoding keeps the order and brings it back.
-/

namespace FuzzCampaign.Text

theorem byte_lt_iff {m n : Nat} (hm : m < 256) (hn : n < 256) :
    UInt8.ofNat m < UInt8.ofNat n ↔ m < n := by
  rw [UInt8.lt_iff_toNat_lt, UInt8.toNat_ofNat_of_lt' hm, UInt8.toNat_ofNat_of_lt' hn]

theorem byte_inj {m n : Nat} (hm : m < 256) (hn : n < 256) :
    UInt8.ofNat m = UInt8.ofNat n ↔ m = n := by
  rw [← UInt8.toNat_inj, UInt8.toNat_ofNat_of_lt' hm, UInt8.toNat_ofNat_of_lt' hn]

/-- A character that comes earlier has the earlier bytes, whatever follows the two. -/
theorem encodeChar_append_lt {c d : Char} (h : c < d) (s t : List UInt8) :
    String.utf8EncodeChar c ++ s < String.utf8EncodeChar d ++ t := by
  have hcd : c.val.toNat < d.val.toNat := h
  have hd : d.val.toNat < 0x110000 := by
    rcases d.valid with hv | hv
    · exact Nat.lt_trans hv (by decide)
    · exact hv.2
  simp only [String.utf8EncodeChar]
  generalize c.val.toNat = a at *
  generalize d.val.toNat = b at *
  -- no code point is high enough for the lead byte of four to lose a bit
  have ha : a / 262144 % 8 = a / 262144 := by omega
  have hb : b / 262144 % 8 = b / 262144 := by omega
  repeat' split
  all_goals
    simp (disch := omega) only [List.cons_append, List.nil_append, List.cons_lt_cons_iff,
      byte_lt_iff, byte_inj]
    omega

theorem flatMap_encodeChar_lt : ∀ {l m : List Char}, l < m →
    l.flatMap String.utf8EncodeChar < m.flatMap String.utf8EncodeChar
  | _, [], h => absurd h (List.not_lt_nil _)
  | [], d :: m, _ => by
    rw [List.flatMap_nil, List.flatMap_cons]
    cases hd : String.utf8EncodeChar d with
    | nil => exact absurd hd String.utf8EncodeChar_ne_nil
    | cons b bs => exact List.nil_lt_cons b _
  | c :: l, d :: m, h => by
    rw [List.flatMap_cons, List.flatMap_cons]
    rcases List.cons_lt_cons_iff.mp h with hcd | ⟨rfl, hlm⟩
    · exact encodeChar_append_lt hcd _ _
    · exact List.append_left_lt (flatMap_encodeChar_lt hlm)

/-- The order of texts is the order of their bytes. -/
theorem encode_lt_encode_iff {s t : String} : encode s < encode t ↔ s < t := by
  constructor
  · intro h
    refine Decidable.byContradiction fun hst => ?_
    rcases List.le_iff_lt_or_eq.mp (List.not_lt.mp hst) with hts | heq
    · exact List.lt_asymm h (flatMap_encodeChar_lt hts)
    · rw [String.toList_injective heq] at h
      exact List.lt_irrefl _ h
  · exact flatMap_encodeChar_lt

end FuzzCampaign.Text
