import FuzzCampaign.Text.Quoted

/-!
What a quoted text says, whatever follows it. Each character is written as it is, unless it is a quote or
a backslash, or as a backslash with what belongs to it. So no character's writing starts another one's,
and the first bare quote closes the text. Main statement: texts that start with a quoted text are the same
only if they quote the same and go on in the same way.
-/

namespace FuzzCampaign.Text

/-- A part ends where something stands that is not in it. -/
theorem eq_of_starts {α : Type} {x : α} : ∀ {l m s t : List α}, x ∉ l → x ∉ m →
    l ++ x :: s <+: m ++ x :: t → l = m
  | [], [], _, _, _, _, _ => rfl
  | [], y :: m, _, _, _, hm, h => by
    rw [List.nil_append, List.cons_append, List.cons_prefix_cons] at h
    exact absurd h.1 (List.ne_of_not_mem_cons hm)
  | y :: l, [], _, _, hl, _, h => by
    rw [List.nil_append, List.cons_append, List.cons_prefix_cons] at h
    exact absurd h.1.symm (List.ne_of_not_mem_cons hl)
  | y :: l, z :: m, _, _, hl, hm, h => by
    rw [List.cons_append, List.cons_append, List.cons_prefix_cons] at h
    obtain ⟨rfl, h⟩ := h
    rw [eq_of_starts (List.not_mem_of_not_mem_cons hl) (List.not_mem_of_not_mem_cons hm) h]

/-! ### Numbers of characters -/

theorem digitChar_injective {m n : Nat} (hm : m < 16) (hn : n < 16)
    (h : Nat.digitChar m = Nat.digitChar n) : m = n := by
  have hall : ∀ i j : Fin 16, Nat.digitChar i = Nat.digitChar j → i = j := by decide
  exact Fin.mk.inj (hall ⟨m, hm⟩ ⟨n, hn⟩ h)

/-- No digit is the brace that closes a number. -/
theorem brace_notMem_toDigits (n : Nat) : '\x7d' ∉ Nat.toDigits 16 n := by
  have hdigit : ∀ i : Fin 16, '\x7d' ≠ Nat.digitChar i := by decide
  induction n using Nat.strongRecOn with
  | ind n ih =>
    rw [Nat.toDigits_eq_if (by decide)]
    split
    · next hn => exact fun hmem => hdigit ⟨n, hn⟩ (List.mem_singleton.mp hmem)
    · next hn =>
      have hlast := hdigit ⟨n % 16, Nat.mod_lt n (by decide)⟩
      rw [List.mem_append, not_or]
      exact ⟨ih (n / 16) (by omega), fun hmem => hlast (List.mem_singleton.mp hmem)⟩

/-- Digits to the base of sixteen say which number they write. -/
theorem toDigits_injective {m n : Nat} (h : Nat.toDigits 16 m = Nat.toDigits 16 n) : m = n := by
  induction m using Nat.strongRecOn generalizing n with
  | ind m ih =>
    rw [Nat.toDigits_eq_if (by decide), Nat.toDigits_eq_if (n := n) (by decide)] at h
    split at h
    · next hm =>
      split at h
      · next hn => exact digitChar_injective hm hn (List.singleton_inj.mp h)
      · exact absurd (List.append_eq_singleton_iff.mp h.symm) (by simp [Nat.toDigits_ne_nil])
    · next hm =>
      split at h
      · exact absurd (List.append_eq_singleton_iff.mp h) (by simp [Nat.toDigits_ne_nil])
      · obtain ⟨hfront, hlast⟩ := List.append_inj' h rfl
        have hdiv : m / 16 = n / 16 := ih (m / 16) (by omega) hfront
        have hmod : m % 16 = n % 16 := digitChar_injective (Nat.mod_lt m (by decide))
          (Nat.mod_lt n (by decide)) (List.singleton_inj.mp hlast)
        omega

/-! ### Quoted characters -/

/-- The character that a letter behind a backslash stands for. -/
def ofLetter : Char → Char
  | 'n' => '\n'
  | 'r' => '\r'
  | 't' => '\t'
  | '0' => '\x00'
  | letter => letter

theorem ofLetter_of_escapeLetter? {c letter : Char} (h : escapeLetter? c = some letter) :
    ofLetter letter = c := by
  unfold escapeLetter? at h
  split at h <;> cases h <;> rfl

/-- The letter in front of a number stands for no character. -/
theorem escapeLetter?_ne_u (c : Char) : escapeLetter? c ≠ some 'u' := by
  unfold escapeLetter?
  split <;> decide

/-- A character is written by a letter behind a backslash, by its number, or as it is; as it is only if it
is neither a quote nor a backslash. -/
theorem quotedChar_cases (c : Char) :
    (∃ letter, escapeLetter? c = some letter ∧ quotedChar c = ['\\', letter]) ∨
      quotedChar c = '\\' :: 'u' :: '\x7b' :: (Nat.toDigits 16 c.toNat ++ ['\x7d']) ∨
      c ≠ '"' ∧ c ≠ '\\' ∧ quotedChar c = [c] := by
  unfold quotedChar
  cases hletter : escapeLetter? c with
  | some letter => exact .inl ⟨letter, rfl, rfl⟩
  | none =>
    by_cases hhidden : isHidden c
    · exact .inr (.inl (if_pos hhidden))
    · refine .inr (.inr ⟨?_, ?_, if_neg hhidden⟩)
      · rintro rfl
        cases hletter
      · rintro rfl
        cases hletter

/-- Two characters that start one text are the same, and what follows them is the same. -/
theorem quotedChar_append_inj {c d : Char} {s t : List Char}
    (h : quotedChar c ++ s = quotedChar d ++ t) : c = d ∧ s = t := by
  rcases quotedChar_cases c with ⟨l, hl, hc⟩ | hc | ⟨-, hslash, hc⟩ <;>
    rcases quotedChar_cases d with ⟨m, hm, hd⟩ | hd | ⟨-, hslash', hd⟩ <;>
    rw [hc, hd] at h <;>
    simp only [List.cons_append, List.nil_append, List.append_assoc, List.cons.injEq, true_and] at h
  case inl.inl =>
    obtain ⟨rfl, rfl⟩ := h
    exact ⟨(ofLetter_of_escapeLetter? hl).symm.trans (ofLetter_of_escapeLetter? hm), rfl⟩
  case inl.inr.inl => exact absurd (h.1 ▸ hl) (escapeLetter?_ne_u c)
  case inl.inr.inr => exact absurd h.1.symm hslash'
  case inr.inl.inl => exact absurd (h.1 ▸ hm) (escapeLetter?_ne_u d)
  case inr.inl.inr.inl =>
    -- the first brace behind the digits closes the number
    have hstarts : Nat.toDigits 16 c.toNat ++ '\x7d' :: s <+: Nat.toDigits 16 d.toNat ++ '\x7d' :: t :=
      h ▸ List.prefix_refl _
    have hdigits := eq_of_starts (brace_notMem_toDigits _) (brace_notMem_toDigits _) hstarts
    obtain rfl : c = d := Char.toNat_inj.mp (toDigits_injective hdigits)
    exact ⟨rfl, (List.cons.inj (List.append_cancel_left h)).2⟩
  case inr.inl.inr.inr => exact absurd h.1.symm hslash'
  case inr.inr.inl => exact absurd h.1 hslash
  case inr.inr.inr.inl => exact absurd h.1 hslash
  case inr.inr.inr.inr => exact h

/-- No character's writing starts with a bare quote. -/
theorem quote_cons_ne (c : Char) (s t : List Char) : '"' :: s ≠ quotedChar c ++ t := by
  rcases quotedChar_cases c with ⟨l, -, hc⟩ | hc | ⟨hquote, -, hc⟩ <;> rw [hc]
  · simp
  · simp
  · intro h
    exact hquote (List.cons.inj h).1.symm

/-! ### Quoted texts -/

/-- Quoted characters up to a bare quote say which they are, and what is behind the quote. -/
theorem flatMap_quotedChar_inj {l m s t : List Char}
    (h : l.flatMap quotedChar ++ '"' :: s = m.flatMap quotedChar ++ '"' :: t) : l = m ∧ s = t := by
  induction l generalizing m with
  | nil =>
    cases m with
    | nil => exact ⟨rfl, (List.cons.inj h).2⟩
    | cons d m =>
      rw [List.flatMap_cons, List.append_assoc] at h
      exact absurd h (quote_cons_ne d _ _)
  | cons c l ih =>
    cases m with
    | nil =>
      rw [List.flatMap_cons, List.append_assoc] at h
      exact absurd h.symm (quote_cons_ne c _ _)
    | cons d m =>
      rw [List.flatMap_cons, List.flatMap_cons, List.append_assoc, List.append_assoc] at h
      obtain ⟨rfl, hrest⟩ := quotedChar_append_inj h
      obtain ⟨rfl, hbehind⟩ := ih hrest
      exact ⟨rfl, hbehind⟩

/-- A quoted text says what it quotes and what follows it. -/
theorem quoted_append_inj {p q a b : String} (h : quoted p ++ a = quoted q ++ b) : p = q ∧ a = b := by
  have hchars := congrArg String.toList h
  simp only [quoted, String.toList_append, String.toList_ofList, List.cons_append, List.append_assoc,
    List.cons.injEq, true_and, List.nil_append] at hchars
  obtain ⟨hquoted, hrest⟩ := flatMap_quotedChar_inj hchars
  exact ⟨String.toList_inj.mp hquoted, String.toList_inj.mp hrest⟩

theorem quoted_injective {p q : String} (h : quoted p = quoted q) : p = q :=
  (quoted_append_inj (a := "") (b := "") (by rw [h])).1

end FuzzCampaign.Text
