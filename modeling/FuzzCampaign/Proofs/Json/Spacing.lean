import FuzzCampaign.Proofs.Json.Writing

/-!
What stands between the string literals of a written value. A scan of a text goes from one character to
the next and knows whether it is inside a literal, which ends at the first quote without a backslash
before it. What a scan gives out can depend on this: the text without the spaces and line breaks outside
of literals, or the literals as they stand. Main statement: a laid out value without that spacing is the
compact value, and its literals are the keys and strings of the value in order, each as it is written.
-/

namespace FuzzCampaign.Json

/-! ### Scans -/

/-- Whether a character is a space or breaks a line. -/
def isSpacing (c : Char) : Bool := c = ' ' || c = '\n' || c = '\r'

/-- How far a scan is: outside of string literals, inside one, or behind a backslash in one. Of the
literal it knows what it has read. -/
inductive Scan where
  | outside
  | inside (opened : List Char)
  | escaped (opened : List Char)
deriving DecidableEq, Repr

namespace Scan

/-- What a character does to a scan. -/
def step : Scan → Char → Scan
  | outside, c => if c = '"' then inside [c] else outside
  | inside opened, c =>
    if c = '"' then outside
    else if c = '\\' then escaped (opened ++ [c])
    else inside (opened ++ [c])
  | escaped opened, c => inside (opened ++ [c])

/-- What is kept of a character: all but spacing outside of literals. -/
def kept : Scan → Char → List Char
  | outside, c => if isSpacing c then [] else [c]
  | inside _, c => [c]
  | escaped _, c => [c]

/-- The literal that a character ends, if it ends one. -/
def ended : Scan → Char → List (List Char)
  | inside opened, c => if c = '"' then [opened ++ [c]] else []
  | outside, _ => []
  | escaped _, _ => []

/-- Where a scan of a text ends. -/
def run : Scan → List Char → Scan := List.foldl step

variable {α : Type}

/-- What a scan of a text gives out. -/
def gives (give : Scan → Char → List α) : Scan → List Char → List α
  | _, [] => []
  | s, c :: rest => give s c ++ gives give (s.step c) rest

theorem gives_append (give : Scan → Char → List α) (s : Scan) (cs ds : List Char) :
    gives give s (cs ++ ds) = gives give s cs ++ gives give (s.run cs) ds := by
  induction cs generalizing s with
  | nil => rfl
  | cons c cs ih => rw [List.cons_append, gives, gives, ih, List.append_assoc]; rfl

theorem step_outside_of_isSpacing {c : Char} (h : isSpacing c) : step outside c = outside := by
  refine if_neg ?_
  rintro rfl
  cases h

/-- What is given out for nothing but kept characters is the same when the others have gone. -/
theorem gives_kept {give : Scan → Char → List α} (hgive : ∀ c, isSpacing c → give outside c = [])
    (s : Scan) (cs : List Char) : gives give s (gives kept s cs) = gives give s cs := by
  have hkeep : ∀ (s : Scan) (c : Char) (rest : List Char), kept s c = [c] →
      gives give (s.step c) (gives kept (s.step c) rest) = gives give (s.step c) rest →
      gives give s (gives kept s (c :: rest)) = gives give s (c :: rest) := by
    intro s c rest hkept ih
    rw [gives, hkept, List.singleton_append, gives, ih, gives]
  induction cs generalizing s with
  | nil => rfl
  | cons c rest ih =>
    cases s with
    | outside =>
      by_cases hspacing : isSpacing c
      · rw [gives, kept, if_pos hspacing, List.nil_append, step_outside_of_isSpacing hspacing, ih,
          gives, hgive c hspacing, List.nil_append, step_outside_of_isSpacing hspacing]
      · exact hkeep _ c rest (if_neg hspacing) (ih _)
    | inside opened => exact hkeep _ c rest rfl (ih _)
    | escaped opened => exact hkeep _ c rest rfl (ih _)

end Scan

/-- A text without the spaces and line breaks outside of string literals. -/
def unspaced (cs : List Char) : List Char := Scan.gives Scan.kept .outside cs

/-- The string literals of a text, as they stand in it. -/
def literals (cs : List Char) : List (List Char) := Scan.gives Scan.ended .outside cs

/-- A text without spacing has none to lose. -/
theorem unspaced_unspaced (cs : List Char) : unspaced (unspaced cs) = unspaced cs :=
  Scan.gives_kept (fun _ h => if_pos h) .outside cs

/-- No literal is touched when spacing goes. -/
theorem literals_unspaced (cs : List Char) : literals (unspaced cs) = literals cs :=
  Scan.gives_kept (fun _ _ => rfl) .outside cs

example : unspaced "[ \"a \\\" b\",\n 1 ]".toList = "[\"a \\\" b\",1]".toList := by decide

/-! ### Pieces of a text -/

/-- Whether a character neither opens a literal nor is spacing. -/
def IsSolid (c : Char) : Prop := c ≠ '"' ∧ ¬isSpacing c

instance (c : Char) : Decidable (IsSolid c) := inferInstanceAs (Decidable (_ ∧ _))

/-- Whether a piece of a text that starts outside of literals also ends there, is another one without
spacing, and has certain literals. -/
structure Condenses (cs ds : List Char) (ls : List (List Char)) : Prop where
  run : Scan.run .outside cs = .outside
  unspaced : unspaced cs = ds
  literals : literals cs = ls

namespace Condenses

variable {cs cs' ds ds' : List Char} {ls ls' : List (List Char)}

theorem nothing : Condenses [] [] [] := ⟨rfl, rfl, rfl⟩

theorem append (h : Condenses cs ds ls) (h' : Condenses cs' ds' ls') :
    Condenses (cs ++ cs') (ds ++ ds') (ls ++ ls') where
  run := by
    rw [Scan.run, List.foldl_append]
    exact (congrArg (Scan.run · cs') h.run).trans h'.run
  unspaced := by
    rw [Json.unspaced, Scan.gives_append, h.run]
    exact congrArg₂ _ h.unspaced h'.unspaced
  literals := by
    rw [Json.literals, Scan.gives_append, h.run]
    exact congrArg₂ _ h.literals h'.literals

/-- Spacing goes. -/
theorem spacing (h : ∀ c ∈ cs, isSpacing c) : Condenses cs [] [] := by
  induction cs with
  | nil => exact nothing
  | cons c rest ih =>
    obtain ⟨hc, hrest⟩ := List.forall_mem_cons.mp h
    have hsingle : Condenses [c] [] [] := by
      refine ⟨Scan.step_outside_of_isSpacing hc, ?_, rfl⟩
      rw [Json.unspaced, Scan.gives, Scan.kept, if_pos hc]
      rfl
    exact hsingle.append (ih hrest)

theorem newLine (depth : Nat) : Condenses (newLine depth) [] [] := by
  refine spacing ?_
  intro c hc
  rcases List.mem_cons.mp hc with rfl | hc
  · rfl
  · rw [List.eq_of_mem_replicate hc]
    rfl

/-- Characters that neither open a literal nor are spacing stay. -/
theorem solid (h : ∀ c ∈ cs, IsSolid c) : Condenses cs cs [] := by
  induction cs with
  | nil => exact nothing
  | cons c rest ih =>
    obtain ⟨⟨hquote, hspacing⟩, hrest⟩ := List.forall_mem_cons.mp h
    have hsingle : Condenses [c] [c] [] := by
      refine ⟨if_neg hquote, ?_, rfl⟩
      rw [Json.unspaced, Scan.gives, Scan.kept, if_neg hspacing]
      rfl
    exact hsingle.append (ih hrest)

end Condenses

/-! ### Strings -/

/-- Whether a piece of a text that starts inside of a literal also ends inside of it. -/
structure StaysInside (cs : List Char) : Prop where
  run : ∀ opened, Scan.run (.inside opened) cs = .inside (opened ++ cs)
  kept : ∀ opened, Scan.gives Scan.kept (.inside opened) cs = cs
  ended : ∀ opened, Scan.gives Scan.ended (.inside opened) cs = []

namespace StaysInside

variable {cs ds : List Char}

theorem nothing : StaysInside [] := ⟨fun _ => by rw [List.append_nil]; rfl, fun _ => rfl, fun _ => rfl⟩

theorem append (h : StaysInside cs) (h' : StaysInside ds) : StaysInside (cs ++ ds) where
  run opened := by
    rw [Scan.run, List.foldl_append, ← List.append_assoc]
    exact (congrArg (Scan.run · ds) (h.run opened)).trans (h'.run _)
  kept opened := by rw [Scan.gives_append, h.run, h.kept, h'.kept]
  ended opened := by rw [Scan.gives_append, h.run, h.ended, h'.ended, List.append_nil]

theorem flatMap {α : Type} {f : α → List Char} {l : List α} (h : ∀ a ∈ l, StaysInside (f a)) :
    StaysInside (l.flatMap f) := by
  induction l with
  | nil => exact nothing
  | cons a rest ih =>
    obtain ⟨ha, hrest⟩ := List.forall_mem_cons.mp h
    rw [List.flatMap_cons]
    exact ha.append (ih hrest)

/-- Characters that are neither quotes nor backslashes do not lead out of a literal. -/
theorem of_forall (h : ∀ c ∈ cs, c ≠ '"' ∧ c ≠ '\\') : StaysInside cs := by
  induction cs with
  | nil => exact nothing
  | cons c rest ih =>
    obtain ⟨⟨hquote, hbackslash⟩, hrest⟩ := List.forall_mem_cons.mp h
    have hsingle : StaysInside [c] := by
      refine ⟨fun opened => ?_, fun _ => rfl, fun opened => ?_⟩
      · exact (if_neg hquote).trans (if_neg hbackslash)
      · rw [Scan.gives, Scan.ended, if_neg hquote]
        rfl
    exact hsingle.append (ih hrest)

/-- Neither does a backslash with the character behind it, whatever that is. -/
theorem escape (c : Char) : StaysInside ['\\', c] := by
  refine ⟨fun opened => ?_, fun _ => rfl, fun _ => rfl⟩
  have hrun : Scan.run (.inside opened) ['\\', c] = .inside (opened ++ ['\\'] ++ [c]) := rfl
  rw [hrun, List.append_assoc]
  rfl

/-- A character is written by itself, or by a backslash and characters of which only the first one can
be a quote or a backslash. -/
theorem writtenChar (c : Char) : StaysInside (writtenChar c) := by
  rw [Json.writtenChar]
  split
  · next letter _ => exact escape letter
  · next hnone =>
    split
    · have hdigit : ∀ d : Fin 16, hexDigit d ≠ '"' ∧ hexDigit d ≠ '\\' := by decide
      have hcontrol : ∀ d ∈ ['0', '0', hexDigit (c.toNat / 16), hexDigit (c.toNat % 16)],
          d ≠ '"' ∧ d ≠ '\\' := by
        intro d hd
        simp only [List.mem_cons, List.not_mem_nil, or_false] at hd
        rcases hd with rfl | rfl | rfl | rfl
        · decide
        · decide
        · exact hdigit ⟨c.toNat / 16, by omega⟩
        · exact hdigit ⟨c.toNat % 16, by omega⟩
      exact (escape 'u').append (of_forall hcontrol)
    · refine of_forall ?_
      intro d hd
      obtain rfl := List.mem_singleton.mp hd
      constructor
      · rintro rfl
        cases hnone
      · rintro rfl
        cases hnone

end StaysInside

/-- A written string is one literal, whatever is in it. -/
theorem Condenses.string (s : String) :
    Condenses (writtenString s) (writtenString s) [writtenString s] := by
  have hbody : StaysInside (s.toList.flatMap writtenChar) :=
    .flatMap fun c _ => .writtenChar c
  have hopen : Scan.step .outside '"' = .inside ['"'] := rfl
  refine ⟨?_, ?_, ?_⟩
  · rw [writtenString, Scan.run, List.foldl_cons, List.foldl_append, hopen]
    exact congrArg (Scan.run · ['"']) (hbody.run _)
  · rw [writtenString, Json.unspaced, Scan.gives, hopen, Scan.gives_append, hbody.run, hbody.kept]
    rfl
  · rw [writtenString, Json.literals, Scan.gives, hopen, Scan.gives_append, hbody.run, hbody.ended]
    rfl

/-! ### Values -/

mutual

/-- The keys and strings of a value in order. -/
def texts : Json → List String
  | null => []
  | boolean _ => []
  | number _ => []
  | string text => [text]
  | array items => itemTexts items
  | object members => memberTexts members

/-- The keys and strings in the elements of an array. -/
def itemTexts : List Json → List String
  | [] => []
  | v :: rest => v.texts ++ itemTexts rest

/-- The keys and strings in the members of an object. -/
def memberTexts : List (String × Json) → List String
  | [] => []
  | (k, v) :: rest => k :: (v.texts ++ memberTexts rest)

end

theorem itemTexts_eq (items : List Json) : itemTexts items = items.flatMap texts := by
  induction items with
  | nil => rfl
  | cons v rest ih => rw [itemTexts, ih, List.flatMap_cons]

theorem memberTexts_eq (members : List (String × Json)) :
    memberTexts members = members.flatMap fun m => m.1 :: m.2.texts := by
  induction members with
  | nil => rfl
  | cons m rest ih => rw [memberTexts, ih, List.flatMap_cons, List.cons_append]

/-- Whether all numbers in a value are written without quotes and spacing. -/
inductive Solid : Json → Prop where
  | null : Solid null
  | boolean (b : Bool) : Solid (boolean b)
  | number {token : String} (h : ∀ c ∈ token.toList, IsSolid c) : Solid (number token)
  | string (text : String) : Solid (string text)
  | array {items : List Json} (h : ∀ v ∈ items, Solid v) : Solid (array items)
  | object {members : List (String × Json)} (h : ∀ m ∈ members, Solid m.2) : Solid (object members)

namespace Condenses

/-- Elements behind commas, which may have lines of their own. -/
theorem divided {α : Type} {text short : α → List Char} {inner : α → List String} {sep : List Char}
    (hsep : Condenses sep [','] []) {elements : List α}
    (h : ∀ a ∈ elements, Condenses (text a) (short a) ((inner a).map writtenString)) :
    Condenses (List.intercalate sep (elements.map text))
      (List.intercalate [','] (elements.map short))
      ((elements.flatMap inner).map writtenString) := by
  induction elements with
  | nil => exact nothing
  | cons a rest ih =>
    obtain ⟨ha, hrest⟩ := List.forall_mem_cons.mp h
    cases rest with
    | nil =>
      rw [List.map_singleton, List.intercalate_singleton, List.map_singleton,
        List.intercalate_singleton, List.flatMap_singleton]
      exact ha
    | cons b rest =>
      rw [List.flatMap_cons, List.map_append, List.map_cons, List.map_cons, List.map_cons,
        List.map_cons, List.intercalate_cons_cons, List.intercalate_cons_cons]
      have hmore := (ha.append hsep).append (ih hrest)
      simpa using hmore

/-- Something between two brackets, which may stand on a line of its own. -/
theorem enclosed {opener closer : Char} {gap cs gap' ds : List Char} {ls : List (List Char)}
    (hopener : IsSolid opener) (hcloser : IsSolid closer) (hgap : Condenses gap [] [])
    (h : Condenses cs ds ls) (hgap' : Condenses gap' [] []) :
    Condenses (opener :: (gap ++ cs ++ gap' ++ [closer])) (opener :: (ds ++ [closer])) ls := by
  have hopen : Condenses [opener] [opener] [] := solid (by simpa using hopener)
  have hclose : Condenses [closer] [closer] [] := solid (by simpa using hcloser)
  have hinside := ((hgap.append h).append hgap').append hclose
  simpa using hopen.append hinside

theorem comma : Condenses [','] [','] [] := ⟨rfl, rfl, rfl⟩

/-- A comma at the end of a line. -/
theorem commaLine (depth : Nat) : Condenses ([','] ++ Json.newLine depth) [','] [] :=
  comma.append (newLine depth)

/-- A key and a value, with a space between the two. -/
theorem member {cs ds : List Char} {inner : List String} (k : String)
    (h : Condenses cs ds (inner.map writtenString)) :
    Condenses (writtenString k ++ ([':', ' '] ++ cs)) (writtenString k ++ ([':'] ++ ds))
      ((k :: inner).map writtenString) := by
  have hcolon : Condenses [':', ' '] [':'] [] := ⟨rfl, rfl, rfl⟩
  exact (string k).append (hcolon.append h)

end Condenses

/-- A laid out value without its spacing is the compact value, with the same literals. -/
theorem Solid.condenses {j : Json} (h : Solid j) (depth : Nat) :
    Condenses (j.pretty depth) j.compact (j.texts.map writtenString) := by
  induction h generalizing depth with
  | null => exact ⟨rfl, rfl, rfl⟩
  | boolean b => cases b <;> exact ⟨rfl, rfl, rfl⟩
  | number h => exact .solid h
  | string text => exact .string text
  | @array items _ ih =>
    rw [compact, compactItems_eq, texts, itemTexts_eq]
    have hitems := Condenses.divided (.commaLine (depth + 1)) fun v hv => ih v hv (depth + 1)
    cases items with
    | nil => exact ⟨rfl, rfl, rfl⟩
    | cons v rest =>
      rw [pretty, prettyItems_eq]
      exact .enclosed (by decide) (by decide) (.newLine (depth + 1)) hitems (.newLine depth)
  | @object members _ ih =>
    rw [compact, compactMembers_eq, texts, memberTexts_eq]
    have hmembers := Condenses.divided (.commaLine (depth + 1)) fun m hm =>
      Condenses.member m.1 (ih m hm (depth + 1))
    cases members with
    | nil => exact ⟨rfl, rfl, rfl⟩
    | cons m rest =>
      rw [pretty, prettyMembers_eq]
      exact .enclosed (by decide) (by decide) (.newLine (depth + 1)) hmembers (.newLine depth)

/-! ### Numbers -/

/-- The bytes that numbers are written with. -/
def numberBytes : List UInt8 :=
  ['0', '1', '2', '3', '4', '5', '6', '7', '8', '9', '.', '-', '+', 'e', 'E'].map ascii

theorem NumberToken.bytes_subset (n : NumberToken) : n.bytes ⊆ numberBytes := by
  have hdigit : ∀ d, digitByte d ∈ numberBytes := by decide
  have hdigits : ∀ d : Digits, d.bytes ⊆ numberBytes := by
    intro d b hb
    rcases List.mem_cons.mp hb with rfl | hb
    · exact hdigit _
    · obtain ⟨e, -, rfl⟩ := List.mem_map.mp hb
      exact hdigit e
  have hexponent : ∀ e : Exponent, e.bytes ⊆ numberBytes := by
    intro e
    have hmark : ∀ b ∈ [ascii 'e', ascii 'E'], b ∈ numberBytes := by
      simp only [List.forall_mem_cons]
      exact ⟨by decide, by decide, fun _ h => nomatch h⟩
    have hsign : ∀ t ∈ [[], [ascii '+'], [ascii '-']], t ⊆ numberBytes := by
      simp only [List.forall_mem_cons, List.cons_subset]
      exact ⟨List.nil_subset _, ⟨by decide, List.nil_subset _⟩, ⟨by decide, List.nil_subset _⟩,
        fun _ h => nomatch h⟩
    exact List.cons_subset.mpr ⟨hmark _ e.mark_mem,
      List.append_subset.mpr ⟨hsign _ e.sign_mem, hdigits _⟩⟩
  refine List.append_subset.mpr ⟨?_, List.append_subset.mpr ⟨hdigits _, List.append_subset.mpr ⟨?_, ?_⟩⟩⟩
  · split <;> decide
  · split
    · exact List.cons_subset.mpr ⟨by decide, hdigits _⟩
    · exact List.nil_subset _
  · split
    · exact hexponent _
    · exact List.nil_subset _

/-- A number as JSON has it has no quote and no spacing in it. -/
theorem isSolid_of_mem_number {n : NumberToken} {token : String} (h : Text.encode token = n.bytes)
    {c : Char} (hc : c ∈ token.toList) : IsSolid c := by
  have hbytes : String.utf8EncodeChar c ⊆ numberBytes := by
    intro b hb
    refine n.bytes_subset (h ▸ ?_)
    exact List.mem_flatMap.mpr ⟨c, hc, hb⟩
  constructor
  · rintro rfl
    exact absurd hbytes (by decide)
  · intro hspacing
    simp only [isSpacing, Bool.or_eq_true, decide_eq_true_eq] at hspacing
    rcases hspacing with (rfl | rfl) | rfl
    · exact absurd hbytes (by decide)
    · exact absurd hbytes (by decide)
    · exact absurd hbytes (by decide)

theorem Proper.solid {j : Json} (h : Proper j) : Solid j := by
  induction h with
  | null => exact .null
  | boolean b => exact .boolean b
  | number n htoken => exact .number fun _ hc => isSolid_of_mem_number htoken hc
  | string text => exact .string text
  | array _ ih => exact .array ih
  | object _ _ ih => exact .object ih

end FuzzCampaign.Json
