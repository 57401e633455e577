import FuzzCampaign.Proofs.Json.Reading
import Mathlib.Tactic.Choose

/-!
Written values are texts. A string is written glyph by glyph, an element behind a comma, and whatever the
layout puts between two tokens is blank. Main statement: the two written forms of a value whose numbers
are numbers as JSON has them are texts of one and the same value, which says what was to be written.
-/

namespace FuzzCampaign.Json

/-! ### Strings -/

/-- The escape by a letter that a character is written with. -/
def Escape.ofChar? : Char → Option Escape
  | '"' => some quote
  | '\\' => some backslash
  | '\x08' => some backspace
  | '\x0c' => some formFeed
  | '\n' => some lineFeed
  | '\r' => some carriageReturn
  | '\t' => some tab
  | _ => none

/-- A number below 256 by four digits. -/
def HexUnit.ofByte (n : Nat) : HexUnit :=
  ⟨⟨0, false⟩, ⟨0, false⟩, ⟨Fin.ofNat 16 (n / 16), false⟩, ⟨Fin.ofNat 16 n, false⟩⟩

/-- The glyph that a character is written as. -/
def Glyph.ofChar (c : Char) : Glyph :=
  if h : IsPlain c then .plain c h
  else match Escape.ofChar? c with
    | some e => .escape e
    | none => .code (.ofByte c.toNat)

/-- The string that a text is written as. -/
def StringToken.ofText (s : String) : StringToken := s.toList.map Glyph.ofChar

/-- The bytes of characters. -/
def bytesOf (cs : List Char) : List UInt8 := cs.flatMap String.utf8EncodeChar

theorem bytesOf_append (cs ds : List Char) : bytesOf (cs ++ ds) = bytesOf cs ++ bytesOf ds :=
  List.flatMap_append

theorem bytesOf_cons (c : Char) (cs : List Char) :
    bytesOf (c :: cs) = String.utf8EncodeChar c ++ bytesOf cs :=
  List.flatMap_cons

theorem encode_ofList (cs : List Char) : Text.encode (String.ofList cs) = bytesOf cs := by
  rw [Text.encode, String.toList_ofList, bytesOf]

/-- What is not plain is a quote, a backslash or a control character. -/
theorem not_isPlain_cases {c : Char} (h : ¬IsPlain c) :
    c = '"' ∨ c = '\\' ∨ ∃ n : Fin 32, c = Char.ofNat n := by
  by_cases hquote : c = '"'
  · exact .inl hquote
  · by_cases hbackslash : c = '\\'
    · exact .inr (.inl hbackslash)
    · have hcontrol : c.toNat < 32 := by
        rw [← Nat.not_le]
        exact fun hle => h ⟨hquote, hbackslash, hle⟩
      exact .inr (.inr ⟨⟨c.toNat, hcontrol⟩, (Char.ofNat_toNat c).symm⟩)

theorem writtenChar_of_isPlain {c : Char} (h : IsPlain c) : writtenChar c = [c] := by
  obtain ⟨hquote, hbackslash, hcontrol⟩ := h
  have hletter : escapeLetter? c = none := by
    unfold escapeLetter?
    split
    all_goals first | rfl | simp_all
  have hplain : ¬c.toNat < 0x20 := Nat.not_lt.mpr hcontrol
  simp only [writtenChar, hletter, if_neg hplain]

/-- A character is written as the bytes of its glyph. -/
theorem bytes_ofChar (c : Char) : (Glyph.ofChar c).bytes = bytesOf (writtenChar c) := by
  by_cases h : IsPlain c
  · rw [Glyph.ofChar, dif_pos h, writtenChar_of_isPlain h]
    simp [bytesOf, Glyph.bytes]
  · have hcontrol : ∀ n : Fin 32, (Glyph.ofChar (Char.ofNat n)).bytes
        = bytesOf (writtenChar (Char.ofNat n)) := by decide
    rcases not_isPlain_cases h with rfl | rfl | ⟨n, rfl⟩
    · decide
    · decide
    · exact hcontrol n

/-- Whether a glyph stands for a character by itself. -/
def Glyph.Says (c : Char) : Glyph → Prop
  | plain d _ => d = c
  | escape e => e.meaning = c
  | code u => ¬u.isLow ∧ ¬u.isHigh ∧ Char.ofNat u.value = c

instance (c : Char) (g : Glyph) : Decidable (g.Says c) :=
  match g with
  | .plain d _ => inferInstanceAs (Decidable (d = c))
  | .escape e => inferInstanceAs (Decidable (e.meaning = c))
  | .code u => inferInstanceAs (Decidable (¬u.isLow ∧ ¬u.isHigh ∧ Char.ofNat u.value = c))

theorem says_ofChar (c : Char) : (Glyph.ofChar c).Says c := by
  by_cases h : IsPlain c
  · rw [Glyph.ofChar, dif_pos h]
    rfl
  · have hcontrol : ∀ n : Fin 32, (Glyph.ofChar (Char.ofNat n)).Says (Char.ofNat n) := by decide
    rcases not_isPlain_cases h with rfl | rfl | ⟨n, rfl⟩
    · decide
    · decide
    · exact hcontrol n

namespace StringToken

/-- A glyph that stands for a character does so whatever follows. -/
theorem chars?_cons {g : Glyph} {c : Char} (h : g.Says c) (s : StringToken) :
    chars? (g :: s) = (chars? s).map (c :: ·) := by
  cases g with
  | plain d _ => rw [chars?, show d = c from h]
  | escape e => rw [chars?, show e.meaning = c from h]
  | code u =>
    obtain ⟨hlow, hhigh, hvalue⟩ := h
    rcases s with - | ⟨g, s⟩
    · simp [chars?, hlow, hhigh, hvalue]
    · cases g <;> simp [chars?, hlow, hhigh, hvalue]

theorem text?_ofText (s : String) : (ofText s).text? = some s := by
  have hchars : ∀ cs : List Char, chars? (cs.map Glyph.ofChar) = some cs := by
    intro cs
    induction cs with
    | nil => rfl
    | cons c cs ih => rw [List.map_cons, chars?_cons (says_ofChar c), ih, Option.map_some]
  rw [text?, ofText, hchars, Option.map_some, String.ofList_toList]

theorem bytes_ofText (s : String) : (ofText s).bytes = bytesOf (writtenString s) := by
  have hglyphs : ∀ cs : List Char,
      (cs.map Glyph.ofChar).flatMap Glyph.bytes = bytesOf (cs.flatMap writtenChar) := by
    intro cs
    induction cs with
    | nil => rfl
    | cons c cs ih =>
      rw [List.map_cons, List.flatMap_cons, List.flatMap_cons, bytesOf_append, ih, bytes_ofChar]
  rw [bytes, ofText, hglyphs, writtenString, bytesOf_cons, bytesOf_append]
  rfl

end StringToken

/-! ### Tokens -/

theorem Spread.gap {gap rest : List UInt8} {ts : List Token} (hgap : gap ⊆ blanks) (h : Spread ts rest) :
    Spread ts (gap ++ rest) := by
  cases h with
  | nil hgap' => exact .nil (List.append_subset.mpr ⟨hgap, hgap'⟩)
  | cons hgap' h =>
    rw [← List.append_assoc]
    exact .cons (List.append_subset.mpr ⟨hgap, hgap'⟩) h

/-- Whether characters are a text of tokens, in front of any other text. -/
def Writes (cs : List Char) (ts : List Token) : Prop :=
  ∀ us rest, Spread us rest → Spread (ts ++ us) (bytesOf cs ++ rest)

namespace Writes

variable {cs ds : List Char} {ts us : List Token}

theorem append (h : Writes cs ts) (h' : Writes ds us) : Writes (cs ++ ds) (ts ++ us) := by
  intro vs rest hrest
  rw [List.append_assoc, bytesOf_append, List.append_assoc]
  exact h _ _ (h' _ _ hrest)

theorem token {t : Token} (h : bytesOf cs = t) : Writes cs [t] := by
  intro us rest hrest
  subst h
  exact .cons (List.nil_subset _) hrest

theorem blank (h : bytesOf cs ⊆ blanks) : Writes cs [] :=
  fun _ _ hrest => hrest.gap h

theorem spread (h : Writes cs ts) : Spread ts (bytesOf cs) := by
  simpa using h [] [] (.nil (List.nil_subset _))

theorem nothing : Writes [] [] :=
  blank (List.nil_subset _)

/-- The start of a line is blank. -/
theorem newLine (depth : Nat) : Writes (newLine depth) [] := by
  refine blank ?_
  intro b hb
  simp only [bytesOf, Json.newLine, List.flatMap_cons, List.mem_append, List.mem_flatMap,
    List.mem_replicate] at hb
  rcases hb with hb | ⟨c, ⟨-, rfl⟩, hb⟩
  · exact (show String.utf8EncodeChar '\n' ⊆ blanks by decide) hb
  · exact (show String.utf8EncodeChar ' ' ⊆ blanks by decide) hb

end Writes

/-! ### Containers -/

/-- Elements that are written one by one with something between any two of them. -/
theorem eq_intercalate {α : Type} {write : List α → List Char} {text : α → List Char}
    {sep : List Char} (hnil : write [] = []) (hsingle : ∀ a, write [a] = text a)
    (hmore : ∀ a b rest, write (a :: b :: rest) = text a ++ (sep ++ write (b :: rest)))
    (elements : List α) : write elements = List.intercalate sep (elements.map text) := by
  induction elements with
  | nil => rw [hnil, List.map_nil, List.intercalate_nil]
  | cons a rest ih =>
    cases rest with
    | nil => rw [hsingle, List.map_singleton, List.intercalate_singleton]
    | cons b rest =>
      rw [hmore, ih, List.map_cons, List.map_cons, List.map_cons, List.intercalate_cons_cons,
        List.append_assoc]

theorem compactItems_eq (items : List Json) :
    compactItems items = List.intercalate [','] (items.map compact) := by
  refine eq_intercalate rfl (fun _ => rfl) ?_ items
  intro v w rest
  simp [compactItems]

theorem compactMembers_eq (members : List (String × Json)) :
    compactMembers members = List.intercalate [',']
      (members.map fun m => writtenString m.1 ++ ([':'] ++ m.2.compact)) := by
  refine eq_intercalate rfl (fun _ => rfl) ?_ members
  rintro ⟨k, v⟩ n rest
  simp [compactMembers]

theorem prettyItems_eq (depth : Nat) (items : List Json) :
    prettyItems depth items
      = List.intercalate ([','] ++ newLine depth) (items.map (pretty depth)) := by
  refine eq_intercalate rfl (fun _ => rfl) ?_ items
  intro v w rest
  simp [prettyItems]

theorem prettyMembers_eq (depth : Nat) (members : List (String × Json)) :
    prettyMembers depth members = List.intercalate ([','] ++ newLine depth)
      (members.map fun m => writtenString m.1 ++ ([':', ' '] ++ m.2.pretty depth)) := by
  refine eq_intercalate rfl (fun _ => rfl) ?_ members
  rintro ⟨k, v⟩ n rest
  simp [prettyMembers]

theorem Writes.divided {α : Type} {text : α → List Char} {tokens : α → List Token} {sep : List Char}
    (hsep : Writes sep [[ascii ',']]) {elements : List α} (h : ∀ a ∈ elements, Writes (text a) (tokens a)) :
    Writes (List.intercalate sep (elements.map text)) (divided (elements.map tokens)) := by
  induction elements with
  | nil => exact blank (List.nil_subset _)
  | cons a rest ih =>
    obtain ⟨ha, hrest⟩ := List.forall_mem_cons.mp h
    cases rest with
    | nil =>
      rw [List.map_singleton, List.intercalate_singleton, List.map_singleton, Json.divided]
      simpa [further] using ha
    | cons b rest =>
      rw [List.map_cons, List.map_cons, List.intercalate_cons_cons]
      have hmore := (ha.append hsep).append (ih hrest)
      simpa [Json.divided, further] using hmore

/-! ### Values -/

/-- Whether all numbers in a value are numbers as they are written, and no object has two members with
one key. -/
inductive Proper : Json → Prop where
  | null : Proper null
  | boolean (b : Bool) : Proper (boolean b)
  | number (n : NumberToken) {token : String} (h : Text.encode token = n.bytes) :
    Proper (number token)
  | string (text : String) : Proper (string text)
  | array {items : List Json} (h : ∀ v ∈ items, Proper v) : Proper (array items)
  | object {members : List (String × Json)} (hkeys : (members.map (·.1)).Nodup)
    (h : ∀ m ∈ members, Proper m.2) : Proper (object members)

instance : Inhabited Value := ⟨.null⟩

/-- Whether a value says what is to be written, and both written forms are texts of it. -/
structure WrittenAs (j : Json) (v : Value) : Prop where
  json?_eq : v.json? = some j
  compact : Writes j.compact v.tokens
  pretty : ∀ depth, Writes (j.pretty depth) v.tokens

theorem allOf_map {α β γ : Type} {content : β → Option γ} {f : α → β} {g : α → γ} {elements : List α}
    (h : ∀ a ∈ elements, content (f a) = some (g a)) :
    allOf content (elements.map f) = some (elements.map g) := by
  induction elements with
  | nil => rfl
  | cons a rest ih =>
    obtain ⟨ha, hrest⟩ := List.forall_mem_cons.mp h
    rw [List.map_cons, allOf, ha, ih hrest]
    rfl

theorem writes_string (s : String) : Writes (writtenString s) [(StringToken.ofText s).bytes] :=
  .token (StringToken.bytes_ofText s).symm

/-- A member is written if its value is. -/
theorem writes_member {colon cs : List Char} {v : Value} (hcolon : Writes colon [[ascii ':']])
    (k : String) (h : Writes cs v.tokens) :
    Writes (writtenString k ++ (colon ++ cs)) (Value.tokensOfMember (StringToken.ofText k, v)) :=
  (writes_string k).append (hcolon.append h)

/-- Between brackets, elements may have lines of their own. -/
theorem writes_enclosed {opener closer : Char} {b c : UInt8} {gap cs gap' : List Char}
    {ts : List Token} (hopener : bytesOf [opener] = [b]) (hcloser : bytesOf [closer] = [c])
    (hgap : Writes gap []) (h : Writes cs ts) (hgap' : Writes gap' []) :
    Writes (opener :: (gap ++ cs ++ gap' ++ [closer])) ([b] :: (ts ++ [[c]])) := by
  have hinside := ((hgap.append h).append hgap').append (Writes.token hcloser)
  simpa using (Writes.token hopener).append hinside

theorem pretty_array (depth : Nat) (items : List Json) : ∃ gap gap', Writes gap [] ∧ Writes gap' [] ∧
    pretty depth (array items) = '[' :: (gap ++ prettyItems (depth + 1) items ++ gap' ++ [']']) := by
  cases items with
  | nil => exact ⟨[], [], .nothing, .nothing, rfl⟩
  | cons v rest => exact ⟨_, _, .newLine (depth + 1), .newLine depth, rfl⟩

theorem pretty_object (depth : Nat) (members : List (String × Json)) :
    ∃ gap gap', Writes gap [] ∧ Writes gap' [] ∧ pretty depth (object members)
      = '\x7b' :: (gap ++ prettyMembers (depth + 1) members ++ gap' ++ ['\x7d']) := by
  cases members with
  | nil => exact ⟨[], [], .nothing, .nothing, rfl⟩
  | cons m rest => exact ⟨_, _, .newLine (depth + 1), .newLine depth, rfl⟩

theorem writes_comma : Writes [','] [[ascii ',']] := .token rfl

theorem writes_colon : Writes [':'] [[ascii ':']] := .token rfl

/-- Elements that are written make an array that is written. -/
theorem exists_writtenAs_array {items : List Json} (h : ∀ j ∈ items, ∃ v, WrittenAs j v) :
    ∃ v, WrittenAs (array items) v := by
  choose! f hf using h
  have htokens : (Value.array (items.map f)).tokens
      = [ascii '['] :: (divided (items.map fun j => (f j).tokens) ++ [[ascii ']']]) := by
    rw [Value.tokens, Value.itemTokens_eq_map, List.map_map]
    rfl
  refine ⟨.array (items.map f), ?_, ?_, fun depth => ?_⟩
  · rw [Value.json?, Value.itemsJson?_eq, allOf_map fun j hj => (hf j hj).json?_eq,
      List.map_id', Option.map_some]
  · have hitems := Writes.divided writes_comma fun j hj => (hf j hj).compact
    rw [compact, compactItems_eq, htokens]
    simpa using writes_enclosed rfl rfl .nothing hitems .nothing
  · have hline := writes_comma.append (.newLine (depth + 1))
    have hitems := Writes.divided hline fun j hj => (hf j hj).pretty (depth + 1)
    obtain ⟨gap, gap', hgap, hgap', hpretty⟩ := pretty_array depth items
    rw [hpretty, prettyItems_eq, htokens]
    exact writes_enclosed rfl rfl hgap hitems hgap'

/-- Members whose values are written make an object that is written. -/
theorem exists_writtenAs_object {members : List (String × Json)}
    (h : ∀ m ∈ members, ∃ v, WrittenAs m.2 v) : ∃ v, WrittenAs (object members) v := by
  choose! f hf using h
  have htokens : (Value.object (members.map fun m => (StringToken.ofText m.1, f m))).tokens
      = [ascii '\x7b'] :: (divided (members.map fun m =>
          Value.tokensOfMember (StringToken.ofText m.1, f m)) ++ [[ascii '\x7d']]) := by
    rw [Value.tokens, Value.memberTokens_eq_map, List.map_map]
    rfl
  refine ⟨.object (members.map fun m => (StringToken.ofText m.1, f m)), ?_, ?_, fun depth => ?_⟩
  · have hmember : ∀ m ∈ members,
        Value.memberJson? (StringToken.ofText m.1, f m) = some (m.1, m.2) := by
      intro m hm
      rw [Value.memberJson?, StringToken.text?_ofText, Option.bind_some, (hf m hm).json?_eq,
        Option.map_some]
    rw [Value.json?, Value.membersJson?_eq, allOf_map hmember, List.map_id', Option.map_some]
  · have hmembers := Writes.divided writes_comma fun m hm =>
      writes_member writes_colon m.1 (hf m hm).compact
    rw [compact, compactMembers_eq, htokens]
    simpa using writes_enclosed rfl rfl .nothing hmembers .nothing
  · have hline := writes_comma.append (.newLine (depth + 1))
    have hspaced : Writes [':', ' '] [[ascii ':']] := writes_colon.append (.blank (by decide))
    have hmembers := Writes.divided hline fun m hm =>
      writes_member hspaced m.1 ((hf m hm).pretty (depth + 1))
    obtain ⟨gap, gap', hgap, hgap', hpretty⟩ := pretty_object depth members
    rw [hpretty, prettyMembers_eq, htokens]
    exact writes_enclosed rfl rfl hgap hmembers hgap'

/-- Whatever is proper is written as a value that says it. -/
theorem Proper.exists_writtenAs {j : Json} (h : Proper j) : ∃ v, WrittenAs j v := by
  induction h with
  | null => exact ⟨.null, rfl, .token rfl, fun _ => .token rfl⟩
  | boolean b =>
    refine ⟨.boolean b, rfl, ?_, fun _ => ?_⟩
    · cases b <;> exact .token rfl
    · cases b <;> exact .token rfl
  | @number n token htoken =>
    refine ⟨.number n, ?_, .token htoken, fun _ => .token htoken⟩
    rw [Value.json?, ← htoken, Text.decode?_encode, Option.map_some]
  | string text =>
    refine ⟨.string (StringToken.ofText text), ?_, writes_string text, fun _ => writes_string text⟩
    rw [Value.json?, StringToken.text?_ofText, Option.map_some]
  | array _ ih => exact exists_writtenAs_array ih
  | object _ _ ih => exact exists_writtenAs_object ih

end FuzzCampaign.Json
