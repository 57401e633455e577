import FuzzCampaign.Json.Shape
import FuzzCampaign.Json.Tree
import FuzzCampaign.Proofs.Json.Objects

/-!
A reader for values of any shape. It keeps what a value says: words, numbers as they are written, texts,
and the elements and members in order. Containers are read element by element, and the nesting is bounded
by the number of bytes. Main statement: a text of a value is read as what the value says, if there are
texts where strings stand in it, and is not read otherwise.
-/

namespace FuzzCampaign.Json

/-! ### What a value says -/

namespace Value

mutual

/-- What a value says, if all strings in it are texts. -/
def json? : Value → Option Json
  | null => some .null
  | boolean b => some (.boolean b)
  | number n => (Text.decode? n.bytes).map .number
  | string s => s.text?.map .string
  | array items => (itemsJson? items).map .array
  | object members => (membersJson? members).map .object

/-- What the elements of an array say. -/
def itemsJson? : List Value → Option (List Json)
  | [] => some []
  | v :: rest => v.json?.bind fun j => (itemsJson? rest).map (j :: ·)

/-- What the members of an object say. -/
def membersJson? : List (StringToken × Value) → Option (List (String × Json))
  | [] => some []
  | (k, v) :: rest =>
    (k.text?.bind fun key => v.json?.map fun j => (key, j)).bind fun m =>
      (membersJson? rest).map (m :: ·)

end

/-- What a member of an object says. -/
def memberJson? (m : StringToken × Value) : Option (String × Json) :=
  m.1.text?.bind fun key => m.2.json?.map fun j => (key, j)

end Value

/-- What all elements say, if each says something. -/
def allOf {α β : Type} (content : α → Option β) : List α → Option (List β)
  | [] => some []
  | a :: rest => (content a).bind fun b => (allOf content rest).map (b :: ·)

theorem Value.itemsJson?_eq (items : List Value) : itemsJson? items = allOf json? items := by
  induction items with
  | nil => rfl
  | cons v rest ih => rw [itemsJson?, ih, allOf]

theorem Value.membersJson?_eq (members : List (StringToken × Value)) :
    membersJson? members = allOf memberJson? members := by
  induction members with
  | nil => rfl
  | cons m rest ih => rw [membersJson?, ih, allOf, memberJson?]

/-! ### The reader -/

/-- Reads something and then, depending on it, something else. -/
def readThen {α β : Type} (read : Reader α) (next : α → Reader β) : Reader β := fun bytes =>
  match read bytes with
  | .error fault => .error fault
  | .ok (a, rest) => next a rest

/-- Reads something and makes something of it. -/
def readMap {α β : Type} (f : α → β) (read : Reader α) : Reader β :=
  readThen read fun a rest => .ok (f a, rest)

/-- Reads the elements behind the first one, up to the end of the container. Each takes some bytes, so the
number of bytes bounds the number of elements. -/
def readFurther {α : Type} (c : Container) (read : Reader α) : (bound : Nat) → Reader (List α)
  | 0, bytes => faultAt c.endCause bytes
  | bound + 1, bytes =>
    match skipBlanks bytes with
    | [] => faultAt c.endCause []
    | b :: rest =>
      if b = c.closer then .ok ([], rest)
      else if b = ascii ',' then
        readThen read (fun a => readMap (a :: ·) (readFurther c read bound)) rest
      else faultAt c.commaCause (b :: rest)

/-- Reads the elements of a container, behind its opening. -/
def readContainer {α : Type} (c : Container) (read : Reader α) : Reader (List α) := fun bytes =>
  match skipBlanks bytes with
  | [] => faultAt c.endCause []
  | b :: rest =>
    if b = c.closer then .ok ([], rest)
    else readThen read
      (fun a rest => readMap (a :: ·) (readFurther c read rest.length) rest) (b :: rest)

/-- Reads a colon. -/
def readColon : Reader Unit := fun bytes =>
  match Shape.readColon bytes with
  | .error fault => .error fault
  | .ok rest => .ok ((), rest)

/-- Reads a member of an object: a key, a colon and a value. -/
def readPair {α : Type} (read : Reader α) : Reader (String × α) :=
  readThen readString fun key => readThen readColon fun _ => readMap (fun a => (key, a)) read

/-- Reads a number as it is written. -/
def readNumberText : Reader String := fun bytes =>
  match skipValue bytes with
  | .error fault => .error fault
  | .ok rest =>
    match Text.decode? (bytes.take (bytes.length - rest.length)) with
    | some token => .ok (token, rest)
    | none => faultAt .malformedNumber bytes

/-- Reads a word. -/
def readWordValue : Reader Json
  | [] => faultAt .endInValue []
  | b :: rest =>
    match wordAfter? b with
    | none => faultAt .valueExpected (b :: rest)
    | some letters =>
      match readWord letters rest with
      | .error fault => .error fault
      | .ok rest => .ok (if b = ascii 'n' then .null else .boolean (b = ascii 't'), rest)

/-- Reads any value that is not nested deeper than a bound. -/
def readTree : (bound : Nat) → Reader Json
  | 0, bytes => faultAt .valueExpected bytes
  | bound + 1, bytes =>
    match skipBlanks bytes with
    | [] => faultAt .endInValue []
    | b :: rest =>
      if b = ascii '[' then readMap .array (readContainer .list (readTree bound)) rest
      else if b = ascii '\x7b' then
        readMap .object (readContainer .object (readPair (readTree bound))) rest
      else if b = ascii '"' then readMap .string readText rest
      else if startsNumber b then readMap .number readNumberText (b :: rest)
      else readWordValue (b :: rest)

/-- Reads a whole text that holds one value and nothing else. -/
def parse (text : List UInt8) : Except Fault Json :=
  match readTree text.length text with
  | .error fault => .error fault
  | .ok (j, rest) =>
    match skipBlanks rest with
    | [] => .ok j
    | b :: rest => faultIn .trailingCharacters (b :: rest)

theorem Gives.readThen {α β : Type} {read : Reader α} {next : α → Reader β} {bytes : List UInt8}
    {value : Option α} {content : α → Option β} {left left' : List UInt8 → Prop}
    (h : Gives (read bytes) value left)
    (hnext : ∀ a rest, left rest → Gives (next a rest) (content a) left') :
    Gives (Json.readThen read next bytes) (value.bind content) left' := by
  refine h.bind ?_ ?_
  · intro fault hfault
    simp only [Json.readThen, hfault]
  · intro a rest hok _ hrest
    simp only [Json.readThen, hok]
    exact hnext a rest hrest

theorem Gives.readMap {α β : Type} {read : Reader α} {f : α → β} {bytes : List UInt8}
    {value : Option α} {left : List UInt8 → Prop} (h : Gives (read bytes) value left) :
    Gives (Json.readMap f read bytes) (value.map f) left := by
  rw [Option.map_eq_bind]
  exact h.readThen fun a rest hrest => ⟨rest, rfl, hrest⟩

/-! ### Containers -/

/-- Whether a reader, set on tokens in a text, gives what is stated and leaves the tokens behind them, or
is at fault if nothing is stated. -/
def Reads {α : Type} (read : Reader α) (ts : List Token) (content : Option α) : Prop :=
  ∀ more bytes, Spread (ts ++ more) bytes → Ends more → Gives (read bytes) content (Spread more)

section

variable {α β : Type} {c : Container} {read : Reader β} {tokens : α → List Token}
  {content : α → Option β} {elements : List α} {more : List Token} {bytes : List UInt8}

theorem gives_readFurther (h : ∀ a ∈ elements, Reads read (tokens a) (content a)) {bound : Nat}
    (hbound : elements.length < bound)
    (hspread : Spread (further (elements.map tokens) ++ [c.closer] :: more) bytes) :
    Gives (readFurther c read bound bytes) (allOf content elements) (Spread more) := by
  have hblank : ¬isBlank c.closer := by
    cases c <;> decide
  have hcomma : ascii ',' ≠ c.closer := by
    cases c <;> decide
  induction elements generalizing bound bytes with
  | nil =>
    obtain ⟨bound, rfl⟩ := Nat.exists_eq_add_one.mpr hbound
    obtain ⟨rest, hskip, hrest⟩ := hspread.skipBlanks_eq hblank
    refine ⟨rest, ?_, hrest⟩
    rw [readFurther, hskip]
    exact if_pos rfl
  | cons a elements ih =>
    obtain ⟨bound, rfl⟩ := Nat.exists_eq_add_one.mpr (Nat.zero_lt_of_lt hbound)
    rw [List.map_cons, further, List.flatMap_cons, List.cons_append, List.cons_append,
      List.append_assoc] at hspread
    obtain ⟨rest, hskip, hrest⟩ := hspread.skipBlanks_eq (by decide)
    obtain ⟨ha, helements⟩ := List.forall_mem_cons.mp h
    have hread := ha _ _ hrest (ends_further c _ more)
    simp only [readFurther, hskip, List.nil_append, if_neg hcomma, if_true, allOf]
    refine hread.readThen ?_
    intro b left hleft
    exact (ih helements (Nat.lt_of_succ_lt_succ hbound) hleft).readMap

/-- A container whose elements can be told apart from its end is read element by element. -/
theorem gives_readContainer (h : ∀ a ∈ elements, Reads read (tokens a) (content a))
    (hbegins : ∀ a ∈ elements, Begins c (tokens a))
    (hspread : Spread (divided (elements.map tokens) ++ [c.closer] :: more) bytes) :
    Gives (readContainer c read bytes) (allOf content elements) (Spread more) := by
  have hblank : ¬isBlank c.closer := by
    cases c <;> decide
  cases elements with
  | nil =>
    obtain ⟨rest, hskip, hrest⟩ := hspread.skipBlanks_eq hblank
    refine ⟨rest, ?_, hrest⟩
    rw [readContainer, hskip]
    exact if_pos rfl
  | cons a elements =>
    rw [List.map_cons, divided, List.append_assoc] at hspread
    obtain ⟨ha, helements⟩ := List.forall_mem_cons.mp h
    obtain ⟨b, t, us, htokens, hb, hcloser⟩ := hbegins a List.mem_cons_self
    have hfirst := hspread
    rw [htokens, List.cons_append] at hfirst
    obtain ⟨rest, hskip, -⟩ := hfirst.skipBlanks_eq hb
    have hhere : Spread (tokens a ++ (further (elements.map tokens) ++ [c.closer] :: more))
        (b :: (t ++ rest)) := by
      rw [htokens, List.cons_append, ← hskip]
      exact hfirst.of_skipBlanks hb
    have hread := ha _ _ hhere (ends_further c _ more)
    simp only [readContainer, hskip, if_neg hcloser, allOf]
    refine hread.readThen ?_
    intro x left hleft
    refine (gives_readFurther helements ?_ hleft).readMap
    -- each element that is left takes a comma at least, and the end takes a byte more
    have hbytes := Shape.length_flatten_le hleft
    have hcommas := Shape.length_le_further (elements.map tokens)
    simp only [List.flatten_append, List.flatten_cons, List.length_append, List.length_cons,
      List.length_nil, List.length_map] at hbytes hcommas
    omega

end

/-! ### Values -/

/-- A string is read wherever it stands, also in front of a colon. -/
theorem reads_string {s : StringToken} {ts : List Token} {bytes : List UInt8}
    (h : Spread (s.bytes :: ts) bytes) : Gives (readString bytes) s.text? (Spread ts) := by
  rw [StringToken.bytes] at h
  obtain ⟨rest, hskip, hrest⟩ := h.skipBlanks_eq (by decide)
  simp only [readString, hskip, if_true]
  exact readText_token rfl hrest

theorem reads_colon {ts : List Token} {bytes : List UInt8} (h : Spread ([ascii ':'] :: ts) bytes) :
    Gives (readColon bytes) (some ()) (Spread ts) := by
  obtain ⟨rest, hcolon, hrest⟩ := Shape.readColon_eq_ok h
  refine ⟨rest, ?_, hrest⟩
  simp only [readColon, hcolon]

theorem reads_pair {read : Reader Json} {m : StringToken × Value}
    (h : Reads read m.2.tokens m.2.json?) :
    Reads (readPair read) (Value.tokensOfMember m) (Value.memberJson? m) := by
  intro more bytes hspread hends
  rw [Value.tokensOfMember, List.cons_append, List.cons_append] at hspread
  refine (reads_string hspread).readThen ?_
  intro key behind hbehind
  have hcolon := reads_colon hbehind
  rw [show (m.2.json?.map fun j => (key, j))
    = (some ()).bind fun _ => m.2.json?.map fun j => (key, j) from rfl]
  refine hcolon.readThen ?_
  intro _ left hleft
  exact (h more left hleft hends).readMap

/-- A number is read as it is written. -/
theorem gives_readNumberText (n : NumberToken) {ts : List Token} {rest : List UInt8}
    (hrest : Spread ts rest) (hends : Ends ts) :
    Gives (readNumberText (n.bytes ++ rest)) (Text.decode? n.bytes) (Spread ts) := by
  have hskip : skipValue (n.bytes ++ rest) = .ok rest :=
    skipFrom_numberToken n (hrest.parted hends)
  simp only [readNumberText, hskip, List.length_append, Nat.add_sub_cancel, List.take_left]
  cases Text.decode? n.bytes with
  | none => exact ⟨_, rfl⟩
  | some token => exact ⟨rest, rfl, hrest⟩

theorem length_le_of_mem_divided {elements : List (List Token)} {ts : List Token}
    (h : ts ∈ elements) : ts.flatten.length ≤ (divided elements).flatten.length := by
  cases elements with
  | nil => cases h
  | cons us elements =>
    rw [divided, List.flatten_append, List.length_append]
    rcases List.mem_cons.mp h with rfl | hmem
    · exact Nat.le_add_right _ _
    · obtain ⟨before, after, rfl⟩ := List.append_of_mem hmem
      simp only [further, List.flatMap_append, List.flatMap_cons, List.flatten_append,
        List.flatten_cons, List.length_append]
      omega

theorem exists_bound (v : Value) {bound : Nat} (h : v.tokens.flatten.length ≤ bound) :
    ∃ b, bound = b + 1 := by
  obtain ⟨t, ts, htokens⟩ := v.tokens_eq_lead
  rw [htokens, List.flatten_cons, List.cons_append, List.length_cons] at h
  exact Nat.exists_eq_add_one.mpr (Nat.zero_lt_of_lt h)

/-- A container inside the bound has its elements inside a smaller one. -/
theorem length_le_of_mem_container {opener closer : UInt8} {elements : List (List Token)}
    {ts : List Token} {bound : Nat} (hmem : ts ∈ elements)
    (h : ([opener] :: (divided elements ++ [[closer]])).flatten.length ≤ bound + 1) :
    ts.flatten.length ≤ bound := by
  have hle := length_le_of_mem_divided hmem
  simp only [List.flatten_cons, List.flatten_append, List.length_append, List.length_cons,
    List.flatten_nil, List.length_nil] at h
  omega

section

variable {bound : Nat}

theorem reads_null : Reads (readTree (bound + 1)) Value.null.tokens Value.null.json? := by
  intro more bytes hspread _
  obtain ⟨rest, hskip, hrest⟩ := hspread.skipBlanks_eq (by decide)
  rw [readTree, hskip]
  exact ⟨rest, rfl, hrest⟩

theorem reads_boolean (b : Bool) :
    Reads (readTree (bound + 1)) (Value.boolean b).tokens (Value.boolean b).json? := by
  intro more bytes hspread _
  cases b with
  | false =>
    obtain ⟨rest, hskip, hrest⟩ := hspread.skipBlanks_eq (by decide)
    rw [readTree, hskip]
    exact ⟨rest, rfl, hrest⟩
  | true =>
    obtain ⟨rest, hskip, hrest⟩ := hspread.skipBlanks_eq (by decide)
    rw [readTree, hskip]
    exact ⟨rest, rfl, hrest⟩

theorem reads_number (n : NumberToken) :
    Reads (readTree (bound + 1)) (Value.number n).tokens (Value.number n).json? := by
  intro more bytes hspread hends
  obtain ⟨t, us, rest, heq, hskip, hrest⟩ := Value.skipBlanks_tokens hspread
  rw [Value.tokens, List.cons.injEq] at heq
  obtain ⟨hbytes, rfl⟩ := heq
  have hstarts := Value.startsNumber_lead_number n
  have hlist : (Value.number n).lead ≠ ascii '[' := Value.lead_number_ne n rfl
  have hobject : (Value.number n).lead ≠ ascii '\x7b' := Value.lead_number_ne n rfl
  have hquote : (Value.number n).lead ≠ ascii '"' := Value.lead_number_ne n rfl
  simp only [readTree, hskip, if_neg hlist, if_neg hobject, if_neg hquote, if_pos hstarts]
  rw [← List.cons_append, ← hbytes]
  exact (gives_readNumberText n hrest hends).readMap

theorem reads_text (s : StringToken) :
    Reads (readTree (bound + 1)) (Value.string s).tokens (Value.string s).json? := by
  intro more bytes hspread _
  rw [Value.tokens, StringToken.bytes] at hspread
  obtain ⟨rest, hskip, hrest⟩ := hspread.skipBlanks_eq (by decide)
  have hread : readTree (bound + 1) bytes
      = readMap .string readText (s.flatMap Glyph.bytes ++ [ascii '"'] ++ rest) := by
    rw [readTree, hskip]
    rfl
  rw [hread]
  exact (readText_token rfl hrest).readMap

/-- An array is read if its elements are, one bound further in. -/
theorem reads_array {items : List Value} (h : ∀ v ∈ items, Reads (readTree bound) v.tokens v.json?) :
    Reads (readTree (bound + 1)) (Value.array items).tokens (Value.array items).json? := by
  intro more bytes hspread _
  rw [Value.tokens, Value.itemTokens_eq_map, List.cons_append, List.append_assoc] at hspread
  obtain ⟨rest, hskip, hrest⟩ := hspread.skipBlanks_eq (by decide)
  have hread : readTree (bound + 1) bytes
      = readMap .array (readContainer .list (readTree bound)) rest := by
    rw [readTree, hskip]
    rfl
  rw [hread, Value.json?, Value.itemsJson?_eq]
  refine Gives.readMap (gives_readContainer h ?_ hrest)
  intro v _
  obtain ⟨t, us, htokens⟩ := v.tokens_eq_lead
  exact ⟨v.lead, t, us, htokens, v.not_isBlank_lead, v.lead_ne_listEnd⟩

/-- And an object if its members' values are. -/
theorem reads_object {members : List (StringToken × Value)}
    (h : ∀ m ∈ members, Reads (readTree bound) m.2.tokens m.2.json?) :
    Reads (readTree (bound + 1)) (Value.object members).tokens (Value.object members).json? := by
  intro more bytes hspread _
  rw [Value.tokens, Value.memberTokens_eq_map, List.cons_append, List.append_assoc] at hspread
  obtain ⟨rest, hskip, hrest⟩ := hspread.skipBlanks_eq (by decide)
  have hread : readTree (bound + 1) bytes
      = readMap .object (readContainer .object (readPair (readTree bound))) rest := by
    rw [readTree, hskip]
    rfl
  rw [hread, Value.json?, Value.membersJson?_eq]
  refine Gives.readMap (gives_readContainer (fun m hm => reads_pair (h m hm)) ?_ hrest)
  intro m _
  exact ⟨ascii '"', _, _, rfl, by decide, by decide⟩

end

/-- A value of any shape is read as what it says, if the bound is as large as its tokens. -/
theorem reads_tree (v : Value) {bound : Nat} (hbound : v.tokens.flatten.length ≤ bound) :
    Reads (readTree bound) v.tokens v.json? := by
  obtain ⟨bound', rfl⟩ := exists_bound v hbound
  induction v generalizing bound' with
  | null => exact reads_null
  | boolean b => exact reads_boolean b
  | number n => exact reads_number n
  | string s => exact reads_text s
  | array items ih =>
    rw [Value.tokens, Value.itemTokens_eq_map] at hbound
    refine reads_array fun v hv => ?_
    have hlength := length_le_of_mem_container (List.mem_map_of_mem hv) hbound
    obtain ⟨bound, rfl⟩ := exists_bound v hlength
    exact ih v hv bound hlength
  | object members ih =>
    rw [Value.tokens, Value.memberTokens_eq_map] at hbound
    refine reads_object fun m hm => ?_
    have hmember := length_le_of_mem_container (List.mem_map_of_mem hm) hbound
    have hlength : m.2.tokens.flatten.length ≤ bound' := by
      rw [Value.tokensOfMember, List.flatten_cons, List.flatten_cons, List.length_append,
        List.length_append] at hmember
      omega
    obtain ⟨bound, rfl⟩ := exists_bound m.2 hlength
    exact ih m hm bound hlength

/-- The text of a value is read as what the value says. -/
theorem parse_eq_ok_iff {v : Value} {bytes : List UInt8} (h : Spread v.tokens bytes) {j : Json} :
    parse bytes = .ok j ↔ v.json? = some j := by
  have hbound := Shape.length_flatten_le h
  rw [← List.append_nil v.tokens] at h
  have hread := reads_tree v hbound [] bytes h trivial
  cases hvalue : v.json? with
  | none =>
    rw [hvalue] at hread
    obtain ⟨fault, hfault⟩ := hread
    simp [parse, hfault]
  | some i =>
    rw [hvalue] at hread
    obtain ⟨rest, hok, hrest⟩ := hread
    simp [parse, hok, hrest.skipBlanks_nil]

end FuzzCampaign.Json
