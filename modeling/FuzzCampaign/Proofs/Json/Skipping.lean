import FuzzCampaign.Json.Skip
import FuzzCampaign.Proofs.Json.Strings

/-!
Values are passed over as a whole. Each phase waits for its token through the blanks in front of it, and
when a value is over the way goes on behind it in what is open. Main statement: any value at all is
passed over, and what is left are the tokens behind it.
-/

namespace FuzzCampaign.Json

variable {opened opened' : List Container} {phase phase' : SkipPhase} {b : UInt8}
  {bytes rest : List UInt8}

/-- How the way goes on when a value is over. -/
def resume : List Container → List UInt8 → Except Fault (List UInt8)
  | [], rest => .ok rest
  | c :: opened, rest => skipFrom (c :: opened) .after rest

theorem skipFrom_go (h : phase.step opened b = .go opened' phase') :
    skipFrom opened phase (b :: rest) = skipFrom opened' phase' rest := by
  rw [skipFrom, h]

theorem skipFrom_ended (h : phase.step opened b = ended opened') :
    skipFrom opened phase (b :: rest) = resume opened' rest := by
  rw [skipFrom, h]
  cases opened' with
  | nil => rfl
  | cons c opened => rfl

/-! ### Blanks -/

/-- Whether a phase waits for a token. -/
def Waits : List Container → SkipPhase → Prop
  | _, .start | _, .key | _, .colon | _ :: _, .first | _ :: _, .after => True
  | _, _ => False

theorem waits_start (opened : List Container) : Waits opened .start := by
  cases opened <;> trivial

theorem waits_key (opened : List Container) : Waits opened .key := by
  cases opened <;> trivial

theorem waits_colon (opened : List Container) : Waits opened .colon := by
  cases opened <;> trivial

theorem step_of_waits (h : Waits opened phase) (hb : isBlank b) :
    phase.step opened b = .go opened phase := by
  cases phase with
  | start => exact if_pos hb
  | key => exact if_pos hb
  | colon => exact if_pos hb
  | first =>
    cases opened with
    | nil => cases h
    | cons c opened => exact if_pos hb
  | after =>
    cases opened with
    | nil => cases h
    | cons c opened => exact if_pos hb
  | word letters => cases h
  | number p => cases h
  | keyText p => cases h
  | text p => cases h

theorem skipFrom_gap (h : Waits opened phase) {gap : List UInt8} (hgap : gap ⊆ blanks) :
    skipFrom opened phase (gap ++ rest) = skipFrom opened phase rest := by
  induction gap with
  | nil => rfl
  | cons b gap ih =>
    obtain ⟨hb, hgap⟩ := List.cons_subset.mp hgap
    rw [List.cons_append, skipFrom_go (step_of_waits h (isBlank_iff.mpr hb)), ih hgap]

/-! ### Words -/

theorem skipFrom_word {letters : List UInt8} (h : letters ≠ []) :
    skipFrom opened (.word letters) (letters ++ rest) = resume opened rest := by
  induction letters with
  | nil => exact absurd rfl h
  | cons c letters ih =>
    rw [List.cons_append]
    by_cases hnil : letters = []
    · rw [hnil]
      refine skipFrom_ended ?_
      simp [SkipPhase.step]
    · rw [← ih hnil]
      refine skipFrom_go ?_
      simp [SkipPhase.step, hnil]

/-! ### Numbers -/

theorem skipFrom_number {p q : NumberPhase} (h : p.step b = .ok (some q)) :
    skipFrom opened (.number p) (b :: rest) = skipFrom opened (.number q) rest := by
  refine skipFrom_go ?_
  simp only [SkipPhase.step, h]

/-- A number that is complete is over in front of bytes that do not go on with it. -/
theorem skipFrom_number_end {p : NumberPhase} (hp : p.isComplete) (h : Parted rest) :
    skipFrom opened (.number p) rest = resume opened rest := by
  cases rest with
  | nil =>
    cases opened with
    | nil => simp [skipFrom, SkipPhase.endCause?, hp, resume]
    | cons c opened => simp [skipFrom, SkipPhase.endCause?, hp, resume]
  | cons b rest =>
    obtain ⟨hdigit, hpoint, hmark⟩ := h b rfl
    have hover : p.step b = .ok none := by
      cases p <;> simp_all [NumberPhase.step, NumberPhase.isComplete]
    cases opened with
    | nil => simp [skipFrom, SkipPhase.step, hover, resume]
    | cons c opened => simp [skipFrom, SkipPhase.step, hover, resume]

/-- More digits do not change the phase. -/
theorem skipFrom_digits {p : NumberPhase} (h : ∀ d, p.step (digitByte d) = .ok (some p))
    (ds : List (Fin 10)) :
    skipFrom opened (.number p) (ds.map digitByte ++ rest) = skipFrom opened (.number p) rest := by
  induction ds with
  | nil => rfl
  | cons d ds ih => rw [List.map_cons, List.cons_append, skipFrom_number (h d), ih]

theorem skipFrom_exponent {p : NumberPhase} (hp : p = .zero ∨ p = .digits ∨ p = .fraction)
    (e : Exponent) :
    skipFrom opened (.number p) (e.bytes ++ rest) = skipFrom opened (.number .exponent) rest := by
  have hmark : p.step e.mark = .ok (some .mark) := by
    have hmem := e.mark_mem
    simp only [List.mem_cons, List.not_mem_nil, or_false] at hmem
    rcases hp with rfl | rfl | rfl <;> rcases hmem with h | h <;> rw [h] <;> rfl
  have hsign : ∃ q : NumberPhase, (∀ d, q.step (digitByte d) = .ok (some .exponent)) ∧
      ∀ bytes, skipFrom opened (.number .mark) (e.sign ++ bytes)
        = skipFrom opened (.number q) bytes := by
    have hmem := e.sign_mem
    simp only [List.mem_cons, List.not_mem_nil, or_false] at hmem
    rcases hmem with h | h | h
    · exact ⟨.mark, fun d => if_pos (isDigit_digitByte d), fun bytes => by rw [h]; rfl⟩
    · refine ⟨.sign, fun d => if_pos (isDigit_digitByte d), ?_⟩
      intro bytes
      rw [h]
      exact skipFrom_number rfl
    · refine ⟨.sign, fun d => if_pos (isDigit_digitByte d), ?_⟩
      intro bytes
      rw [h]
      exact skipFrom_number rfl
  have hmore : ∀ d, NumberPhase.exponent.step (digitByte d) = .ok (some .exponent) :=
    fun d => if_pos (isDigit_digitByte d)
  obtain ⟨q, hfirst, hskip⟩ := hsign
  rw [Exponent.bytes, List.cons_append, skipFrom_number hmark, List.append_assoc, hskip,
    Digits.bytes, List.cons_append, skipFrom_number (hfirst _), skipFrom_digits hmore]

theorem skipFrom_fraction {p : NumberPhase} (hp : p = .zero ∨ p = .digits) (d : Digits) :
    skipFrom opened (.number p) (ascii '.' :: (d.bytes ++ rest))
      = skipFrom opened (.number .fraction) rest := by
  have hpoint : p.step (ascii '.') = .ok (some .point) := by
    rcases hp with rfl | rfl
    · rfl
    · rfl
  have hfirst : ∀ d, NumberPhase.point.step (digitByte d) = .ok (some .fraction) :=
    fun d => if_pos (isDigit_digitByte d)
  have hmore : ∀ d, NumberPhase.fraction.step (digitByte d) = .ok (some .fraction) :=
    fun d => if_pos (isDigit_digitByte d)
  rw [skipFrom_number hpoint, Digits.bytes, List.cons_append, skipFrom_number (hfirst _),
    skipFrom_digits hmore]

/-- Behind the whole part, a number is passed over up to its end. -/
theorem skipFrom_endBytes {p : NumberPhase} (hp : p = .zero ∨ p = .digits) (n : NumberToken)
    (h : Parted rest) :
    skipFrom opened (.number p) (n.endBytes ++ rest) = resume opened rest := by
  have hcomplete : p.isComplete := by
    rcases hp with rfl | rfl
    · rfl
    · rfl
  rw [NumberToken.endBytes]
  cases n.fraction with
  | none =>
    cases n.exponent with
    | none => exact skipFrom_number_end hcomplete h
    | some e =>
      rw [List.nil_append, skipFrom_exponent (hp.imp_right .inl)]
      exact skipFrom_number_end rfl h
  | some d =>
    rw [List.append_assoc, List.cons_append, skipFrom_fraction hp]
    cases n.exponent with
    | none => exact skipFrom_number_end rfl h
    | some e =>
      rw [skipFrom_exponent (.inr (.inr rfl))]
      exact skipFrom_number_end rfl h

/-- The phase behind the first digit of a number. -/
def firstPhase (d : Fin 10) : NumberPhase := if d = 0 then .zero else .digits

theorem skipFrom_whole {d : Digits} (hlead : d.first = 0 → d.more = []) :
    skipFrom opened (.number (firstPhase d.first)) (d.more.map digitByte ++ rest)
      = skipFrom opened (.number (firstPhase d.first)) rest := by
  by_cases hzero : d.first = 0
  · rw [hlead hzero]
    rfl
  · have hmore : ∀ e, NumberPhase.digits.step (digitByte e) = .ok (some .digits) :=
      fun e => if_pos (isDigit_digitByte e)
    rw [firstPhase, if_neg hzero, skipFrom_digits hmore]

theorem stepStart_digitByte (d : Fin 10) :
    stepStart opened (digitByte d) = .go opened (.number (firstPhase d)) := by
  have hkind : ∀ d : Fin 10, isBlank (digitByte d) = false ∧ digitByte d ≠ ascii '"' ∧
      digitByte d ≠ ascii '[' ∧ digitByte d ≠ ascii '\x7b' ∧ wordAfter? (digitByte d) = none ∧
      numberStart? (digitByte d) = some (firstPhase d) := by decide
  obtain ⟨hblank, hquote, hlist, hobject, hword, hnumber⟩ := hkind d
  simp [stepStart, hblank, hquote, hlist, hobject, hword, hnumber]

theorem skipFrom_numberToken (n : NumberToken) (h : Parted rest) :
    skipFrom opened .start (n.bytes ++ rest) = resume opened rest := by
  have hphase : firstPhase n.whole.first = .zero ∨ firstPhase n.whole.first = .digits := by
    unfold firstPhase
    split
    · exact .inl rfl
    · exact .inr rfl
  rw [NumberToken.bytes, List.append_assoc, List.append_assoc, Digits.bytes, List.cons_append]
  cases n.isNegative with
  | false =>
    have hstart : SkipPhase.start.step opened (digitByte n.whole.first)
        = .go opened (.number (firstPhase n.whole.first)) := stepStart_digitByte _
    rw [if_neg Bool.false_ne_true, List.nil_append, skipFrom_go hstart, skipFrom_whole n.leading,
      skipFrom_endBytes hphase n h]
  | true =>
    have hstart : SkipPhase.start.step opened (ascii '-') = .go opened (.number .minus) := rfl
    have hzero : ∀ d : Fin 10, digitByte d = ascii '0' ↔ d = 0 := by decide
    have hfirst : NumberPhase.minus.step (digitByte n.whole.first)
        = .ok (some (firstPhase n.whole.first)) := by
      simp only [NumberPhase.step, firstPhase, hzero, isDigit_digitByte, if_true]
      split <;> rfl
    rw [if_pos rfl, List.singleton_append, skipFrom_go hstart, skipFrom_number hfirst,
      skipFrom_whole n.leading, skipFrom_endBytes hphase n h]

/-! ### Strings -/

section

-- strings are passed over alike as keys and as values
variable {wrap : SkipTextPhase → SkipPhase}
  (hwrap : ∀ p b q, p.step b = .ok (some q) → (wrap p).step opened b = .go opened (wrap q))

include hwrap

theorem skipFrom_plain {bytes : List UInt8} (h : ∀ b ∈ bytes, IsPlainByte b) :
    skipFrom opened (wrap .plain) (bytes ++ rest) = skipFrom opened (wrap .plain) rest := by
  induction bytes with
  | nil => rfl
  | cons b bytes ih =>
    obtain ⟨⟨hquote, hbackslash, hcontrol⟩, hbytes⟩ := List.forall_mem_cons.mp h
    have hplain : SkipTextPhase.plain.step b = .ok (some .plain) := by
      rw [SkipTextPhase.step, if_neg hquote, if_neg hbackslash, if_neg hcontrol]
    rw [List.cons_append, skipFrom_go (hwrap _ _ _ hplain), ih hbytes]

theorem skipFrom_glyph (g : Glyph) :
    skipFrom opened (wrap .plain) (g.bytes ++ rest) = skipFrom opened (wrap .plain) rest := by
  have hbackslash : SkipTextPhase.plain.step (ascii '\\') = .ok (some .escape) := rfl
  cases g with
  | plain c hc => exact skipFrom_plain hwrap fun b hb => isPlainByte_of_mem hc hb
  | escape e =>
    have hletter : SkipTextPhase.escape.step e.letter = .ok (some .plain) := by
      cases e <;> rfl
    rw [Glyph.bytes, List.cons_append, List.cons_append, skipFrom_go (hwrap _ _ _ hbackslash),
      skipFrom_go (hwrap _ _ _ hletter), List.nil_append]
  | code u =>
    have hletter : SkipTextPhase.escape.step (ascii 'u') = .ok (some (.code 4 true)) := rfl
    have hdigit : ∀ left (d : HexDigit),
        (SkipTextPhase.code (left + 2) true).step d.byte = .ok (some (.code (left + 1) true)) := by
      intro left d
      simp [SkipTextPhase.step, hexDigit?_byte]
    have hlast : ∀ d : HexDigit,
        (SkipTextPhase.code 1 true).step d.byte = .ok (some .plain) := by
      intro d
      simp [SkipTextPhase.step, hexDigit?_byte]
    rw [Glyph.bytes, HexUnit.bytes, List.cons_append, List.cons_append, List.cons_append,
      List.cons_append, List.cons_append, List.cons_append, List.nil_append,
      skipFrom_go (hwrap _ _ _ hbackslash), skipFrom_go (hwrap _ _ _ hletter),
      skipFrom_go (hwrap _ _ _ (hdigit 2 _)), skipFrom_go (hwrap _ _ _ (hdigit 1 _)),
      skipFrom_go (hwrap _ _ _ (hdigit 0 _)), skipFrom_go (hwrap _ _ _ (hlast _))]

theorem skipFrom_glyphs (s : StringToken) :
    skipFrom opened (wrap .plain) (s.flatMap Glyph.bytes ++ rest)
      = skipFrom opened (wrap .plain) rest := by
  induction s with
  | nil => rfl
  | cons g s ih => rw [List.flatMap_cons, List.append_assoc, skipFrom_glyph hwrap, ih]

end

theorem skipFrom_string (s : StringToken) :
    skipFrom opened .start (s.bytes ++ rest) = resume opened rest := by
  have hopen : SkipPhase.start.step opened (ascii '"') = .go opened (.text .plain) := rfl
  have hclose : (SkipPhase.text .plain).step opened (ascii '"') = ended opened := rfl
  have hwrap : ∀ p b q, p.step b = .ok (some q) →
      (SkipPhase.text p).step opened b = .go opened (.text q) := by
    intro p b q h
    rw [SkipPhase.step, h]
  rw [StringToken.bytes, List.cons_append, List.append_assoc, skipFrom_go hopen,
    skipFrom_glyphs hwrap, List.singleton_append, skipFrom_ended hclose]

theorem skipFrom_key (s : StringToken) :
    skipFrom opened .key (s.bytes ++ rest) = skipFrom opened .colon rest := by
  have hopen : SkipPhase.key.step opened (ascii '"') = .go opened (.keyText .plain) := rfl
  have hclose : (SkipPhase.keyText .plain).step opened (ascii '"') = .go opened .colon := rfl
  have hwrap : ∀ p b q, p.step b = .ok (some q) →
      (SkipPhase.keyText p).step opened b = .go opened (.keyText q) := by
    intro p b q h
    rw [SkipPhase.step, h]
  rw [StringToken.bytes, List.cons_append, List.append_assoc, skipFrom_go hopen,
    skipFrom_glyphs hwrap, List.singleton_append, skipFrom_go hclose]

/-! ### Containers -/

/-- Whether the way leads past tokens to the end of a value. -/
def Passes (opened : List Container) (phase : SkipPhase) (ts : List Token) : Prop :=
  ∀ more bytes, Spread (ts ++ more) bytes → Ends more →
    ∃ rest, Spread more rest ∧ skipFrom opened phase bytes = resume opened rest

/-- A token is passed if it is passed where nothing stands in front of it. -/
theorem passes_token {t : Token} (hwaits : Waits opened phase)
    (h : ∀ rest, Parted rest → skipFrom opened phase (t ++ rest) = resume opened rest) :
    Passes opened phase [t] := by
  intro more bytes hspread hends
  obtain ⟨gap, rest, hgap, rfl, hrest⟩ := Spread.cons_iff.mp hspread
  refine ⟨rest, hrest, ?_⟩
  rw [skipFrom_gap hwaits hgap, h rest (hrest.parted hends)]

namespace Container

/-- The byte that opens a container. -/
def opener : Container → UInt8
  | list => ascii '['
  | object => ascii '\x7b'

/-- The phase in front of an element. -/
def elementPhase : Container → SkipPhase
  | list => .start
  | object => .key

theorem waits_elementPhase (c : Container) : Waits opened c.elementPhase := by
  cases c with
  | list => cases opened <;> trivial
  | object => cases opened <;> trivial

end Container

/-- Whether tokens can be told apart from the end of a container. -/
def Begins (c : Container) (ts : List Token) : Prop :=
  ∃ b t us, ts = (b :: t) :: us ∧ ¬isBlank b ∧ b ≠ c.closer

variable {c : Container}

/-- The first element starts like every other one. -/
theorem skipFrom_first {ts : List Token} (hbegins : Begins c ts) (h : Spread ts bytes) :
    skipFrom (c :: opened) .first bytes = skipFrom (c :: opened) c.elementPhase bytes := by
  obtain ⟨b, t, us, rfl, hblank, hcloser⟩ := hbegins
  obtain ⟨gap, rest, hgap, rfl, -⟩ := Spread.cons_iff.mp h
  have hfirst : Waits (c :: opened) .first := trivial
  have hstep : SkipPhase.first.step (c :: opened) b = c.elementPhase.step (c :: opened) b := by
    cases c with
    | list => simp [SkipPhase.step, stepFirst, hblank, hcloser, Container.elementPhase]
    | object => simp [SkipPhase.step, stepFirst, hblank, hcloser, Container.elementPhase]
  rw [skipFrom_gap hfirst hgap, skipFrom_gap c.waits_elementPhase hgap, List.cons_append,
    skipFrom, skipFrom, hstep]

/-- The end of a container in which a value was passed. -/
theorem resume_closer {more : List Token} (h : Spread ([c.closer] :: more) bytes) :
    ∃ rest, Spread more rest ∧ resume (c :: opened) bytes = resume opened rest := by
  obtain ⟨gap, rest, hgap, rfl, hrest⟩ := Spread.cons_iff.mp h
  have hafter : Waits (c :: opened) .after := trivial
  have hclose : SkipPhase.after.step (c :: opened) c.closer = ended opened := by
    cases c <;> rfl
  refine ⟨rest, hrest, ?_⟩
  rw [resume, skipFrom_gap hafter hgap, List.singleton_append, skipFrom_ended hclose]

/-- A comma behind a value that was passed. -/
theorem resume_comma {more : List Token} (h : Spread ([ascii ','] :: more) bytes) :
    ∃ rest, Spread more rest ∧
      resume (c :: opened) bytes = skipFrom (c :: opened) c.elementPhase rest := by
  obtain ⟨gap, rest, hgap, rfl, hrest⟩ := Spread.cons_iff.mp h
  have hafter : Waits (c :: opened) .after := trivial
  have hcomma : SkipPhase.after.step (c :: opened) (ascii ',')
      = .go (c :: opened) c.elementPhase := by
    cases c <;> rfl
  refine ⟨rest, hrest, ?_⟩
  rw [resume, skipFrom_gap hafter hgap, List.singleton_append, skipFrom_go hcomma]

theorem ends_closer (c : Container) (more : List Token) : Ends ([c.closer] :: more) := by
  cases c <;> exact ⟨_, by decide, rfl⟩

/-- Behind an element comes the next one or the end of the container. -/
theorem ends_further (c : Container) (elements : List (List Token)) (more : List Token) :
    Ends (further elements ++ [c.closer] :: more) := by
  cases elements with
  | nil => exact ends_closer c more
  | cons ts elements => exact ⟨_, by decide, rfl⟩

/-- The elements behind one that was passed are passed one by one, up to the end of the container. -/
theorem resume_further {elements : List (List Token)}
    (h : ∀ ts ∈ elements, Passes (c :: opened) c.elementPhase ts) (more : List Token) :
    Spread (further elements ++ [c.closer] :: more) bytes →
      ∃ rest, Spread more rest ∧ resume (c :: opened) bytes = resume opened rest := by
  intro hspread
  induction elements generalizing bytes with
  | nil => exact resume_closer hspread
  | cons ts elements ih =>
    rw [further, List.flatMap_cons, List.cons_append, List.cons_append, List.append_assoc] at hspread
    obtain ⟨left, hleft, hcomma⟩ := resume_comma hspread
    obtain ⟨rest, hrest, hskip⟩ := h ts List.mem_cons_self _ _ hleft (ends_further c elements more)
    obtain ⟨last, hlast, hmore⟩ := ih (fun us hus => h us (List.mem_cons_of_mem ts hus)) hrest
    exact ⟨last, hlast, hcomma.trans (hskip.trans hmore)⟩

/-- A container is passed if its elements are. -/
theorem passes_container {elements : List (List Token)}
    (h : ∀ ts ∈ elements, Passes (c :: opened) c.elementPhase ts)
    (hbegins : ∀ ts ∈ elements, Begins c ts) :
    Passes opened .start ([c.opener] :: (divided elements ++ [[c.closer]])) := by
  intro more bytes hspread _
  rw [List.cons_append, List.append_assoc, List.singleton_append] at hspread
  obtain ⟨gap, rest, hgap, rfl, hrest⟩ := Spread.cons_iff.mp hspread
  have hopen : SkipPhase.start.step opened c.opener = .go (c :: opened) .first := by
    cases c <;> rfl
  rw [skipFrom_gap (waits_start opened) hgap, List.singleton_append, skipFrom_go hopen]
  cases elements with
  | nil =>
    obtain ⟨gap, left, hgap, rfl, hleft⟩ := Spread.cons_iff.mp hrest
    have hfirst : Waits (c :: opened) .first := trivial
    have hclose : SkipPhase.first.step (c :: opened) c.closer = ended opened := by
      cases c <;> rfl
    refine ⟨left, hleft, ?_⟩
    rw [skipFrom_gap hfirst hgap, List.singleton_append, skipFrom_ended hclose]
  | cons ts elements =>
    rw [divided, List.append_assoc] at hrest
    have hfirst : Begins c (ts ++ (further elements ++ [c.closer] :: more)) := by
      obtain ⟨b, t, us, rfl, hb⟩ := hbegins ts List.mem_cons_self
      exact ⟨b, t, _, rfl, hb⟩
    rw [skipFrom_first hfirst hrest]
    obtain ⟨left, hleft, hskip⟩ :=
      h ts List.mem_cons_self _ _ hrest (ends_further c elements more)
    obtain ⟨last, hlast, hmore⟩ :=
      resume_further (fun us hus => h us (List.mem_cons_of_mem ts hus)) more hleft
    exact ⟨last, hlast, hskip.trans hmore⟩

/-! ### Values -/

/-- A member is passed if its value is. -/
theorem passes_member (m : StringToken × Value) (h : Passes opened .start m.2.tokens) :
    Passes opened .key (Value.tokensOfMember m) := by
  intro more bytes hspread hends
  rw [Value.tokensOfMember, List.cons_append, List.cons_append] at hspread
  obtain ⟨gap, rest, hgap, rfl, hrest⟩ := Spread.cons_iff.mp hspread
  obtain ⟨gap', rest', hgap', rfl, hvalue⟩ := Spread.cons_iff.mp hrest
  have hcolon : SkipPhase.colon.step opened (ascii ':') = .go opened .start := rfl
  rw [skipFrom_gap (waits_key opened) hgap, skipFrom_key, skipFrom_gap (waits_colon opened) hgap',
    List.singleton_append, skipFrom_go hcolon]
  exact h more rest' hvalue hends

theorem passes_word {letters : List UInt8} (hne : letters ≠ [])
    (hword : stepStart opened b = .go opened (.word letters)) :
    Passes opened .start [b :: letters] := by
  refine passes_token (waits_start opened) ?_
  intro rest _
  have hstep : SkipPhase.start.step opened b = .go opened (.word letters) := hword
  rw [List.cons_append, skipFrom_go hstep, skipFrom_word hne]

theorem passes_value (v : Value) : ∀ opened, Passes opened .start v.tokens := by
  induction v with
  | null => exact fun opened => passes_word (List.cons_ne_nil _ _) rfl
  | boolean b =>
    intro opened
    cases b with
    | false => exact passes_word (List.cons_ne_nil _ _) rfl
    | true => exact passes_word (List.cons_ne_nil _ _) rfl
  | number n =>
    intro opened
    exact passes_token (waits_start opened) fun rest h => skipFrom_numberToken n h
  | string s =>
    intro opened
    exact passes_token (waits_start opened) fun rest _ => skipFrom_string s
  | array items ih =>
    intro opened
    rw [Value.tokens, Value.itemTokens_eq_map]
    refine passes_container (c := .list) ?_ ?_
    · intro ts hts
      obtain ⟨v, hv, rfl⟩ := List.mem_map.mp hts
      exact ih v hv (.list :: opened)
    · intro ts hts
      obtain ⟨v, hv, rfl⟩ := List.mem_map.mp hts
      obtain ⟨t, us, heq⟩ := v.tokens_eq_lead
      exact ⟨v.lead, t, us, heq, v.not_isBlank_lead, v.lead_ne_listEnd⟩
  | object members ih =>
    intro opened
    rw [Value.tokens, Value.memberTokens_eq_map]
    refine passes_container (c := .object) ?_ ?_
    · intro ts hts
      obtain ⟨m, hm, rfl⟩ := List.mem_map.mp hts
      exact passes_member m (ih m hm (.object :: opened))
    · intro ts hts
      obtain ⟨m, -, rfl⟩ := List.mem_map.mp hts
      exact ⟨ascii '"', _, _, rfl, by decide, by decide⟩

/-- Every value is passed over, whatever is in it. -/
theorem skipValue_value (v : Value) {ts : List Token} (h : Spread (v.tokens ++ ts) bytes)
    (hends : Ends ts) : ∃ rest, skipValue bytes = .ok rest ∧ Spread ts rest := by
  obtain ⟨rest, hrest, hskip⟩ := passes_value v [] ts bytes h hends
  exact ⟨rest, hskip, hrest⟩

end FuzzCampaign.Json
