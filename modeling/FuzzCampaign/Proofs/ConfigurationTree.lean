import FuzzCampaign.Config
import FuzzCampaign.Proofs.Toml.DistinctKeys

/-!
What a configuration document says, told from its tree. Entries are read one by one, but as no key stands
twice among them each part of the configuration is decided by one entry, wherever it stands, and keeps its
usual value without it. Main statement: a tree is read as a configuration exactly when it has the two
sections and their keys only, each with a value of its kind; the configuration then has each value that the
tree gives, and the usual one for each that it does not give; and the order of keys changes nothing.
-/

namespace FuzzCampaign.Config

open Toml (Value Reordered)

/-- Whether entries are those of a section on input. -/
def IsInput (table : List (String × Value)) : Prop :=
  ∀ e ∈ table, (e.1 = "metadata-dir" ∨ e.1 = "state-file" ∨ e.1 = "record-extension") ∧
    ∃ text, e.2 = .string text

/-- Whether entries are those of a section on output. -/
def IsOutput (table : List (String × Value)) : Prop :=
  ∀ e ∈ table, (e.1 = "report-file" ∧ ∃ text, e.2 = .string text) ∨
    (e.1 = "pretty" ∧ ∃ b, e.2 = .boolean b)

/-- Whether an entry is one of the two sections. -/
def IsSection (e : String × Value) : Prop :=
  ∃ table, e.2 = .table table ∧ (e.1 = "input" ∧ IsInput table ∨ e.1 = "output" ∧ IsOutput table)

/-- Whether entries are those of a configuration. -/
def IsConfiguration (entries : List (String × Value)) : Prop := ∀ e ∈ entries, IsSection e

/-- Whether a document gives a value to a key of a section. -/
def Sets (entries : List (String × Value)) (name key : String) (v : Value) : Prop :=
  ∃ table, (name, .table table) ∈ entries ∧ (key, v) ∈ table

/-- Whether a field has the value that a document gives it, or the usual one if it gives none. -/
structure Takes {α : Type} (entries : List (String × Value)) (name key : String) (value : α → Value)
    (usual found : α) : Prop where
  set : ∀ v, Sets entries name key v → v = value found
  unset : (∀ v, ¬Sets entries name key v) → found = usual

/-- Whether a configuration is what a document says. -/
structure IsRead (entries : List (String × Value)) (c : Config) : Prop where
  metadata : Takes entries "input" "metadata-dir" .string "metadata" c.places.metadata
  stateFile : Takes entries "input" "state-file" .string "state/global_state.json" c.places.stateFile
  extension : Takes entries "input" "record-extension" .string "json" c.places.extension
  reportFile : Takes entries "output" "report-file" .string "report.json" c.output.reportFile
  layout : Takes entries "output" "pretty" (fun l => .boolean (l == .pretty)) .pretty c.output.layout

/-! ### Entries one by one -/

section Entries

variable {σ α ε : Type} {step : σ → String × Value → Except ε σ} {s t : σ} {key : String}
  {entries : List (String × Value)} {part : σ → α} {Says : Value → α → Prop}

/-- Entries are read if and only if each of them can be. -/
theorem exists_foldlM_iff {Fits : String × Value → Prop}
    (h : ∀ e ∈ entries, ∀ s, (∃ t, step s e = .ok t) ↔ Fits e) :
    (∃ t, entries.foldlM step s = .ok t) ↔ ∀ e ∈ entries, Fits e := by
  induction entries generalizing s with
  | nil => exact ⟨fun _ => by simp, fun _ => ⟨s, rfl⟩⟩
  | cons e entries ih =>
    obtain ⟨he, hrest⟩ := List.forall_mem_cons.mp h
    rw [List.foldlM_cons, List.forall_mem_cons, ← he s]
    cases hstep : step s e with
    | error fault => simp [bind, Except.bind]
    | ok s' => simpa [bind, Except.bind] using ih hrest

/-- What an entry makes of a part: its value if it has the key of the part, and otherwise nothing new. -/
def Gains (key : String) (Says : Value → α → Prop) (e : String × Value) (before after : α) : Prop :=
  if e.1 = key then Says e.2 after else after = before

/-- A part is as the entry with its key says, wherever that stands, and is kept if there is none. -/
theorem decided_of_foldlM
    (hstep : ∀ {s t e}, step s e = .ok t → Gains key Says e (part s) (part t))
    (hkeys : (entries.map (·.1)).Nodup) (h : entries.foldlM step s = .ok t) :
    (∀ v, (key, v) ∈ entries → Says v (part t)) ∧
      ((∀ v, (key, v) ∉ entries) → part t = part s) := by
  induction entries generalizing s with
  | nil =>
    cases h
    exact ⟨by simp, fun _ => rfl⟩
  | cons e entries ih =>
    rw [List.foldlM_cons] at h
    cases hnext : step s e with
    | error fault =>
      rw [hnext] at h
      cases h
    | ok s' =>
      rw [hnext] at h
      obtain ⟨hfirst, hkeys⟩ := List.nodup_cons.mp hkeys
      obtain ⟨hgiven, hkept⟩ := ih hkeys h
      have hgains : Gains key Says e (part s) (part s') := hstep hnext
      by_cases hkey : e.1 = key
      · rw [Gains, if_pos hkey] at hgains
        subst hkey
        -- the key stands nowhere behind, so what is read there keeps the part
        have hno : ∀ v, (e.1, v) ∉ entries := fun v hv => hfirst (List.mem_map.mpr ⟨_, hv, rfl⟩)
        refine ⟨?_, fun hmissing => absurd List.mem_cons_self (hmissing e.2)⟩
        intro v hv
        rcases List.mem_cons.mp hv with heq | hv
        · obtain rfl : v = e.2 := congrArg Prod.snd heq
          exact hkept hno ▸ hgains
        · exact absurd hv (hno v)
      · rw [Gains, if_neg hkey] at hgains
        refine ⟨?_, fun hmissing => ?_⟩
        · intro v hv
          rcases List.mem_cons.mp hv with rfl | hv
          · exact absurd rfl hkey
          · exact hgiven v hv
        · have hrest := hkept fun v hv => hmissing v (List.mem_cons_of_mem e hv)
          exact hrest.trans hgains

end Entries

/-! ### What one entry does -/

variable {entries entries' : List (String × Value)} {e : String × Value} {v : Value} {c d : Config}

theorem map_eq_ok_iff {ε α β : Type} {x : Except ε α} {f : α → β} {b : β} :
    x.map f = .ok b ↔ ∃ a, x = .ok a ∧ b = f a := by
  cases x with
  | error fault => simp [Except.map]
  | ok a => simp [Except.map, eq_comm]

theorem readPath_eq_ok_iff {text : String} : readPath v = .ok text ↔ v = .string text := by
  cases v <;> simp [readPath]

theorem readText_eq_ok_iff {text : String} : readText v = .ok text ↔ v = .string text := by
  cases v <;> simp [readText]

theorem readLayout_eq_ok_iff {l : Layout} : readLayout v = .ok l ↔ v = .boolean (l == .pretty) := by
  cases v with
  | boolean b => cases b <;> cases l <;> simp [readLayout]
  | _ => simp [readLayout]

/-- All that an entry of the section on input can do. -/
theorem inputSection_set_eq_ok_iff {p q : Places} : inputSection.set p e = .ok q ↔
    (∃ text, e = ("metadata-dir", .string text) ∧ q = { p with metadata := text }) ∨
    (∃ text, e = ("state-file", .string text) ∧ q = { p with stateFile := text }) ∨
    ∃ text, e = ("record-extension", .string text) ∧ q = { p with extension := text } := by
  obtain ⟨key, v⟩ := e
  simp only [Section.set, inputSection, List.mem_cons, List.not_mem_nil, or_false]
  by_cases hmetadata : key = "metadata-dir"
  · subst hmetadata
    simp [map_eq_ok_iff, readPath_eq_ok_iff]
  · by_cases hstate : key = "state-file"
    · subst hstate
      simp [map_eq_ok_iff, readPath_eq_ok_iff]
    · by_cases hextension : key = "record-extension"
      · subst hextension
        simp [map_eq_ok_iff, readText_eq_ok_iff]
      · simp [hmetadata, hstate, hextension]

/-- All that an entry of the section on output can do. -/
theorem outputSection_set_eq_ok_iff {o o' : Output} : outputSection.set o e = .ok o' ↔
    (∃ text, e = ("report-file", .string text) ∧ o' = { o with reportFile := text }) ∨
    ∃ l : Layout, e = ("pretty", .boolean (l == .pretty)) ∧ o' = { o with layout := l } := by
  obtain ⟨key, v⟩ := e
  simp only [Section.set, outputSection, List.mem_cons, List.not_mem_nil, or_false]
  by_cases hfile : key = "report-file"
  · subst hfile
    simp [map_eq_ok_iff, readPath_eq_ok_iff]
  · by_cases hpretty : key = "pretty"
    · subst hpretty
      simp [map_eq_ok_iff, readLayout_eq_ok_iff]
    · simp [hfile, hpretty]

/-- All that a section can do. -/
theorem addSection_eq_ok_iff : addSection c e = .ok d ↔
    (e.1 = "input" ∧ ∃ p, inputSection.read e.2 = .ok p ∧ d = { c with places := p }) ∨
    (e.1 = "output" ∧ ∃ o, outputSection.read e.2 = .ok o ∧ d = { c with output := o }) := by
  by_cases hinput : e.1 = "input"
  · simp [addSection, hinput, map_eq_ok_iff]
  · by_cases houtput : e.1 = "output"
    · simp [addSection, houtput, map_eq_ok_iff]
    · simp [addSection, hinput, houtput]

theorem gains_inputSection {p q : Places} (h : inputSection.set p e = .ok q) :
    Gains "metadata-dir" (fun v text => v = .string text) e p.metadata q.metadata ∧
      Gains "state-file" (fun v text => v = .string text) e p.stateFile q.stateFile ∧
      Gains "record-extension" (fun v text => v = .string text) e p.extension q.extension := by
  rcases inputSection_set_eq_ok_iff.mp h with
    ⟨text, rfl, rfl⟩ | ⟨text, rfl, rfl⟩ | ⟨text, rfl, rfl⟩ <;> simp [Gains]

theorem gains_outputSection {o o' : Output} (h : outputSection.set o e = .ok o') :
    Gains "report-file" (fun v text => v = .string text) e o.reportFile o'.reportFile ∧
      Gains "pretty" (fun v l => v = .boolean (l == .pretty)) e o.layout o'.layout := by
  rcases outputSection_set_eq_ok_iff.mp h with ⟨text, rfl, rfl⟩ | ⟨l, rfl, rfl⟩ <;> simp [Gains]

theorem gains_addSection (h : addSection c e = .ok d) :
    Gains "input" (fun v p => inputSection.read v = .ok p) e c.places d.places ∧
      Gains "output" (fun v o => outputSection.read v = .ok o) e c.output d.output := by
  rcases addSection_eq_ok_iff.mp h with ⟨hkey, p, hp, rfl⟩ | ⟨hkey, o, ho, rfl⟩
  · simp [Gains, hkey, hp]
  · simp [Gains, hkey, ho]

/-! ### When a tree is read -/

/-- What is read as a section and is no array is a table. -/
theorem read_eq_ok_iff {σ : Type} {s : Section σ} {x : σ} (hitems : ∀ items, v ≠ .array items) :
    s.read v = .ok x ↔ ∃ table, v = .table table ∧ table.foldlM s.set s.usual = .ok x := by
  cases v with
  | table table => simp [Section.read]
  | array items => exact absurd rfl (hitems items)
  | string _ | integer _ | real _ | boolean _ | datetime => simp [Section.read]

theorem exists_inputSection_set_iff (p : Places) : (∃ q, inputSection.set p e = .ok q) ↔
    (e.1 = "metadata-dir" ∨ e.1 = "state-file" ∨ e.1 = "record-extension") ∧
      ∃ text, e.2 = .string text := by
  simp only [inputSection_set_eq_ok_iff]
  constructor
  · rintro ⟨q, ⟨text, rfl, -⟩ | ⟨text, rfl, -⟩ | ⟨text, rfl, -⟩⟩
    · exact ⟨.inl rfl, text, rfl⟩
    · exact ⟨.inr (.inl rfl), text, rfl⟩
    · exact ⟨.inr (.inr rfl), text, rfl⟩
  · obtain ⟨key, v⟩ := e
    rintro ⟨rfl | rfl | rfl, text, rfl⟩
    · exact ⟨_, .inl ⟨text, rfl, rfl⟩⟩
    · exact ⟨_, .inr (.inl ⟨text, rfl, rfl⟩)⟩
    · exact ⟨_, .inr (.inr ⟨text, rfl, rfl⟩)⟩

theorem exists_outputSection_set_iff (o : Output) : (∃ o', outputSection.set o e = .ok o') ↔
    e.1 = "report-file" ∧ (∃ text, e.2 = .string text) ∨ e.1 = "pretty" ∧ ∃ b, e.2 = .boolean b := by
  simp only [outputSection_set_eq_ok_iff]
  constructor
  · rintro ⟨o', ⟨text, rfl, -⟩ | ⟨l, rfl, -⟩⟩
    · exact .inl ⟨rfl, text, rfl⟩
    · exact .inr ⟨rfl, _, rfl⟩
  · obtain ⟨key, v⟩ := e
    rintro (⟨rfl, text, rfl⟩ | ⟨rfl, b, rfl⟩)
    · exact ⟨_, .inl ⟨text, rfl, rfl⟩⟩
    · cases b with
      | true => exact ⟨_, .inr ⟨.pretty, rfl, rfl⟩⟩
      | false => exact ⟨_, .inr ⟨.compact, rfl, rfl⟩⟩

/-- A section is read if its entries can be. -/
theorem exists_read_iff {σ : Type} {s : Section σ} {Fits : String × Value → Prop}
    (hset : ∀ e x, (∃ y, s.set x e = .ok y) ↔ Fits e) (hitems : ∀ items, v ≠ .array items) :
    (∃ x, s.read v = .ok x) ↔ ∃ table, v = .table table ∧ ∀ e ∈ table, Fits e := by
  simp only [read_eq_ok_iff hitems]
  rw [exists_comm]
  refine exists_congr fun table => ?_
  rw [exists_and_left, exists_foldlM_iff fun e _ => hset e]

theorem exists_addSection_iff (h : ∀ items, e.1 = "input" ∨ e.1 = "output" → e.2 ≠ .array items)
    (c : Config) : (∃ d, addSection c e = .ok d) ↔ IsSection e := by
  have hinput : e.1 = "input" →
      ((∃ p, inputSection.read e.2 = .ok p) ↔ ∃ table, e.2 = .table table ∧ IsInput table) :=
    fun hkey => exists_read_iff (fun _ => exists_inputSection_set_iff) fun items => h items (.inl hkey)
  have houtput : e.1 = "output" →
      ((∃ o, outputSection.read e.2 = .ok o) ↔ ∃ table, e.2 = .table table ∧ IsOutput table) :=
    fun hkey => exists_read_iff (fun _ => exists_outputSection_set_iff) fun items => h items (.inr hkey)
  simp only [addSection_eq_ok_iff]
  constructor
  · rintro ⟨d, ⟨hkey, p, hp, -⟩ | ⟨hkey, o, ho, -⟩⟩
    · obtain ⟨table, hv, htable⟩ := (hinput hkey).mp ⟨p, hp⟩
      exact ⟨table, hv, .inl ⟨hkey, htable⟩⟩
    · obtain ⟨table, hv, htable⟩ := (houtput hkey).mp ⟨o, ho⟩
      exact ⟨table, hv, .inr ⟨hkey, htable⟩⟩
  · rintro ⟨table, hv, ⟨hkey, htable⟩ | ⟨hkey, htable⟩⟩
    · obtain ⟨p, hp⟩ := (hinput hkey).mpr ⟨table, hv, htable⟩
      exact ⟨_, .inl ⟨hkey, p, hp, rfl⟩⟩
    · obtain ⟨o, ho⟩ := (houtput hkey).mpr ⟨table, hv, htable⟩
      exact ⟨_, .inr ⟨hkey, o, ho, rfl⟩⟩

/-- Whether neither of the sections is an array. -/
structure NoItems (entries : List (String × Value)) : Prop where
  input : ∀ items, ("input", .array items) ∉ entries
  output : ∀ items, ("output", .array items) ∉ entries

/-- A tree is read if and only if it is that of a configuration. -/
theorem exists_ofTree_iff (h : NoItems entries) :
    (∃ c, ofTree entries = .ok c) ↔ IsConfiguration entries := by
  refine exists_foldlM_iff fun e he c => exists_addSection_iff (fun items hkey hv => ?_) c
  obtain ⟨key, v⟩ := e
  obtain rfl := hv
  rcases hkey with rfl | rfl
  · exact h.input items he
  · exact h.output items he

/-! ### What is read -/

/-- A field of a section has the value that the document gives it, or the usual one. -/
theorem takes_of_section {σ α : Type} {s : Section σ} {x : σ} {name key : String} {part : σ → α}
    {value : α → Value} (hdistinct : (Value.table entries).Distinct)
    (hitems : ∀ items, (name, .array items) ∉ entries)
    (hstep : ∀ {x y e}, s.set x e = .ok y → Gains key (fun v a => v = value a) e (part x) (part y))
    (hread : ∀ v, (name, v) ∈ entries → s.read v = .ok x)
    (husual : (∀ v, (name, v) ∉ entries) → x = s.usual) :
    Takes entries name key value (part s.usual) (part x) where
  set v hsets := by
    obtain ⟨table, htable, hv⟩ := hsets
    have hkeys := (hdistinct.of_mem htable).nodup_keys
    exact (decided_of_foldlM hstep hkeys (hread _ htable)).1 v hv
  unset hno := by
    by_cases hsection : ∃ v, (name, v) ∈ entries
    · obtain ⟨v, hmem⟩ := hsection
      have hnoItems : ∀ items, v ≠ .array items := fun items heq => hitems items (heq ▸ hmem)
      obtain ⟨table, rfl, hfold⟩ := (read_eq_ok_iff hnoItems).mp (hread v hmem)
      have hkeys := (hdistinct.of_mem hmem).nodup_keys
      exact (decided_of_foldlM hstep hkeys hfold).2 fun v hv => hno v ⟨table, hmem, hv⟩
    · rw [husual fun v hv => hsection ⟨v, hv⟩]

theorem isRead_of_ofTree (hdistinct : (Value.table entries).Distinct) (hitems : NoItems entries)
    (h : ofTree entries = .ok c) : IsRead entries c := by
  obtain ⟨hinput, hnoInput⟩ :=
    decided_of_foldlM (fun h => (gains_addSection h).1) hdistinct.nodup_keys h
  obtain ⟨houtput, hnoOutput⟩ :=
    decided_of_foldlM (fun h => (gains_addSection h).2) hdistinct.nodup_keys h
  exact
    { metadata := takes_of_section hdistinct hitems.input (fun h => (gains_inputSection h).1) hinput
        hnoInput
      stateFile := takes_of_section hdistinct hitems.input (fun h => (gains_inputSection h).2.1)
        hinput hnoInput
      extension := takes_of_section hdistinct hitems.input (fun h => (gains_inputSection h).2.2)
        hinput hnoInput
      reportFile := takes_of_section hdistinct hitems.output (fun h => (gains_outputSection h).1)
        houtput hnoOutput
      layout := takes_of_section hdistinct hitems.output (fun h => (gains_outputSection h).2) houtput
        hnoOutput }

/-- A document fixes each field. -/
theorem Takes.unique {α : Type} {name key : String} {value : α → Value} {usual found found' : α}
    (hvalue : Function.Injective value) (h : Takes entries name key value usual found)
    (h' : Takes entries name key value usual found') : found = found' := by
  by_cases hsets : ∃ v, Sets entries name key v
  · obtain ⟨v, hv⟩ := hsets
    exact hvalue ((h.set v hv).symm.trans (h'.set v hv))
  · have hno : ∀ v, ¬Sets entries name key v := fun v hv => hsets ⟨v, hv⟩
    rw [h.unset hno, h'.unset hno]

theorem IsRead.unique (h : IsRead entries c) (h' : IsRead entries d) : c = d := by
  have hstring : Function.Injective Value.string := fun _ _ heq => Value.string.inj heq
  have hlayout : Function.Injective fun l : Layout => Value.boolean (l == .pretty) := by
    intro l l' heq
    cases l <;> cases l' <;> simp_all
  obtain ⟨⟨metadata, stateFile, extension⟩, ⟨reportFile, layout⟩⟩ := c
  obtain ⟨⟨metadata', stateFile', extension'⟩, ⟨reportFile', layout'⟩⟩ := d
  obtain rfl : metadata = metadata' := h.metadata.unique hstring h'.metadata
  obtain rfl : stateFile = stateFile' := h.stateFile.unique hstring h'.stateFile
  obtain rfl : extension = extension' := h.extension.unique hstring h'.extension
  obtain rfl : reportFile = reportFile' := h.reportFile.unique hstring h'.reportFile
  obtain rfl : layout = layout' := h.layout.unique hlayout h'.layout
  rfl

/-- The configuration of a tree, from what the tree has under which keys. -/
theorem ofTree_eq_ok_iff (hdistinct : (Value.table entries).Distinct) (hitems : NoItems entries) :
    ofTree entries = .ok c ↔ IsConfiguration entries ∧ IsRead entries c := by
  constructor
  · intro h
    exact ⟨(exists_ofTree_iff hitems).mp ⟨c, h⟩, isRead_of_ofTree hdistinct hitems h⟩
  · rintro ⟨hconfiguration, hread⟩
    -- some configuration is read, and no two are what one tree says
    obtain ⟨d, hd⟩ := (exists_ofTree_iff hitems).mpr hconfiguration
    rw [hd, (isRead_of_ofTree hdistinct hitems hd).unique hread]

/-- The configuration of a text, whose tree never has a key twice. -/
theorem parse_eq_ok_iff {text : String} (htree : Toml.parse text = some entries)
    (hitems : NoItems entries) :
    parse text = .ok c ↔ IsConfiguration entries ∧ IsRead entries c := by
  rw [parse, htree]
  exact ofTree_eq_ok_iff (Toml.distinct_of_parse htree) hitems

/-! ### The order of keys -/

section Order

variable {table table' : List (String × Value)} {name key : String}

theorem Sets.reordered (hv : Sets entries name key v)
    (h : Reordered (.table entries) (.table entries')) :
    ∃ w, Sets entries' name key w ∧ Reordered v w := by
  obtain ⟨table, htable, hv⟩ := hv
  obtain ⟨_, htable', hsection⟩ := h.covered name _ htable
  obtain ⟨table', rfl, hcovered⟩ := hsection.counterpart
  obtain ⟨w, hw, hvw⟩ := hcovered key v hv
  exact ⟨w, ⟨table', htable', hw⟩, hvw⟩

/-- The order of keys does not tell on a field whose values have no parts. -/
theorem Takes.reordered {α : Type} {value : α → Value} {usual found : α}
    (hvalue : ∀ w, Reordered (value found) w → w = value found)
    (htakes : Takes entries name key value usual found)
    (h : Reordered (.table entries) (.table entries')) :
    Takes entries' name key value usual found where
  set w hw := by
    obtain ⟨v, hv, hwv⟩ := hw.reordered h.symm
    obtain rfl := htakes.set v hv
    exact hvalue w hwv.symm
  unset hno := by
    refine htakes.unset fun v hv => ?_
    obtain ⟨w, hw, -⟩ := hv.reordered h
    exact hno w hw

theorem IsRead.reordered (hread : IsRead entries c)
    (h : Reordered (.table entries) (.table entries')) : IsRead entries' c where
  metadata := hread.metadata.reordered (fun _ hw => hw.counterpart) h
  stateFile := hread.stateFile.reordered (fun _ hw => hw.counterpart) h
  extension := hread.extension.reordered (fun _ hw => hw.counterpart) h
  reportFile := hread.reportFile.reordered (fun _ hw => hw.counterpart) h
  layout := hread.layout.reordered (fun _ hw => hw.counterpart) h

theorem IsInput.reordered (htable : IsInput table)
    (h : Reordered (.table table) (.table table')) : IsInput table' := by
  rintro ⟨key, w⟩ hw
  obtain ⟨v, hv, hwv⟩ := h.symm.covered key w hw
  obtain ⟨hkey, text, rfl⟩ := htable _ hv
  exact ⟨hkey, text, hwv.symm.counterpart⟩

theorem IsOutput.reordered (htable : IsOutput table)
    (h : Reordered (.table table) (.table table')) : IsOutput table' := by
  rintro ⟨key, w⟩ hw
  obtain ⟨v, hv, hwv⟩ := h.symm.covered key w hw
  rcases htable _ hv with ⟨hkey, text, rfl⟩ | ⟨hkey, b, rfl⟩
  · exact .inl ⟨hkey, text, hwv.symm.counterpart⟩
  · exact .inr ⟨hkey, b, hwv.symm.counterpart⟩

theorem IsConfiguration.reordered (hconfiguration : IsConfiguration entries)
    (h : Reordered (.table entries) (.table entries')) : IsConfiguration entries' := by
  rintro ⟨name, w⟩ hw
  obtain ⟨v, hv, hwv⟩ := h.symm.covered name w hw
  obtain ⟨table, rfl, hsection⟩ := hconfiguration _ hv
  obtain ⟨table', rfl, -⟩ := hwv.symm.counterpart
  refine ⟨table', rfl, ?_⟩
  rcases hsection with ⟨hname, htable⟩ | ⟨hname, htable⟩
  · exact .inl ⟨hname, htable.reordered hwv.symm⟩
  · exact .inr ⟨hname, htable.reordered hwv.symm⟩

theorem NoItems.reordered (hitems : NoItems entries)
    (h : Reordered (.table entries) (.table entries')) : NoItems entries' := by
  have hitem : ∀ name items, (name, .array items) ∈ entries' →
      ∃ items', (name, .array items') ∈ entries := by
    intro name items hmem
    obtain ⟨v, hv, hreordered⟩ := h.symm.covered name _ hmem
    obtain ⟨items', rfl⟩ := hreordered.counterpart
    exact ⟨items', hv⟩
  refine ⟨fun items hmem => ?_, fun items hmem => ?_⟩
  · obtain ⟨items', hmem'⟩ := hitem _ _ hmem
    exact hitems.input items' hmem'
  · obtain ⟨items', hmem'⟩ := hitem _ _ hmem
    exact hitems.output items' hmem'

/-- Trees that differ in the order of keys only are read as the same configuration, or are none. -/
theorem ofTree_eq_ok_iff_of_reordered (hdistinct : (Value.table entries).Distinct)
    (hitems : NoItems entries) (h : Reordered (.table entries) (.table entries')) :
    ofTree entries' = .ok c ↔ ofTree entries = .ok c := by
  rw [ofTree_eq_ok_iff hdistinct hitems,
    ofTree_eq_ok_iff (h.distinct hdistinct) (hitems.reordered h)]
  constructor
  · rintro ⟨hconfiguration, hread⟩
    exact ⟨hconfiguration.reordered h.symm, hread.reordered h.symm⟩
  · rintro ⟨hconfiguration, hread⟩
    exact ⟨hconfiguration.reordered h, hread.reordered h⟩

end Order

/-- How a tree without arrays in the place of sections is read: which trees are configurations, what the
configuration has, and that the order of keys does not count. -/
theorem ofTree_by_keys (hdistinct : (Value.table entries).Distinct)
    (hinput : ∀ items, ("input", .array items) ∉ entries)
    (houtput : ∀ items, ("output", .array items) ∉ entries) :
    ((∃ c, ofTree entries = .ok c) ↔ IsConfiguration entries) ∧
      (∀ c, ofTree entries = .ok c → IsRead entries c) ∧
      ∀ entries', Reordered (.table entries) (.table entries') →
        ∀ c, ofTree entries' = .ok c ↔ ofTree entries = .ok c := by
  have hitems : NoItems entries := ⟨hinput, houtput⟩
  refine ⟨exists_ofTree_iff hitems, fun c h => ?_, fun entries' h c => ?_⟩
  · exact isRead_of_ofTree hdistinct hitems h
  · exact ofTree_eq_ok_iff_of_reordered hdistinct hitems h

/-- A document that sets some keys of both sections. -/
def partialText : String :=
  "[output]\npretty = false\n\n[input]\nrecord-extension = \"meta.json\"\nmetadata-dir = \"meta\"\n"

/-- The tree of the document. -/
def partialTree : List (String × Value) :=
  [("output", .table [("pretty", .boolean false)]),
    ("input", .table [("record-extension", .string "meta.json"), ("metadata-dir", .string "meta")])]

/-- The same tree with its keys in another order. -/
def turnedTree : List (String × Value) :=
  [("input", .table [("metadata-dir", .string "meta"), ("record-extension", .string "meta.json")]),
    ("output", .table [("pretty", .boolean false)])]

/-- What the document says, with the usual values where it says nothing. -/
def partialConfig : Config :=
  ⟨⟨"meta", "state/global_state.json", "meta.json"⟩, ⟨"report.json", .compact⟩⟩

theorem parse_partialText : Toml.parse partialText = some partialTree := by
  have hscan : Toml.scanStatements partialText.toList.length partialText.toList =
      some [.header [] "output", .pair [] "pretty" (.boolean false), .header [] "input",
        .pair [] "record-extension" (.string "meta.json"),
        .pair [] "metadata-dir" (.string "meta")] := rfl
  change (Toml.scanStatements partialText.toList.length partialText.toList).bind Toml.buildTree = _
  rw [hscan]
  rfl

theorem reordered_partialTree : Reordered (.table partialTree) (.table turnedTree) := by
  have hkeys : Reordered (.table partialTree) (.table (partialTree.reverse)) :=
    .keys (List.reverse_perm _).symm
  refine hkeys.trans (@Reordered.entry [] _ _ _ _ (.keys ?_))
  exact List.Perm.swap ..

theorem ofTree_partialTree_by_keys :
    ofTree partialTree = .ok partialConfig ∧ IsConfiguration partialTree ∧
      IsRead partialTree partialConfig ∧ ofTree turnedTree = .ok partialConfig := by
  have hread : ofTree partialTree = .ok partialConfig := rfl
  have hdistinct : (Value.table partialTree).Distinct := Toml.distinct_of_parse parse_partialText
  obtain ⟨haccepted, hvalues, horder⟩ :=
    ofTree_by_keys hdistinct (by simp [partialTree]) (by simp [partialTree])
  exact ⟨hread, haccepted.mp ⟨_, hread⟩, hvalues _ hread,
    (horder turnedTree reordered_partialTree _).mpr hread⟩

end FuzzCampaign.Config
