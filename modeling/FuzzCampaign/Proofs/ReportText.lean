import FuzzCampaign.Proofs.ByteOrder
import FuzzCampaign.Proofs.NumberText
import FuzzCampaign.Proofs.Tallies
import FuzzCampaign.Proofs.WarningText

/-!
The text of a report can be read back. A reader that looks members up by their keys gets every part of
the report out of its text, percentages as they are written, whatever texts stand in it. Main statement:
in either layout the text of a report is one value, which gives the report back with its tallies in
ascending order and its optional members exactly where something is known, so two reports with one text
are alike in all of this.
-/

namespace FuzzCampaign

open Json

/-! ### Looking members up -/

namespace Json

/-- The value under a key of an object. -/
def member? (key : String) : Json → Option Json
  | object members => members.lookup key
  | _ => none

/-- What a member says that must be there. -/
def required? {α : Type} (key : String) (content : Json → Option α) (j : Json) : Option α :=
  (j.member? key).bind content

/-- What a member says that may be absent. -/
def optional? {α : Type} (key : String) (content : Json → Option α) (j : Json) : Option (Option α) :=
  match j.member? key with
  | none => some none
  | some v => (content v).map some

/-- A number as it is written. -/
def token? : Json → Option String
  | number token => some token
  | _ => none

/-- The natural that digits say. -/
def decimal? (digits : String) : Option Nat :=
  if digits ≠ "" ∧ digits.toList.all Char.isDigit then some (Nat.ofDigitChars 10 digits.toList 0)
  else none

/-- The natural that a number says. -/
def natural? (j : Json) : Option Nat := j.token?.bind decimal?

/-- The text that a string says. -/
def text? : Json → Option String
  | string text => some text
  | _ => none

/-- What the elements of an array say. -/
def elements? {α : Type} (content : Json → Option α) : Json → Option (List α)
  | array items => allOf content items
  | _ => none

/-- A pair of an id and a value. -/
def point? {α : Type} (content : Json → Option α) : Json → Option (Nat × α)
  | array [i, v] => i.natural?.bind fun n => (content v).map fun a => (n, a)
  | _ => none

/-- A count under the written form of its key. -/
def count? {κ : Type} (key : String → Option κ) (m : String × Json) : Option (κ × Nat) :=
  (key m.1).bind fun k => m.2.natural?.map fun n => (k, n)

/-- Counts under the written form of their keys. -/
def tally? {κ : Type} (key : String → Option κ) : Json → Option (Tally κ)
  | object members => allOf (count? key) members
  | _ => none

end Json

/-- The kind with a name. -/
def Warning.Kind.ofName? (name : String) : Option Warning.Kind := all.find? fun k => k.name = name

/-- The warning that a value says. -/
def Warning.ofJson? (j : Json) : Option Warning := do
  let kind ← j.required? "kind" fun v => v.text?.bind Kind.ofName?
  let source ← j.optional? "source" Json.text?
  let detail ← j.required? "detail" Json.text?
  return ⟨kind, source, detail⟩

/-- The queue's numbers that a value says. -/
def QueueStats.ofJson? (j : Json) : Option QueueStats := do
  let poolSize ← j.required? "pool_size" Json.natural?
  let processed ← j.required? "processed_count" Json.natural?
  return ⟨poolSize, processed⟩

/-- The totals of a report, with percentages as they are written. -/
structure PrintedSummary where
  totalSeeds : Nat
  finalCoverage : String
  totalBugs : Nat
  maxDepth : Nat
  initialSeeds : Nat
  mutatedSeeds : Nat
  increasingSeeds : Nat
  stateCounts : Tally String
  recordedCoverage : String
  lastAllocated : Nat
  current : Option Nat
  queue : Option QueueStats
deriving DecidableEq, Repr

/-- A report, with percentages as they are written. -/
structure Printed where
  coverage : List (Nat × String)
  increase : List (Nat × String)
  bugs : List (Nat × Nat)
  depths : Tally Nat
  summary : PrintedSummary
  warnings : List Warning
deriving DecidableEq, Repr

/-- The totals that a value says. -/
def PrintedSummary.ofJson? (j : Json) : Option PrintedSummary := do
  let totalSeeds ← j.required? "total_seeds" Json.natural?
  let finalCoverage ← j.required? "final_coverage_percent" Json.token?
  let totalBugs ← j.required? "total_bugs" Json.natural?
  let maxDepth ← j.required? "max_depth" Json.natural?
  let initialSeeds ← j.required? "initial_seed_count" Json.natural?
  let mutatedSeeds ← j.required? "mutated_seed_count" Json.natural?
  let increasingSeeds ← j.required? "coverage_increasing_seeds" Json.natural?
  let stateCounts ← j.required? "state_counts" (Json.tally? some)
  let recordedCoverage ← j.required? "recorded_coverage_percent" Json.token?
  let lastAllocated ← j.required? "last_allocated_id" Json.natural?
  let current ← j.optional? "current_fuzzing_id" Json.natural?
  let queue ← j.optional? "queue_stats" QueueStats.ofJson?
  return ⟨totalSeeds, finalCoverage, totalBugs, maxDepth, initialSeeds, mutatedSeeds, increasingSeeds,
    stateCounts, recordedCoverage, lastAllocated, current, queue⟩

/-- The report that a value says. -/
def Printed.ofJson? (j : Json) : Option Printed := do
  let coverage ← j.required? "coverage_series" (Json.elements? (Json.point? Json.token?))
  let increase ← j.required? "increase_series" (Json.elements? (Json.point? Json.token?))
  let bugs ← j.required? "bug_series" (Json.elements? (Json.point? Json.natural?))
  let depths ← j.required? "depth_histogram" (Json.tally? Json.decimal?)
  let summary ← j.required? "summary" PrintedSummary.ofJson?
  let warnings ← j.required? "warnings" (Json.elements? Warning.ofJson?)
  return ⟨coverage, increase, bugs, depths, summary, warnings⟩

/-- Totals as they are written. -/
def Summary.printed (s : Summary) : PrintedSummary where
  totalSeeds := s.totalSeeds
  finalCoverage := s.finalCoverage.reportText
  totalBugs := s.totalBugs
  maxDepth := s.maxDepth
  initialSeeds := s.initialSeeds
  mutatedSeeds := s.mutatedSeeds
  increasingSeeds := s.increasingSeeds
  stateCounts := s.stateCounts
  recordedCoverage := s.recordedCoverage.reportText
  lastAllocated := s.lastAllocated
  current := s.current
  queue := s.queue

/-- A report as it is written. -/
def Report.printed (r : Report) : Printed where
  coverage := r.coverage.map fun p => (p.1, Signed.reportText p.2)
  increase := r.increase.map fun p => (p.1, Signed.reportText p.2)
  bugs := r.bugs
  depths := r.depths
  summary := r.summary.printed
  warnings := r.warnings

/-! ### Each part is read back -/

theorem decimal?_natText (n : Nat) : decimal? (natText n) = some n := by
  have hdigits : (natText n).toList = Nat.toDigits 10 n := String.toList_ofList
  have hne : natText n ≠ "" := by
    intro hempty
    obtain ⟨d, ds, htext, -⟩ := exists_toDigits n
    rw [hempty, htext] at hdigits
    cases hdigits
  have hall : (natText n).toList.all Char.isDigit :=
    List.all_eq_true.mpr fun _ => isDigit_of_mem_natText
  rw [decimal?, if_pos ⟨hne, hall⟩, hdigits, Nat.ofDigitChars_ten_toDigits]

theorem natural?_natural (n : Nat) : (Json.natural n).natural? = some n := decimal?_natText n

theorem token?_percent (p : Percent) : p.json.token? = some (Signed.reportText p) := rfl

theorem elements?_array {α β : Type} {content : Json → Option β} {write : α → Json} {f : α → β}
    (h : ∀ a, content (write a) = some (f a)) (l : List α) :
    (array (l.map write)).elements? content = some (l.map f) :=
  allOf_map fun a _ => h a

theorem elements?_pointsJson {α β : Type} {content : Json → Option β} {value : α → Json} {f : α → β}
    (h : ∀ a, content (value a) = some (f a)) (points : List (Nat × α)) :
    (pointsJson value points).elements? (Json.point? content)
      = some (points.map fun p => (p.1, f p.2)) := by
  refine elements?_array ?_ points
  intro p
  rw [Json.point?, natural?_natural, Option.bind_some, h, Option.map_some]

theorem tally?_json {κ : Type} {key : κ → String} {ofKey : String → Option κ}
    (h : ∀ k, ofKey (key k) = some k) (t : Tally κ) : (Tally.json key t).tally? ofKey = some t := by
  have hread : allOf (count? ofKey) (t.map fun c => (key c.1, Json.natural c.2)) = some (t.map id) := by
    refine allOf_map fun c _ => ?_
    simp only [count?, h, Option.bind_some, natural?_natural, Option.map_some, id]
  rwa [List.map_id] at hread

theorem Warning.Kind.ofName?_name (k : Warning.Kind) : Kind.ofName? k.name = some k := by
  cases k <;> rfl

theorem Warning.ofJson?_json (w : Warning) : Warning.ofJson? w.json = some w := by
  obtain ⟨kind, source, detail⟩ := w
  cases source <;>
    simp [Warning.ofJson?, Warning.json, Json.required?, Json.optional?, Json.member?,
      List.lookup_cons, List.lookup_nil, Json.text?, Warning.Kind.ofName?_name]

theorem QueueStats.ofJson?_json (q : QueueStats) : QueueStats.ofJson? q.json = some q := by
  simp [QueueStats.ofJson?, QueueStats.json, Json.required?, Json.member?, List.lookup_cons,
    natural?_natural]

theorem Json.required?_eq {α : Type} {content : Json → Option α} {v : Json} {a : α} (j : Json)
    (key : String) (hmember : j.member? key = some v) (h : content v = some a) :
    j.required? key content = some a := by
  rw [Json.required?, hmember, Option.bind_some, h]

theorem Json.optional?_eq {α : Type} {content : Json → Option α} {write : α → Json} {a : Option α}
    {j : Json} {key : String} (hmember : j.member? key = a.map write)
    (h : ∀ x, content (write x) = some x) : j.optional? key content = some a := by
  rw [Json.optional?, hmember]
  cases a with
  | none => rfl
  | some x => simp [h]

theorem member?_current (s : Summary) :
    s.json.member? "current_fuzzing_id" = s.current.map Json.natural := by
  obtain ⟨_, _, _, _, _, _, _, _, _, _, current, queue⟩ := s
  cases current <;> cases queue <;> rfl

theorem member?_queue (s : Summary) : s.json.member? "queue_stats" = s.queue.map QueueStats.json := by
  obtain ⟨_, _, _, _, _, _, _, _, _, _, current, queue⟩ := s
  cases current <;> cases queue <;> rfl

theorem PrintedSummary.ofJson?_json (s : Summary) :
    PrintedSummary.ofJson? s.json = some s.printed := by
  have htotal := required?_eq s.json "total_seeds" rfl (natural?_natural s.totalSeeds)
  have hfinal := required?_eq s.json "final_coverage_percent" rfl (token?_percent s.finalCoverage)
  have hbugs := required?_eq s.json "total_bugs" rfl (natural?_natural s.totalBugs)
  have hdepth := required?_eq s.json "max_depth" rfl (natural?_natural s.maxDepth)
  have hinitial := required?_eq s.json "initial_seed_count" rfl (natural?_natural s.initialSeeds)
  have hmutated := required?_eq s.json "mutated_seed_count" rfl (natural?_natural s.mutatedSeeds)
  have hincreasing :=
    required?_eq s.json "coverage_increasing_seeds" rfl (natural?_natural s.increasingSeeds)
  have hstates := required?_eq s.json "state_counts" rfl (tally?_json (fun _ => rfl) s.stateCounts)
  have hrecorded :=
    required?_eq s.json "recorded_coverage_percent" rfl (token?_percent s.recordedCoverage)
  have hlast := required?_eq s.json "last_allocated_id" rfl (natural?_natural s.lastAllocated)
  rw [PrintedSummary.ofJson?, htotal, hfinal, hbugs, hdepth, hinitial, hmutated, hincreasing, hstates,
    hrecorded, hlast, optional?_eq (member?_current s) natural?_natural,
    optional?_eq (member?_queue s) QueueStats.ofJson?_json]
  rfl

theorem Printed.ofJson?_json (r : Report) : Printed.ofJson? r.json = some r.printed := by
  have hbugs := elements?_pointsJson (f := id) natural?_natural r.bugs
  simp [Printed.ofJson?, Report.json, Report.printed, Json.required?, Json.member?, List.lookup_cons,
    elements?_pointsJson token?_percent, hbugs, tally?_json decimal?_natText,
    PrintedSummary.ofJson?_json, elements?_array (f := id) Warning.ofJson?_json]

/-! ### The text as a whole -/

/-- A report with proper numbers is written as a value in either layout. -/
theorem Json.WrittenAs.spread_text {j : Json} {v : Value} (h : WrittenAs j v) (layout : Layout) :
    Spread v.tokens (Text.encode (j.text layout)) := by
  cases layout with
  | compact =>
    rw [Json.text, encode_ofList]
    exact h.compact.spread
  | pretty =>
    rw [Json.text, encode_ofList]
    exact (h.pretty 0).spread

/-- A value that is written can be read back from its text. -/
theorem Json.parse_text {j : Json} (h : Proper j) (layout : Layout) :
    Json.parse (Text.encode (j.text layout)) = .ok j := by
  obtain ⟨v, hv⟩ := h.exists_writtenAs
  exact (parse_eq_ok_iff (hv.spread_text layout)).mpr hv.json?_eq

theorem proper_points {α : Type} {value : α → Json} (h : ∀ a, Proper (value a))
    (points : List (Nat × α)) : Proper (pointsJson value points) := by
  refine .array (List.forall_mem_map.mpr ?_)
  intro p _
  refine .array ?_
  simp [proper_natural, h]

theorem proper_tally {κ : Type} {key : κ → String} (hkey : ∀ j k, key j = key k → j = k) {t : Tally κ}
    (h : (t.map (·.1)).Nodup) : Proper (Tally.json key t) := by
  refine .object ?_ (List.forall_mem_map.mpr fun c _ => proper_natural c.2)
  have hkeys : (t.map fun c => (key c.1, Json.natural c.2)).map (·.1) = (t.map (·.1)).map key := by
    rw [List.map_map, List.map_map]
    rfl
  rw [hkeys]
  exact List.pairwise_map.mpr (h.imp fun hne heq => hne (hkey _ _ heq))

theorem proper_warning (w : Warning) : Proper w.json := by
  obtain ⟨kind, source, detail⟩ := w
  cases source with
  | none => exact .object (by simp) (by simp [Proper.string])
  | some source => exact .object (by simp) (by simp [Proper.string])

theorem proper_queue (q : QueueStats) : Proper q.json :=
  .object (by simp) (by simp [proper_natural])

theorem proper_summary {s : Summary} (h : (s.stateCounts.map (·.1)).Nodup) : Proper s.json := by
  have hcounts : Proper (Tally.json id s.stateCounts) := proper_tally (fun _ _ heq => heq) h
  obtain ⟨_, _, _, _, _, _, _, _, _, _, current, queue⟩ := s
  refine .object ?_ ?_
  · cases current <;> cases queue <;> simp
  · cases current <;> cases queue <;>
      simp [proper_natural, proper_percent, proper_queue, hcounts]

/-- A report is proper if its tallies count each key once. -/
theorem proper_report {r : Report} (hdepths : (r.depths.map (·.1)).Nodup)
    (hstates : (r.summary.stateCounts.map (·.1)).Nodup) : Proper r.json := by
  have hinjective : ∀ m n, natText m = natText n → m = n :=
    fun m n heq => natText_injective (congrArg String.toList heq)
  have hwarnings : Proper (array (r.warnings.map Warning.json)) :=
    .array (List.forall_mem_map.mpr fun w _ => proper_warning w)
  refine .object (by simp) ?_
  simp [proper_points, proper_natural, proper_percent, proper_tally hinjective hdepths,
    proper_summary hstates, hwarnings]

namespace Report

open Seed

/-- The report of records and a global state, with earlier warnings. -/
def derived (records : List Record) (g : GlobalState) (earlier : List Warning) : Report :=
  assemble records g (Series.derive records g) earlier

section

variable (records : List Record) (g : GlobalState) (earlier : List Warning)

theorem depths_ascending : ((derived records g earlier).depths.map (·.1)).Pairwise (· < ·) :=
  (Tally.counts_ofKeys (records.map (·.depth))).ascending

theorem stateCounts_ascending :
    ((derived records g earlier).summary.stateCounts.map (·.1)).Pairwise
      fun s t => Text.encode s < Text.encode t := by
  refine (Tally.counts_ofKeys _).ascending.imp ?_
  intro s t hlt
  exact Text.encode_lt_encode_iff.mpr hlt

theorem proper_derived : Proper (derived records g earlier).json := by
  refine proper_report ?_ ?_
  · exact (depths_ascending records g earlier).imp Nat.ne_of_lt
  · refine (stateCounts_ascending records g earlier).imp ?_
    rintro s t hlt rfl
    exact List.lt_irrefl _ hlt

end

/-- Whether a value has the optional members of a report exactly where something is known. -/
structure Optionals (r : Report) (j : Json) : Prop where
  current : ((j.member? "summary").bind (member? "current_fuzzing_id")).isSome
    = r.summary.current.isSome
  queue : ((j.member? "summary").bind (member? "queue_stats")).isSome = r.summary.queue.isSome
  sources : ∃ ws, j.member? "warnings" = some (array ws) ∧
    ws.map (fun w => (w.member? "source").isSome) = r.warnings.map (·.source.isSome)

theorem optionals_json (r : Report) : Optionals r r.json := by
  have hsource : ∀ w : Warning, (w.json.member? "source").isSome = w.source.isSome := by
    rintro ⟨kind, source, detail⟩
    cases source <;> simp [Warning.json, member?, List.lookup_cons, List.lookup_nil]
  have hsummary : r.json.member? "summary" = some r.summary.json := rfl
  refine ⟨?_, ?_, r.warnings.map Warning.json, rfl, ?_⟩
  · rw [hsummary, Option.bind_some, member?_current, Option.isSome_map]
  · rw [hsummary, Option.bind_some, member?_queue, Option.isSome_map]
  · rw [List.map_map]
    exact List.map_congr_left fun w _ => hsource w

/-- Whether a text is one value, without any key twice in an object, from which a report can be read back:
all that it says is known from the text, and its optional members are there where something is known. -/
structure ReadBack (r : Report) (text : List UInt8) : Prop where
  value : ∃ v : Value, Spread v.tokens text ∧ v.json? = some r.json
  proper : Proper r.json
  printed : ∃ j, Json.parse text = .ok j ∧ Printed.ofJson? j = some r.printed ∧ Optionals r j

theorem readBack_of_proper {r : Report} (h : Proper r.json) (layout : Layout) :
    ReadBack r (Text.encode (r.text layout)) := by
  obtain ⟨v, hv⟩ := h.exists_writtenAs
  refine ⟨⟨v, hv.spread_text layout, hv.json?_eq⟩, h, r.json, ?_, ?_, optionals_json r⟩
  · exact parse_text h layout
  · exact Printed.ofJson?_json r

/-- What is read back is known from the text. -/
theorem ReadBack.printed_eq {r r' : Report} {text : List UInt8} (h : ReadBack r text)
    (h' : ReadBack r' text) : r'.printed = r.printed := by
  obtain ⟨j, hj, hprinted, -⟩ := h.printed
  obtain ⟨j', hj', hprinted', -⟩ := h'.printed
  obtain rfl := Except.ok.inj (hj.symm.trans hj')
  exact Option.some.inj (hprinted'.symm.trans hprinted)

/-- In either layout the text of a report gives the report back, percentages as they are written. The
depths ascend as numbers and the states as bytes, and another report with the same text in some layout
is written alike in every part. -/
theorem derived_readBack (records : List Record) (g : GlobalState) (earlier : List Warning)
    (layout : Layout) :
    let r := derived records g earlier
    ReadBack r (Text.encode (r.text layout)) ∧
      (r.printed.depths.map (·.1)).Pairwise (· < ·) ∧
      (r.printed.summary.stateCounts.map fun c => Text.encode c.1).Pairwise (· < ·) ∧
      ∀ records' g' earlier' layout',
        Text.encode ((derived records' g' earlier').text layout') = Text.encode (r.text layout) →
          (derived records' g' earlier').printed = r.printed := by
  intro r
  have hread : ReadBack r (Text.encode (r.text layout)) :=
    readBack_of_proper (proper_derived records g earlier) layout
  refine ⟨hread, depths_ascending records g earlier, ?_, ?_⟩
  · have hstates := stateCounts_ascending records g earlier
    rw [List.pairwise_map] at hstates ⊢
    exact hstates
  · intro records' g' earlier' layout' heq
    have hread' := readBack_of_proper (proper_derived records' g' earlier') layout'
    rw [heq] at hread'
    exact hread.printed_eq hread'

end Report

end FuzzCampaign
