import FuzzCampaign.Proofs.ConfigurationChoice
import FuzzCampaign.Proofs.ReportText
import FuzzCampaign.Proofs.WarningOrder

/-!
How a run shows the warnings of its report. The report's file lists them one by one, the diagnostics have
an entry for each, and the output only says how many there are of each kind. Main statement: what a run that
succeeds shows of warnings is what its report's file lists, in both texts.
-/

namespace FuzzCampaign

/-! ### Warnings by kind -/

namespace Warning

/-- How many warnings are of a kind. -/
def number (ws : List Warning) (k : Kind) : Nat := ws.countP fun w => w.kind = k

/-- The kinds that occur, in the order in which kinds are declared. -/
def occurring (ws : List Warning) : List Kind := Kind.all.filter fun k => 0 < number ws k

theorem mem_occurring {ws : List Warning} {k : Kind} :
    k ∈ occurring ws ↔ ∃ w ∈ ws, w.kind = k := by
  simp only [occurring, number, List.mem_filter, Kind.mem_all, true_and, decide_eq_true_eq,
    List.countP_pos_iff]

theorem occurring_pairwise (ws : List Warning) :
    (occurring ws).Pairwise fun j k => j.ctorIdx < k.ctorIdx := by
  have hall : Kind.all.Pairwise fun j k => j.ctorIdx < k.ctorIdx := by decide
  exact hall.filter _

/-- Only kinds that occur are counted. -/
theorem counts_eq (ws : List Warning) : counts ws = (occurring ws).map fun k => (k, number ws k) := by
  rw [occurring, ← List.filterMap_eq_filter, List.map_filterMap, counts]
  refine List.filterMap_congr fun k _ => ?_
  by_cases hk : number ws k = 0
  · have hnone : Option.guard (fun k => decide (0 < number ws k)) k = none := by simp [Option.guard, hk]
    rw [hnone]
    exact if_pos hk
  · have hsome : Option.guard (fun k => decide (0 < number ws k)) k = some k := by
      simp [Option.guard, Nat.pos_of_ne_zero hk]
    rw [hsome]
    exact if_neg hk

/-- A warning is of one kind. -/
theorem sum_number_all (ws : List Warning) : (Kind.all.map (number ws)).sum = ws.length := by
  induction ws with
  | nil => rfl
  | cons w rest ih =>
    have hnumber : ∀ k, number (w :: rest) k = number rest k + if w.kind = k then 1 else 0 := by
      intro k
      simp only [number, List.countP_cons, decide_eq_true_eq]
    have hone : (Kind.all.map fun k => if w.kind = k then 1 else 0).sum = 1 := by
      cases w.kind <;> rfl
    rw [funext hnumber, List.sum_map_add, ih, hone, List.length_cons]

theorem sum_number_occurring (ws : List Warning) :
    ((occurring ws).map (number ws)).sum = ws.length := by
  rw [← sum_number_all ws, occurring]
  induction Kind.all with
  | nil => rfl
  | cons k rest ih =>
    rw [List.map_cons, List.sum_cons, ← ih]
    by_cases hk : number ws k = 0
    · rw [List.filter_cons_of_neg (by simp [hk]), hk, Nat.zero_add]
    · rw [List.filter_cons_of_pos (by simp [Nat.pos_of_ne_zero hk]), List.map_cons, List.sum_cons]

/-- Only where there are no warnings no kind occurs. -/
theorem occurring_eq_nil_iff {ws : List Warning} : occurring ws = [] ↔ ws = [] := by
  constructor
  · intro h
    have hlength := sum_number_occurring ws
    rw [h] at hlength
    exact List.length_eq_zero_iff.mp hlength.symm
  · rintro rfl
    rfl

end Warning

/-- The warnings that the text of a report lists, one for each element of its array. -/
def listedWarnings? (text : List UInt8) : Option (List Warning) :=
  (Json.parse text).toOption.bind (Json.required? "warnings" (Json.elements? Warning.ofJson?))

/-- The text of a report lists the report's warnings. -/
theorem listedWarnings?_text {r : Report} (h : Json.Proper r.json) (layout : Layout) :
    listedWarnings? (Text.encode (r.text layout)) = some r.warnings := by
  have hparse : Json.parse (Text.encode (r.text layout)) = .ok r.json := Json.parse_text h layout
  have helements := elements?_array (f := id) Warning.ofJson?_json r.warnings
  rw [List.map_id] at helements
  rw [listedWarnings?, hparse]
  exact Json.required?_eq r.json "warnings" rfl helements

theorem proper_of_report {fs : FileSystem} {root : String} {places : Places} {r : Report}
    (h : Campaign.report fs root places = .ok r) : Json.Proper r.json := by
  obtain ⟨c, g, -, -, hreport⟩ := Campaign.report_eq_ok_iff.mp h
  obtain ⟨-, rfl⟩ := reportOn_eq_ok_iff.mp hreport
  exact Report.proper_derived _ g _

namespace CommandLine

/-! ### The lines that count warnings -/

/-- Whether lines count warnings: they say that there are none, or how many there are, and then how many of
each kind that occurs, in the order in which kinds are declared. -/
structure Count (ws : List Warning) (lines : List String) : Prop where
  none_iff : lines = ["Warnings: none"] ↔ ws = []
  some : ws ≠ [] → ∃ kinds : List Warning.Kind,
    lines = ("Warnings: " ++ natText ws.length) :: kinds.map (fun k =>
      "  " ++ k.name ++ ": " ++ natText (ws.countP fun w => w.kind = k)) ∧
    kinds.Pairwise (fun j k => j.ctorIdx < k.ctorIdx) ∧
    (∀ k, k ∈ kinds ↔ ∃ w ∈ ws, w.kind = k) ∧
    (kinds.map fun k => ws.countP fun w => w.kind = k).sum = ws.length

theorem warningLines_of_ne {ws : List Warning} (h : ws ≠ []) :
    warningLines ws = ("Warnings: " ++ natText ws.length) :: (Warning.occurring ws).map (fun k =>
      "  " ++ k.name ++ ": " ++ natText (Warning.number ws k)) := by
  obtain ⟨k, rest, hkinds⟩ := List.exists_cons_of_ne_nil (mt Warning.occurring_eq_nil_iff.mp h)
  rw [warningLines, Warning.counts_eq, hkinds]
  simp only [List.map_cons, List.map_map, Function.comp_def]

theorem count_warningLines (ws : List Warning) : Count ws (warningLines ws) where
  none_iff := by
    constructor
    · intro h
      by_contra hne
      rw [warningLines_of_ne hne] at h
      -- a number does not start with a letter
      have hnumber : natText ws.length = "none" :=
        (String.append_right_inj "Warnings: ").mp (List.cons.inj h).1
      have hdigit : ('n' : Char).isDigit := isDigit_of_mem_natText (n := ws.length) (by rw [hnumber]; decide)
      cases hdigit
    · rintro rfl
      rfl
  some h := ⟨Warning.occurring ws, warningLines_of_ne h, Warning.occurring_pairwise ws,
    fun _ => Warning.mem_occurring, Warning.sum_number_occurring ws⟩

/-! ### Runs that succeed -/

/-- Whether a run shows the warnings that the text of its report lists. The report is in the file that is
announced, unless there is a device in that place. Between the five lines of totals and the announcement the
output counts the warnings, and the diagnostics show them one by one, each by its kind, its file if there is
one, and its text. -/
structure ShowsListed (fs : FileSystem) (totals : List String) (path : String) (text : List UInt8)
    (ws : List Warning) (out : Outcome) : Prop where
  file : fs.node? (fs.target path) ≠ some .sink → out.files.node? (fs.target path) = some (.file text)
  listed : listedWarnings? text = some ws
  output : ∃ lines, Count ws lines ∧
    out.output = unlines (totals ++ lines) ++ line ("Saved: " ++ path)
  diagnostics : out.diagnostics = String.join (ws.map fun w =>
    "Warning: [" ++ w.kind.name ++ "] " ++ w.source.elim "" (· ++ ": ") ++ w.detail ++ "\n")

theorem warningText_eq (ws : List Warning) :
    warningText ws = String.join (ws.map fun w =>
      "Warning: [" ++ w.kind.name ++ "] " ++ w.source.elim "" (· ++ ": ") ++ w.detail ++ "\n") := by
  have hentry : ∀ w : Warning, line ("Warning: " ++ w.text) =
      "Warning: [" ++ w.kind.name ++ "] " ++ w.source.elim "" (· ++ ": ") ++ w.detail ++ "\n" := by
    intro w
    have hopen : "Warning: [" = "Warning: " ++ "[" := rfl
    rw [line, Warning.text, hopen]
    cases w.source with
    | none => simp only [Option.elim, String.append_empty, String.append_assoc]
    | some source => simp only [Option.elim, String.append_assoc]
  rw [warningText, unlines, List.map_map]
  exact congrArg String.join (List.map_congr_left fun w _ => hentry w)

/-- A run that succeeds only tells its version or how it is used, or it has a report, and what it shows of
the report's warnings is what the file with the report lists. -/
theorem run_showsListed {fs : FileSystem} {arguments : List String}
    (h : (run fs arguments).status = 0) :
    Arguments.parse arguments = .version ∨ Arguments.parse arguments = .help ∨
      ∃ a c r ws, Arguments.parse arguments = .run a ∧ config fs a.configFile = .ok c ∧
        Campaign.report fs a.dataDirectory c.places = .ok r ∧
        ShowsListed fs ((summaryLines r).take 5) (pathOf c a)
          (Text.encode (r.text (outputOf c a).layout)) ws (run fs arguments) := by
  cases hparse : Arguments.parse arguments with
  | misuse =>
    rw [run, hparse] at h
    cases h
  | version => exact .inl rfl
  | help => exact .inr (.inl rfl)
  | run a =>
    have hrun : run fs arguments = runArguments fs a := by rw [run, hparse]
    rw [hrun] at h ⊢
    obtain ⟨c, r, hc, hr, hsave⟩ := exists_of_status_eq_zero h
    refine .inr (.inr ⟨a, c, r, r.warnings, rfl, hc, hr, ?_⟩)
    rw [runArguments_eq_publish hc hr]
    constructor
    case file => exact fun hdevice => (published_of_save hdevice hsave).files.node?_eq
    case listed => exact listedWarnings?_text (proper_of_report hr) _
    case output =>
      refine ⟨warningLines r.warnings, count_warningLines r.warnings, ?_⟩
      rw [publish_of_ok hsave]
      rfl
    case diagnostics =>
      rw [publish_of_ok hsave]
      exact warningText_eq r.warnings

/-- A campaign with warnings of several kinds, two of one kind among them, that are not in the order in which
kinds are declared. -/
def crowded : FileSystem := Campaign.troubled.put ["f.json", "metadata"] (.file [])

theorem run_crowded_showsListed :
    (run crowded plain).status = 0 ∧ ∃ r ws, Campaign.report crowded "/" Places.usual = .ok r ∧
      r.warnings.map Warning.kind = [.recordParseError, .recordParseError, .invalidRecord,
        .incrementMismatch, .duplicateId, .coverageRegression, .idBeyondAllocation, .consistencyMismatch] ∧
      ShowsListed crowded ((summaryLines r).take 5) "/report.json" (Text.encode (r.text .pretty)) ws
        (run crowded plain) := by
  have hparse : Arguments.parse plain = .run ⟨"/", none, none, false⟩ := rfl
  have hstatus : (run crowded plain).status = 0 := rfl
  rcases run_showsListed hstatus with hversion | hhelp | ⟨a, c, r, ws, ha, hc, hr, hshows⟩
  · cases hparse.symm.trans hversion
  · cases hparse.symm.trans hhelp
  · obtain rfl := Request.run.inj (hparse.symm.trans ha)
    obtain rfl : Config.usual = c := Except.ok.inj hc
    refine ⟨hstatus, r, ws, hr, ?_, hshows⟩
    obtain rfl := Except.ok.inj hr
    rfl

end CommandLine

end FuzzCampaign
