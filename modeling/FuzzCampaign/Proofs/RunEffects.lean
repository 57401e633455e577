import FuzzCampaign.Proofs.NewEntry
import FuzzCampaign.Proofs.Saving
import FuzzCampaign.Proofs.WarningText

/-!
What a run of the program leaves behind. A run without a configuration or without a report changes
nothing and shows nothing. A run with a report shows its totals and saves it, and only a report that was
saved is announced. Main statement: each way in which a run can end comes with its exit status, its
output and everything that it changed.
-/

namespace FuzzCampaign.CommandLine

/-! ### The output -/

/-- Whether a text lacks the letter that the announcement of a saved report starts with. -/
def Unannounced (s : String) : Prop := 'S' ∉ s.toList

instance (s : String) : Decidable (Unannounced s) := inferInstanceAs (Decidable (¬_))

theorem Unannounced.append {s t : String} (hs : Unannounced s) (ht : Unannounced t) :
    Unannounced (s ++ t) := by
  rw [Unannounced, String.toList_append, List.mem_append, not_or]
  exact ⟨hs, ht⟩

theorem unannounced_natText (n : Nat) : Unannounced (natText n) := by
  intro hmem
  cases isDigit_of_mem_natText hmem

theorem unannounced_twoPlaces (p : Percent) : Unannounced (Signed.twoPlaces p) := by
  have hsign : Unannounced p.signText := by
    rw [Signed.signText]
    split <;> decide
  have hpoint : Unannounced "." := by decide
  exact hsign.append ((((unannounced_natText _).append hpoint).append (unannounced_natText _)).append
    (unannounced_natText _))

theorem unannounced_unlines {lines : List String} (h : ∀ s ∈ lines, Unannounced s) :
    Unannounced (unlines lines) := by
  induction lines with
  | nil => decide
  | cons s rest ih =>
    obtain ⟨hs, hrest⟩ := List.forall_mem_cons.mp h
    have hend : Unannounced "\n" := by decide
    rw [unlines, List.map_cons, String.join_cons, line]
    exact (hs.append hend).append (ih hrest)

theorem unannounced_warningLines (ws : List Warning) : ∀ s ∈ warningLines ws, Unannounced s := by
  have hnone : Unannounced "Warnings: none" := by decide
  have hsome : Unannounced "Warnings: " := by decide
  have hindent : Unannounced "  " := by decide
  have hcolon : Unannounced ": " := by decide
  have hname : ∀ k : Warning.Kind, Unannounced k.name := by
    intro k
    cases k <;> decide
  unfold warningLines
  split
  · exact List.forall_mem_singleton.mpr hnone
  · refine List.forall_mem_cons.mpr ⟨hsome.append (unannounced_natText _), List.forall_mem_map.mpr ?_⟩
    intro c _
    exact ((hindent.append (hname c.1)).append hcolon).append (unannounced_natText c.2)

/-- Only the first line of the totals has the letter of the announcement, at its start. -/
theorem exists_summaryLines (r : Report) : ∃ others,
    summaryLines r = ("S" ++ ("eeds: " ++ natText r.summary.totalSeeds)) :: others ∧
      ∀ s ∈ others, Unannounced s := by
  have hfirst : ("S" ++ ("eeds: " ++ natText r.summary.totalSeeds))
      = "Seeds: " ++ natText r.summary.totalSeeds := by
    rw [← String.append_assoc]
    rfl
  have hinitial : Unannounced ("  initial: " ++ natText r.summary.initialSeeds ++ ", mutated: "
      ++ natText r.summary.mutatedSeeds ++ ", max depth: " ++ natText r.summary.maxDepth) :=
    (((((show Unannounced "  initial: " by decide).append (unannounced_natText _)).append
      (by decide)).append (unannounced_natText _)).append (by decide)).append (unannounced_natText _)
  have hfinal : Unannounced ("Final coverage: " ++ r.summary.finalCoverage.twoPlaces ++ "%") :=
    ((show Unannounced "Final coverage: " by decide).append (unannounced_twoPlaces _)).append
      (by decide)
  have hrecorded : Unannounced
      ("Recorded coverage (global state): " ++ r.summary.recordedCoverage.twoPlaces ++ "%") :=
    ((show Unannounced "Recorded coverage (global state): " by decide).append
      (unannounced_twoPlaces _)).append (by decide)
  have hbugs : Unannounced ("Total bugs found: " ++ natText r.summary.totalBugs) :=
    (show Unannounced "Total bugs found: " by decide).append (unannounced_natText _)
  refine ⟨_ :: _ :: _ :: _ :: warningLines r.warnings, by rw [hfirst]; rfl, ?_⟩
  simp only [List.forall_mem_cons]
  exact ⟨hinitial, hfinal, hrecorded, hbugs, unannounced_warningLines r.warnings⟩

/-- The totals of a report do not announce that it was saved. -/
theorem not_announced_summaryText (r : Report) :
    ¬"Saved:".toList <:+: (summaryText r).toList := by
  obtain ⟨others, hlines, hothers⟩ := exists_summaryLines r
  have hrest : Unannounced ("eds: " ++ natText r.summary.totalSeeds ++ "\n" ++ unlines others) :=
    (((show Unannounced "eds: " by decide).append (unannounced_natText _)).append
      (by decide)).append (unannounced_unlines hothers)
  have htext : (summaryText r).toList = 'S' :: 'e' ::
      ("eds: " ++ natText r.summary.totalSeeds ++ "\n" ++ unlines others).toList := by
    rw [summaryText, hlines, unlines, List.map_cons, String.join_cons, line, ← unlines]
    simp
  rw [htext]
  rintro ⟨front, back, heq⟩
  cases front with
  | nil =>
    have hsecond := (List.cons.inj (List.cons.inj heq).2).1
    exact absurd hsecond (by decide)
  | cons c front =>
    have hmem : 'S' ∈ 'e' :: ("eds: " ++ natText r.summary.totalSeeds ++ "\n" ++ unlines others).toList := by
      rw [← (List.cons.inj heq).2]
      simp
    exact hrest ((List.mem_cons.mp hmem).resolve_left (by decide))

/-! ### The ends of a run -/

/-- Whether a run changed and showed nothing, and failed. -/
structure Refused (fs : FileSystem) (out : Outcome) : Prop where
  status : out.status = 1
  output : out.output = ""
  files : out.files = fs

/-- Whether a run showed the totals of a report but failed to save it: nothing else is new than directories
on the way to the report, and no report is announced. -/
structure ShownOnly (fs : FileSystem) (r : Report) (path : String) (out : Outcome) : Prop where
  status : out.status = 1
  output : out.output = summaryText r
  unannounced : ¬"Saved:".toList <:+: out.output.toList
  files : fs.AddsDirectories out.files (fs.way path)

/-- Whether a run showed the totals of a report and saved it: its text is at its path, nothing else is new
than directories on the way, and the report is announced. -/
structure Published (fs : FileSystem) (r : Report) (layout : Layout) (path : String) (out : Outcome) :
    Prop where
  status : out.status = 0
  output : out.output = summaryText r ++ line ("Saved: " ++ path)
  files : Saved fs out.files path (Text.encode (r.text layout))

variable {fs : FileSystem}

/-- The place and layout of the report of a run. -/
def outputOf (c : Config) (a : Arguments) : Output := (withReportFile c a.output).output

/-- The path of the report of a run. -/
def pathOf (c : Config) (a : Arguments) : String :=
  reportPath a.dataDirectory (outputOf c a).reportFile

theorem places_withReportFile (c : Config) (reportFile : Option String) :
    (withReportFile c reportFile).places = c.places := by
  cases reportFile <;> rfl

theorem refused_of_config {a : Arguments} {failure : Failure} (h : config fs a.configFile = .error failure) :
    Refused fs (runArguments fs a) := by
  rw [runArguments, h]
  exact ⟨rfl, rfl, rfl⟩

theorem refused_of_report {a : Arguments} {c : Config} {failure : Failure}
    (hc : config fs a.configFile = .ok c)
    (h : Campaign.report fs a.dataDirectory c.places = .error failure) :
    Refused fs (runArguments fs a) := by
  simp only [runArguments, hc, runWith, places_withReportFile, h]
  exact ⟨rfl, rfl, rfl⟩

theorem runArguments_eq_publish {a : Arguments} {c : Config} {r : Report}
    (hc : config fs a.configFile = .ok c)
    (hr : Campaign.report fs a.dataDirectory c.places = .ok r) :
    runArguments fs a = publish fs a.dataDirectory (outputOf c a) r := by
  simp only [runArguments, hc, runWith, places_withReportFile, hr, outputOf]

section

variable {directory : String} {o : Output} {r : Report}

theorem publish_of_error {message : String}
    (h : (save fs (reportPath directory o.reportFile) (r.text o.layout)).2 = .error message) :
    publish fs directory o r = ⟨1, summaryText r, warningText r.warnings ++ errorText message,
      (save fs (reportPath directory o.reportFile) (r.text o.layout)).1⟩ := by
  rcases hsave : save fs (reportPath directory o.reportFile) (r.text o.layout) with ⟨fs₁, outcome⟩
  rw [hsave] at h
  simp only at h
  delta publish
  simp only [hsave, h]

theorem publish_of_ok (h : (save fs (reportPath directory o.reportFile) (r.text o.layout)).2 = .ok ()) :
    publish fs directory o r
      = ⟨0, summaryText r ++ line ("Saved: " ++ reportPath directory o.reportFile),
        warningText r.warnings, (save fs (reportPath directory o.reportFile) (r.text o.layout)).1⟩ := by
  rcases hsave : save fs (reportPath directory o.reportFile) (r.text o.layout) with ⟨fs₁, outcome⟩
  rw [hsave] at h
  simp only at h
  delta publish
  simp only [hsave, h]

theorem shownOnly_of_save {message : String}
    (hdevice : fs.node? (fs.target (reportPath directory o.reportFile)) ≠ some .sink)
    (h : (save fs (reportPath directory o.reportFile) (r.text o.layout)).2 = .error message) :
    ShownOnly fs r (reportPath directory o.reportFile) (publish fs directory o r) := by
  have hadds := (save_spec (r.text o.layout) hdevice).1 message h
  rw [publish_of_error h]
  -- the projections are taken first, since `rfl` would go into the text
  refine ⟨rfl, ?_, ?_, hadds⟩
  · dsimp only
  · dsimp only
    exact not_announced_summaryText r

theorem published_of_save
    (hdevice : fs.node? (fs.target (reportPath directory o.reportFile)) ≠ some .sink)
    (h : (save fs (reportPath directory o.reportFile) (r.text o.layout)).2 = .ok ()) :
    Published fs r o.layout (reportPath directory o.reportFile) (publish fs directory o r) := by
  have hsaved := (save_spec (r.text o.layout) hdevice).2 h
  rw [publish_of_ok h]
  refine ⟨rfl, ?_, hsaved⟩
  dsimp only

end

/-- Accepted arguments without a configuration or without a report change and show nothing. With a report,
the run fails or succeeds as the saving of it does, and in either case everything that may have changed is
known, unless the report is to go to a device. -/
theorem run_effects {arguments : List String} {a : Arguments} (h : Arguments.parse arguments = .run a)
    (hdevice : ∀ c, config fs a.configFile = .ok c → fs.node? (fs.target (pathOf c a)) ≠ some .sink) :
    (∀ failure, config fs a.configFile = .error failure → Refused fs (run fs arguments)) ∧
    ∀ c, config fs a.configFile = .ok c →
      (∀ failure, Campaign.report fs a.dataDirectory c.places = .error failure →
        Refused fs (run fs arguments)) ∧
      ∀ r, Campaign.report fs a.dataDirectory c.places = .ok r →
        (∀ message, (save fs (pathOf c a) (r.text (outputOf c a).layout)).2 = .error message →
          ShownOnly fs r (pathOf c a) (run fs arguments)) ∧
        ((save fs (pathOf c a) (r.text (outputOf c a).layout)).2 = .ok () →
          Published fs r (outputOf c a).layout (pathOf c a) (run fs arguments)) := by
  have hrun : run fs arguments = runArguments fs a := by rw [run, h]
  rw [hrun]
  refine ⟨fun failure => refused_of_config, fun c hc => ⟨fun failure => refused_of_report hc, ?_⟩⟩
  intro r hr
  rw [runArguments_eq_publish hc hr]
  exact ⟨fun message => shownOnly_of_save (hdevice c hc), published_of_save (hdevice c hc)⟩

/-- Arguments with a configuration file, with a report file below a record, and without either. -/
def unconfigured : List String := ["-d", "/", "-c", "seedstat.toml"]

def obstructed : List String := ["-d", "/", "-o", "new/../metadata/c.json/out.json"]

def plain : List String := ["-d", "/"]

theorem run_damaged_effects :
    Refused Campaign.damaged (run Campaign.damaged unconfigured) ∧
      ∃ r, Campaign.report Campaign.damaged "/" Places.usual = .ok r ∧
        ShownOnly Campaign.damaged r "/new/../metadata/c.json/out.json"
          (run Campaign.damaged obstructed) ∧
        (run Campaign.damaged obstructed).files.node? ["new"] = some .directory ∧
        Published Campaign.damaged r .pretty "/report.json" (run Campaign.damaged plain) := by
  obtain ⟨r, hr⟩ : ∃ r, Campaign.report Campaign.damaged "/" Places.usual = .ok r := ⟨_, rfl⟩
  have husual : ∀ c, config Campaign.damaged none = .ok c → c = .usual :=
    fun c hc => (Except.ok.inj hc).symm
  have hunconfigured : Arguments.parse unconfigured = .run ⟨"/", some "seedstat.toml", none, false⟩ := rfl
  have hobstructed : Arguments.parse obstructed
      = .run ⟨"/", none, some "new/../metadata/c.json/out.json", false⟩ := rfl
  have hplain : Arguments.parse plain = .run ⟨"/", none, none, false⟩ := rfl
  obtain ⟨hrefused, -⟩ := @run_effects Campaign.damaged _ _ hunconfigured fun c hc => nomatch hc
  obtain ⟨-, hshown⟩ := @run_effects Campaign.damaged _ _ hobstructed fun c hc => by
    rw [husual c hc]
    decide
  obtain ⟨-, hpublished⟩ := @run_effects Campaign.damaged _ _ hplain fun c hc => by
    rw [husual c hc]
    decide
  refine ⟨hrefused _ rfl, r, hr, ?_, rfl, ?_⟩
  · exact ((hshown .usual rfl).2 r hr).1 _ rfl
  · exact ((hpublished .usual rfl).2 r hr).2 rfl

end FuzzCampaign.CommandLine
