import FuzzCampaign.CommandLine
import FuzzCampaign.Proofs.Json.Spacing
import FuzzCampaign.Proofs.ReportText

/-!
The two layouts of a report. All numbers of a report are written without spacing, so the laid out text
is the compact one but for the spacing between its string literals. A run looks at the layout only when
it writes the report, and where the file goes does not depend on what is written. Main statement: the
layouts of any report differ in spacing and in nothing else, and so do runs whose configurations differ
in the layout.
-/

namespace FuzzCampaign

open Json

/-! ### Reports as values -/

theorem solid_points {α : Type} {value : α → Json} (h : ∀ a, Solid (value a)) (points : List (Nat × α)) :
    Solid (pointsJson value points) := by
  refine .array (List.forall_mem_map.mpr ?_)
  intro p _
  refine .array ?_
  simp [(proper_natural p.1).solid, h]

theorem solid_tally {κ : Type} (key : κ → String) (t : Tally κ) : Solid (Tally.json key t) :=
  .object (List.forall_mem_map.mpr fun c _ => (proper_natural c.2).solid)

theorem solid_summary (s : Summary) : Solid s.json := by
  have hnatural := fun n => (proper_natural n).solid
  have hpercent := fun p => (proper_percent p).solid
  have hqueue := fun q => (proper_queue q).solid
  obtain ⟨_, _, _, _, _, _, _, _, _, _, current, queue⟩ := s
  refine .object ?_
  cases current <;> cases queue <;> simp [hnatural, hpercent, hqueue, solid_tally]

theorem solid_report (r : Report) : Solid r.json := by
  have hnatural := fun n => (proper_natural n).solid
  have hpercent := fun p => (proper_percent p).solid
  have hwarnings : Solid (array (r.warnings.map Warning.json)) :=
    .array (List.forall_mem_map.mpr fun w _ => (proper_warning w).solid)
  refine .object ?_
  simp [solid_points hnatural, solid_points hpercent, solid_tally, solid_summary, hwarnings]

/-! ### Texts -/

/-- Whether a text is another one with more spacing outside of its string literals. -/
structure MoreSpaced (text compact : String) : Prop where
  unspaced : unspaced text.toList = compact.toList
  literals : literals text.toList = literals compact.toList

/-- What the layouts of a report have in common. -/
structure Report.SameInLayouts (r : Report) : Prop where
  moreSpaced : MoreSpaced (r.text .pretty) (r.text .compact)
  tight : unspaced (r.text .compact).toList = (r.text .compact).toList
  literals : ∀ layout, Json.literals (r.text layout).toList = r.json.texts.map writtenString

theorem Report.sameInLayouts (r : Report) : r.SameInLayouts := by
  have hpretty : (r.text .pretty).toList = r.json.pretty 0 := String.toList_ofList
  have hcompact : (r.text .compact).toList = r.json.compact := String.toList_ofList
  obtain ⟨-, hspacing, hliterals⟩ := (solid_report r).condenses 0
  have hcommon : Json.literals r.json.compact = Json.literals (r.json.pretty 0) := by
    rw [← hspacing, literals_unspaced]
  refine ⟨⟨?_, ?_⟩, ?_, ?_⟩
  · rw [hpretty, hcompact, hspacing]
  · rw [hpretty, hcompact, hcommon]
  · rw [hcompact, ← hspacing, unspaced_unspaced]
  · intro layout
    cases layout with
    | compact => rw [hcompact, hcommon, hliterals]
    | pretty => rw [hpretty, hliterals]

/-! ### Files -/

/-- What is written decides neither whether writing succeeds nor where. -/
theorem FileSystem.write_cases (fs : FileSystem) (path : String) :
    (∃ e, ∀ bytes, fs.write path bytes = .error e) ∨ (∀ bytes, fs.write path bytes = .ok fs) ∨
      ∃ l, ∀ bytes, fs.write path bytes = .ok (fs.put l (.file bytes)) := by
  unfold write
  rcases fs.entry path with e | ⟨l, - | name⟩
  · exact .inl ⟨e, fun _ => rfl⟩
  · exact .inl ⟨_, fun _ => rfl⟩
  · simp only
    split
    · exact .inl ⟨_, fun _ => rfl⟩
    · split
      · exact .inl ⟨_, fun _ => rfl⟩
      · split
        · exact .inl ⟨_, fun _ => rfl⟩
        · exact .inl ⟨_, fun _ => rfl⟩
        · exact .inr (.inl fun _ => rfl)
        · exact .inr (.inr ⟨_, fun _ => rfl⟩)
        · split
          · exact .inr (.inr ⟨_, fun _ => rfl⟩)
          · exact .inl ⟨_, fun _ => rfl⟩

namespace CommandLine

/-- What a text says does not decide how saving it ends: no file is written, or one file, at a place that
does not depend on the text either. -/
theorem save_cases (fs : FileSystem) (path : String) :
    ∃ fs' result, (∀ text, save fs path text = (fs', result)) ∨
      ∃ l, ∀ text, save fs path text = (fs'.put l (.file (Text.encode text)), result) := by
  unfold save
  rcases prepare fs path with ⟨fs', message | -⟩
  · exact ⟨fs', _, .inl fun _ => rfl⟩
  · rcases fs'.write_cases path with ⟨e, hwrite⟩ | hwrite | ⟨l, hwrite⟩
    · exact ⟨fs', _, .inl fun text => by simp only [hwrite]; rfl⟩
    · exact ⟨fs', _, .inl fun text => by simp only [hwrite]; rfl⟩
    · exact ⟨fs', _, .inr ⟨l, fun text => by simp only [hwrite]; rfl⟩⟩

/-- A configuration with a layout. -/
def withLayout (c : Config) (layout : Layout) : Config :=
  { c with output := { c.output with layout := layout } }

/-- Whether the outcomes of two runs differ at most in the spacing of one file. -/
structure Outcome.SameButSpacing (o o' : Outcome) : Prop where
  status : o.status = o'.status
  output : o.output = o'.output
  diagnostics : o.diagnostics = o'.diagnostics
  files : o.files = o'.files ∨ ∃ (fs : FileSystem) (l : Location) (text text' : String),
    o.files = fs.put l (.file (Text.encode text)) ∧
      o'.files = fs.put l (.file (Text.encode text')) ∧ MoreSpaced text text'

theorem publish_sameButSpacing (fs : FileSystem) (directory : String) (o : Output) (r : Report) :
    (publish fs directory { o with layout := .pretty } r).SameButSpacing
      (publish fs directory { o with layout := .compact } r) := by
  have hfiles := r.sameInLayouts.moreSpaced
  obtain ⟨fs', result, hsave | ⟨l, hsave⟩⟩ := save_cases fs (reportPath directory o.reportFile)
  · -- not by the equation of `publish`, which takes long to state
    delta publish
    simp only [hsave]
    cases result with
    | error message => exact ⟨rfl, rfl, rfl, .inl rfl⟩
    | ok _ => exact ⟨rfl, rfl, rfl, .inl rfl⟩
  · delta publish
    simp only [hsave]
    cases result with
    | error message => exact ⟨rfl, rfl, rfl, .inr ⟨fs', l, _, _, rfl, rfl, hfiles⟩⟩
    | ok _ => exact ⟨rfl, rfl, rfl, .inr ⟨fs', l, _, _, rfl, rfl, hfiles⟩⟩

theorem runWith_sameButSpacing (fs : FileSystem) (directory : String) (c : Config) :
    (runWith fs directory (withLayout c .pretty)).SameButSpacing
      (runWith fs directory (withLayout c .compact)) := by
  have hplaces : ∀ layout, (withLayout c layout).places = c.places := fun _ => rfl
  simp only [runWith, hplaces]
  cases Campaign.report fs directory c.places with
  | error failure => exact ⟨rfl, rfl, rfl, .inl rfl⟩
  | ok r => exact publish_sameButSpacing fs directory c.output r

/-- The laid out text of any report is its compact text but for the spacing outside of string literals,
of which there are the same ones in both, and a run with the one layout does all that a run with the
other one does but for this. -/
theorem layouts_agree :
    (∀ r : Report, r.SameInLayouts) ∧
      ∀ (fs : FileSystem) (directory : String) (c : Config),
        (runWith fs directory (withLayout c .pretty)).SameButSpacing
          (runWith fs directory (withLayout c .compact)) :=
  ⟨Report.sameInLayouts, runWith_sameButSpacing⟩

end CommandLine

end FuzzCampaign
