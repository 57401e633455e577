import FuzzCampaign.Proofs.ByteOrder
import FuzzCampaign.Proofs.Outcomes
import FuzzCampaign.Proofs.StableSort

/-!
What one more entry in the metadata directory does. Record files are taken by name, so a new one comes
at its place among the others; if it holds no record, it adds nothing to the candidates and one
finding to those on files. Any other entry is not looked at. Main statement: a new entry that holds no
record and does not stand on the way to the state file changes nothing but, for a record file, one
warning.
-/

namespace FuzzCampaign

open Seed

namespace Campaign

section

variable {fs fs' : FileSystem} {c : Campaign} {name : String} {m : Location} {n new : Node}

/-! ### Record files and a name -/

/-- Whether files are those with earlier names than a given one and then those with later names. -/
structure SplitAt (name : String) (files front back : List (String × List UInt8)) : Prop where
  eq : files = front ++ back
  earlier : ∀ f ∈ front, f.1 < name
  later : ∀ f ∈ back, name < f.1

namespace SplitAt

variable {front back : List (String × List UInt8)}

theorem encode_earlier {files : List (String × List UInt8)} (h : SplitAt name files front back) :
    ∀ f ∈ front, Text.encode f.1 < Text.encode name :=
  fun f hf => Text.encode_lt_encode_iff.mpr (h.earlier f hf)

theorem encode_later {files : List (String × List UInt8)} (h : SplitAt name files front back) :
    ∀ f ∈ back, Text.encode name < Text.encode f.1 :=
  fun f hf => Text.encode_lt_encode_iff.mpr (h.later f hf)

/-- If there is one more record file, it stands at its place by name among the others. -/
theorem recordFiles_eq (h : SplitAt name (c.recordFiles fs) front back) {bytes : List UInt8}
    (hmem : ∀ f, f ∈ c.recordFiles fs' ↔ f = (name, bytes) ∨ f ∈ c.recordFiles fs) :
    c.recordFiles fs' = front ++ (name, bytes) :: back := by
  have hsorted := recordFiles_pairwise fs c
  rw [h.eq] at hsorted
  obtain ⟨hfront, hback, hcross⟩ := List.pairwise_append.mp hsorted
  refine eq_of_pairwise_of_mem_iff (fun _ _ => String.lt_asymm) (recordFiles_pairwise fs' c) ?_ fun f => ?_
  · refine List.pairwise_append.mpr ⟨hfront, List.pairwise_cons.mpr ⟨h.later, hback⟩, ?_⟩
    intro f hf
    exact List.forall_mem_cons.mpr ⟨h.earlier f hf, hcross f hf⟩
  · rw [hmem, h.eq]
    simp only [List.mem_append, List.mem_cons]
    exact or_left_comm

end SplitAt

/-- The record files lie before and behind any name that none of them has. -/
theorem exists_splitAt (hfind : fs.find c.metadata = .ok (m, n)) (hn : n.isDirectory)
    (habsent : fs.node? (name :: m) = none) :
    ∃ front back, SplitAt name (c.recordFiles fs) front back := by
  have hsorted := recordFiles_pairwise fs c
  have hsides : ∀ f ∈ c.recordFiles fs, f.1 < name ∨ name < f.1 := by
    rintro ⟨x, content⟩ hf
    have hne : x ≠ name := by
      rintro rfl
      cases habsent.symm.trans ((mem_recordFiles_of_find hfind hn).mp hf).2
    rcases String.le_total x name with hle | hle
    · exact .inl (String.not_le.mp fun hge => hne (String.le_antisymm hle hge))
    · exact .inr (String.not_le.mp fun hge => hne (String.le_antisymm hge hle))
  refine ⟨(c.recordFiles fs).filter (·.1 < name), (c.recordFiles fs).filter (name < ·.1), ?_, ?_, ?_⟩
  · refine eq_of_pairwise_of_mem_iff (fun _ _ => String.lt_asymm) hsorted ?_ fun f => ?_
    · refine List.pairwise_append.mpr ⟨hsorted.filter _, hsorted.filter _, fun f hf g hg => ?_⟩
      simp only [List.mem_filter, decide_eq_true_eq] at hf hg
      exact String.lt_trans hf.2 hg.2
    · simp only [List.mem_append, List.mem_filter, decide_eq_true_eq, ← and_or_left]
      exact (and_iff_left_of_imp (hsides f)).symm
  · intro f hf
    simpa using (List.mem_filter.mp hf).2
  · intro f hf
    simpa using (List.mem_filter.mp hf).2

/-! ### Record files and what they hold -/

/-- The record files are those from before, and the new entry if it is one. -/
theorem mem_recordFiles_of_gains (hfind : fs.find c.metadata = .ok (m, n)) (hn : n.isDirectory)
    (hnew : fs.Gains fs' (name :: m) new) {f : String × List UInt8} :
    f ∈ c.recordFiles fs' ↔
      (c.Admits name ∧ f.1 = name ∧ new = .file f.2) ∨ f ∈ c.recordFiles fs := by
  obtain ⟨x, bytes⟩ := f
  rw [mem_recordFiles_of_find hfind hn, mem_recordFiles_of_find (hnew.find_of_found hfind) hn]
  by_cases hx : x = name
  · subst hx
    simp [hnew.entry, hnew.absent _ (List.suffix_refl _)]
  · have hoff : ¬(name :: m) <:+ (x :: m) := fun h => hx (List.cons.inj (h.eq_of_length rfl)).1.symm
    simp [hnew.rest _ hoff, hx]

theorem recordFiles_eq_of_gains (hfind : fs.find c.metadata = .ok (m, n)) (hn : n.isDirectory)
    (hnew : fs.Gains fs' (name :: m) new)
    (hnone : ¬(c.Admits name ∧ ∃ bytes, new = .file bytes)) :
    c.recordFiles fs' = c.recordFiles fs := by
  refine eq_of_pairwise_of_mem_iff (fun _ _ => String.lt_asymm) (recordFiles_pairwise fs' c)
    (recordFiles_pairwise fs c) fun f => ?_
  rw [mem_recordFiles_of_gains hfind hn hnew]
  exact or_iff_right fun h => hnone ⟨h.1, f.2, h.2.2⟩

/-- A new record file stands at its place by name among the others. -/
theorem exists_recordFiles_of_gains (hfind : fs.find c.metadata = .ok (m, n)) (hn : n.isDirectory)
    {bytes : List UInt8} (hnew : fs.Gains fs' (name :: m) (.file bytes))
    (hadmits : c.Admits name) :
    ∃ front back, SplitAt name (c.recordFiles fs) front back ∧
      c.recordFiles fs' = front ++ (name, bytes) :: back := by
  obtain ⟨front, back, hsplit⟩ :=
    exists_splitAt hfind hn (hnew.absent _ (List.suffix_refl _))
  refine ⟨front, back, hsplit, hsplit.recordFiles_eq fun f => ?_⟩
  rw [mem_recordFiles_of_gains hfind hn hnew]
  simp [hadmits, Prod.ext_iff, eq_comm]

/-- A file that holds no record gives no candidate. -/
theorem candidatesOf_middle {bytes : List UInt8} {fault : Json.Fault}
    (hparse : Metadata.parse bytes = .error fault) (front back : List (String × List UInt8)) :
    candidatesOf (front ++ (name, bytes) :: back) = candidatesOf (front ++ back) := by
  rw [candidatesOf_append, candidatesOf_append, (of_cons_of_parse_error hparse back).1]

/-- It gives one finding, between those on the files before and after. -/
theorem findingsOf_middle {bytes : List UInt8} {fault : Json.Fault}
    (hparse : Metadata.parse bytes = .error fault) (front back : List (String × List UInt8)) :
    findingsOf (front ++ (name, bytes) :: back)
      = findingsOf front
        ++ .unreadable name ("invalid record JSON: " ++ fault.message bytes) :: findingsOf back := by
  rw [findingsOf_append, (of_cons_of_parse_error hparse back).2]

/-- A warning on files names one of them. -/
theorem source_of_mem_findingsOf {files : List (String × List UInt8)} {w : Warning}
    (hw : w ∈ (findingsOf files).map Finding.warning) : ∃ f ∈ files, w.source = some f.1 := by
  obtain ⟨finding, hfinding, rfl⟩ := List.mem_map.mp hw
  obtain ⟨f, hf, fault, -, rfl⟩ := mem_findingsOf.mp hfinding
  exact ⟨f, hf, rfl⟩

/-! ### What is loaded -/

/-- Whether warnings on files are others with one more that a file cannot be read: the warnings before
it concern files with earlier names, and those behind it files with later names. -/
def GainsUnreadable (name reason : String) (load load' : List Warning) : Prop :=
  ∃ front back : List Warning, load = front ++ back ∧
    load' = front ++ ⟨.recordParseError, some name, reason⟩ :: back ∧
    (∀ w ∈ front, ∃ earlier, w.source = some earlier ∧ Text.encode earlier < Text.encode name) ∧
    ∀ w ∈ back, ∃ later, w.source = some later ∧ Text.encode name < Text.encode later

theorem candidates_of_find (hfind : fs.find c.metadata = .ok (m, n)) (hn : n.isDirectory) :
    c.candidates fs = ⟨candidatesOf (c.recordFiles fs),
      (findingsOf (c.recordFiles fs)).map Finding.warning⟩ := by
  rw [candidates_eq, if_pos (FileSystem.isDirectory_iff.mpr ⟨m, n, hfind, hn⟩)]

/-- A new record file that holds no record leaves the candidates and adds a warning. -/
theorem candidates_of_gains (hfind : fs.find c.metadata = .ok (m, n)) (hn : n.isDirectory)
    {bytes : List UInt8} {fault : Json.Fault} (hnew : fs.Gains fs' (name :: m) (.file bytes))
    (hadmits : c.Admits name) (hparse : Metadata.parse bytes = .error fault) :
    (c.candidates fs').candidates = (c.candidates fs).candidates ∧
      GainsUnreadable name ("invalid record JSON: " ++ fault.message bytes)
        (c.candidates fs).warnings (c.candidates fs').warnings := by
  obtain ⟨front, back, hsplit, hfiles'⟩ := exists_recordFiles_of_gains hfind hn hnew hadmits
  rw [candidates_of_find hfind hn, candidates_of_find (hnew.find_of_found hfind) hn, hsplit.eq,
    hfiles', candidatesOf_middle hparse, findingsOf_middle hparse]
  refine ⟨rfl, (findingsOf front).map Finding.warning, (findingsOf back).map Finding.warning,
    ?_, ?_, fun w hw => ?_, fun w hw => ?_⟩
  · rw [findingsOf_append, List.map_append]
  · rw [List.map_append, List.map_cons]
    rfl
  · obtain ⟨f, hf, hsource⟩ := source_of_mem_findingsOf hw
    exact ⟨f.1, hsource, hsplit.encode_earlier f hf⟩
  · obtain ⟨f, hf, hsource⟩ := source_of_mem_findingsOf hw
    exact ⟨f.1, hsource, hsplit.encode_later f hf⟩

/-- Any other entry leaves all that is loaded. -/
theorem candidates_eq_of_gains (hfind : fs.find c.metadata = .ok (m, n)) (hn : n.isDirectory)
    (hnew : fs.Gains fs' (name :: m) new)
    (hnone : ¬(c.Admits name ∧ ∃ bytes, new = .file bytes)) :
    c.candidates fs' = c.candidates fs := by
  rw [candidates_of_find hfind hn, candidates_of_find (hnew.find_of_found hfind) hn,
    recordFiles_eq_of_gains hfind hn hnew hnone]

end

/-! ### Reports on campaigns -/

section

variable {fs fs' : FileSystem} {root : String} {places : Places} {c : Campaign} {l : Location}
  {new : Node}

/-- The global state is read as before, unless the new entry stands on the way to it. -/
theorem globalState_of_gains (hc : locate fs root places = .ok c) (hnew : fs.Gains fs' l new)
    (hstate : l ∉ fs.way c.stateFile) : c.globalState fs' = c.globalState fs := by
  obtain ⟨hdir, hplaces⟩ := locate_eq_ok_iff.mp hc
  obtain ⟨k, n, hfind, -⟩ := FileSystem.isDirectory_iff.mp hdir
  have hbase : ∃ b, fs.node? (fs.base c.stateFile) = some b := by
    rw [hplaces]
    exact FileSystem.exists_node_base_join hfind places.stateFile
  obtain ⟨b, hnode⟩ := hbase
  exact globalState_congr (hnew.find_of_not_mem hnode hstate)

end

end Campaign

/-- Whether a report is another one with one more warning among those on files. -/
structure Report.GainsUnreadable (load : List Warning) (name reason : String)
    (report other : Report) : Prop extends report.SameFigures other where
  warnings : ∃ load' rest : List Warning, Campaign.GainsUnreadable name reason load load' ∧
    report.warnings = load ++ rest ∧ other.warnings = load' ++ rest

namespace Campaign

/-- A new entry of the metadata directory that does not stand on the way to the state file changes
nothing about a run, unless it is a record file, which one with a path too long to be followed is not. If
it is one and holds no record, the run fails as before or gets a report with the same figures and one more
warning, at the place of the new file among the warnings on files. -/
theorem report_new_entry {fs fs' : FileSystem} {root : String} {places : Places} {c : Campaign}
    {m : Location} {n new : Node} {name : String} (hc : locate fs root places = .ok c)
    (hfind : fs.find c.metadata = .ok (m, n)) (hn : n.isDirectory)
    (hnew : fs.Gains fs' (name :: m) new) (hstate : name :: m ∉ fs.way c.stateFile) :
    (∀ bytes fault, new = .file bytes → c.Admits name →
      Metadata.parse bytes = .error fault →
      (∃ failure, Campaign.report fs root places = .error failure ∧
        Campaign.report fs' root places = .error failure) ∨
      ∃ report report', Campaign.report fs root places = .ok report ∧
        Campaign.report fs' root places = .ok report' ∧
        report.GainsUnreadable (c.candidates fs).warnings name
          ("invalid record JSON: " ++ fault.message bytes) report') ∧
    (¬(c.Admits name ∧ ∃ bytes, new = .file bytes) →
      Campaign.report fs' root places = Campaign.report fs root places) := by
  rw [report_of_locate hc, report_of_locate (locate_of_keeps hc hnew.keeps),
    globalState_of_gains hc hnew hstate]
  constructor
  · rintro bytes fault rfl hadmits hparse
    obtain ⟨hcandidates, hload⟩ := candidates_of_gains hfind hn hnew hadmits hparse
    cases hg : c.globalState fs with
    | error failure => exact .inl ⟨failure, rfl, rfl⟩
    | ok g =>
      rcases reportOn_of_records_eq (c.candidates fs) (c.candidates fs')
        (by rw [hcandidates]) c.root g with
        hfail | ⟨report, report', series, hreport, hreport', hfigures, -, hwarnings, hwarnings'⟩
      · exact .inl hfail
      · refine .inr ⟨report, report', hreport, hreport', hfigures, (c.candidates fs').warnings,
          (validate (c.candidates fs).candidates).findings.map Finding.warning ++ series, hload, ?_, ?_⟩
        · rw [hwarnings, List.append_assoc]
        · rw [hwarnings', hcandidates, List.append_assoc]
  · intro hnone
    rw [candidates_eq_of_gains hfind hn hnew hnone]

/-- A campaign with one record and two record files that hold none. -/
def damaged : FileSystem where
  nodes :=
    [(["metadata"], .directory), (["state"], .directory),
      (["global_state.json", "state"],
        .file (Text.encode "\x7b\"last_allocated_id\": 1, \"total_coverage\": 5\x7d")),
      (["a.json", "metadata"], .file (Text.encode "[")),
      (["c.json", "metadata"],
        .file (Text.encode "\x7b\"id\": 1, \"new_cov\": 5, \"cov_incr\": 5, \"depth\": 0\x7d")),
      (["e.json", "metadata"], .file (Text.encode "\x7b"))]
  working := []

theorem report_damaged_new_entry :
    let spoiled := damaged.put ["d.json", "metadata"] (.file [])
    let extended := damaged.put ["d.json", "metadata"] .directory
    ∃ c report report' fault, locate damaged "/" Places.usual = .ok c ∧
      damaged.find c.metadata = .ok (["metadata"], .directory) ∧
      ["d.json", "metadata"] ∉ damaged.way c.stateFile ∧
      c.Admits "d.json" ∧ Metadata.parse [] = .error fault ∧
      Campaign.report damaged "/" Places.usual = .ok report ∧
      Campaign.report spoiled "/" Places.usual = .ok report' ∧
      report.warnings.length = 2 ∧ report'.warnings.length = 3 ∧
      report.GainsUnreadable (c.candidates damaged).warnings "d.json"
        ("invalid record JSON: " ++ fault.message []) report' ∧
      Campaign.report extended "/" Places.usual = Campaign.report damaged "/" Places.usual := by
  have hc : locate damaged "/" Places.usual
      = .ok ⟨"/", "/metadata", "/state/global_state.json", ".json"⟩ := rfl
  have hname : (["d.json", "metadata"] : Location).all FileSystem.isName := by decide
  have hnone : ∀ e ∈ damaged.nodes, ¬["d.json", "metadata"] <:+ e.1 := by decide
  have hstate : ["d.json", "metadata"] ∉ damaged.way "/state/global_state.json" := by decide
  obtain ⟨hspoiled, -⟩ := report_new_entry hc rfl rfl
    (FileSystem.gains_put (.file []) hname hnone) hstate
  obtain ⟨-, hextended⟩ := report_new_entry hc rfl rfl
    (FileSystem.gains_put .directory hname hnone) hstate
  have hadmits : (⟨"/", "/metadata", "/state/global_state.json", ".json"⟩ : Campaign).Admits
      "d.json" := by decide
  rcases hspoiled [] _ rfl hadmits rfl with ⟨failure, hfail, -⟩ |
    ⟨report, report', hreport, hreport', hgains⟩
  · cases hfail
  · refine ⟨_, report, report', _, rfl, rfl, hstate, hadmits, rfl, hreport, hreport', ?_, ?_, hgains,
      hextended (by simp)⟩
    · obtain rfl := Except.ok.inj hreport
      rfl
    · obtain rfl := Except.ok.inj hreport'
      rfl

/-- A campaign with one record, in a file with a short name. -/
def lone : FileSystem where
  nodes := (["a.json", "metadata", "camp"], recordWith "0") :: bare.nodes
  working := []

theorem find_far_lone : locate lone farRoot Places.usual = .ok far ∧
    lone.find far.metadata = .ok (["metadata", "camp"], .directory) :=
  let ⟨hfar, hmetadata, _⟩ := find_far lone rfl
  ⟨hfar, hmetadata⟩

theorem gains_lone (new : Node) :
    lone.Gains (lone.put [longName, "metadata", "camp"] new) [longName, "metadata", "camp"] new :=
  lone.gains_put new (by decide) (by decide)

theorem not_mem_way_lone : [longName, "metadata", "camp"] ∉ lone.way far.stateFile := by
  intro hmem
  obtain ⟨-, -, hstate, -⟩ := find_far lone rfl
  obtain ⟨n, hn⟩ := FileSystem.exists_node_of_find hstate _ hmem
  cases hn

/-- Nothing that a long name is given to makes a difference to it from far away. -/
theorem report_lone_put (new : Node) :
    Campaign.report (lone.put [longName, "metadata", "camp"] new) farRoot Places.usual
      = Campaign.report lone farRoot Places.usual := by
  obtain ⟨hfar, hmetadata⟩ := find_far_lone
  rw [report_of_locate hfar, report_of_locate (locate_of_keeps hfar (gains_lone new).keeps),
    globalState_of_gains hfar (gains_lone new) not_mem_way_lone,
    candidates_eq_of_gains hmetadata rfl (gains_lone new) fun h => not_admits_longName h.1]

/-- A new file whose name passes as that of a record file and that holds no record changes nothing, if its
path is too long. -/
theorem report_lone_unwarned :
    let spoiled := lone.put [longName, "metadata", "camp"] (.file (Text.encode "["))
    locate lone farRoot Places.usual = .ok far ∧
      lone.find far.metadata = .ok (["metadata", "camp"], .directory) ∧
      lone.Gains spoiled [longName, "metadata", "camp"] (.file (Text.encode "[")) ∧
      [longName, "metadata", "camp"] ∉ lone.way far.stateFile ∧ isRecordName far.ending longName ∧
      (∃ fault, Metadata.parse (Text.encode "[") = .error fault) ∧
      ∃ report, Campaign.report lone farRoot Places.usual = .ok report ∧
        Campaign.report spoiled farRoot Places.usual = .ok report := by
  obtain ⟨hfar, hmetadata⟩ := find_far_lone
  obtain ⟨report, hreport⟩ := exists_report_far lone rfl rfl rfl rfl rfl rfl
  exact ⟨hfar, hmetadata, gains_lone _, not_mem_way_lone, rfl, ⟨_, rfl⟩, report, hreport,
    (report_lone_put _).trans hreport⟩

end Campaign

end FuzzCampaign
