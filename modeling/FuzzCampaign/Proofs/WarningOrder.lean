import FuzzCampaign.Proofs.Essentials
import FuzzCampaign.Proofs.FileAccounting
import FuzzCampaign.Proofs.Growth

/-!
The order of the warnings in a report on a campaign. Files are read by name, candidates are examined
as they were read, rivals for an id are put in order by id and name, and the survivors, which are gone
through last, ascend by id. Each pass leaves its warnings in the order in which it goes. Main
statement: the warnings of a report fall into five blocks, one behind the other, each of its own kinds
and in its own order, and every warning but the one on the last coverage names a record file.
-/

namespace FuzzCampaign

open Seed

/-! ### Blocks of warnings -/

namespace Warning

/-- Whether warnings are of certain kinds and stand in a certain order. -/
structure IsBlock (kinds : Kind → Prop) (before : Warning → Warning → Prop) (ws : List Warning) :
    Prop where
  kinds : ∀ w ∈ ws, kinds w.kind
  ordered : ws.Pairwise before

/-- Whether two warnings name files, and the name of the first one comes before that of the second one
by its bytes. -/
def SourceBefore (v w : Warning) : Prop :=
  ∃ s t, v.source = some s ∧ w.source = some t ∧ Text.encode s < Text.encode t

/-- Whether a warning names a record file that states an id. -/
def Concerns (fs : FileSystem) (c : Campaign) (w : Warning) (id : Nat) : Prop :=
  ∃ name bytes m, w.source = some name ∧ (name, bytes) ∈ c.recordFiles fs ∧
    Metadata.parse bytes = .ok m ∧ m.id = some id

/-- Whether warnings concern records in ascending order by id and file name. -/
def RivalBefore (fs : FileSystem) (c : Campaign) (v w : Warning) : Prop :=
  ∃ i j, v.Concerns fs c i ∧ w.Concerns fs c j ∧ (i < j ∨ i = j ∧ v.SourceBefore w)

/-- Whether warnings concern records in ascending order by id, with a fall of coverage before an id that
was not given out if they concern the same record. -/
def RecordBefore (fs : FileSystem) (c : Campaign) (v w : Warning) : Prop :=
  ∃ i j, v.Concerns fs c i ∧ w.Concerns fs c j ∧
    (i < j ∨ v.source = w.source ∧ v.kind = .coverageRegression ∧ w.kind = .idBeyondAllocation)

end Warning

/-- What the order of the warnings in a report on a campaign is. -/
structure Report.IsStaged (report : Report) (fs : FileSystem) (c : Campaign) : Prop where
  blocks : ∃ unread own rivals noted final : List Warning,
    report.warnings = unread ++ own ++ rivals ++ noted ++ final ∧
    Warning.IsBlock (· = .recordParseError) Warning.SourceBefore unread ∧
    Warning.IsBlock (fun k => k = .invalidRecord ∨ k = .incrementMismatch)
      (fun v w => v.source = w.source ∨ v.SourceBefore w) own ∧
    Warning.IsBlock (· = .duplicateId) (Warning.RivalBefore fs c) rivals ∧
    Warning.IsBlock (fun k => k = .coverageRegression ∨ k = .idBeyondAllocation)
      (Warning.RecordBefore fs c) noted ∧
    (∀ w ∈ final, w.kind = .consistencyMismatch) ∧ final.length ≤ 1
  never : ∀ w ∈ report.warnings, w.kind ≠ .metadataDirMissing
  source : ∀ w ∈ report.warnings, w.kind ≠ .consistencyMismatch →
    ∃ name, w.source = some name ∧ c.IsRecordFile fs name
  noSource : ∀ w ∈ report.warnings, w.kind = .consistencyMismatch → w.source = none

/-! ### Passes over records -/

/-- Whether two findings name the files of two records of a list that are in a relation. -/
def Finding.AlongRecords (rs : List Record) (rel : Record → Record → Prop) (f f' : Finding) : Prop :=
  ∃ r ∈ rs, ∃ s ∈ rs, f.source? = some r.source ∧ f'.source? = some s.source ∧ rel r s

theorem Finding.AlongRecords.of_cons {r : Record} {rs : List Record} {rel : Record → Record → Prop}
    {f f' : Finding} (h : f.AlongRecords rs rel f') : f.AlongRecords (r :: rs) rel f' := by
  obtain ⟨s, hs, t, ht, hrel⟩ := h
  exact ⟨s, List.mem_cons_of_mem r hs, t, List.mem_cons_of_mem r ht, hrel⟩

/-- Records that give way are named in their order. -/
theorem Validation.supersessions_pairwise {rel : Record → Record → Prop} {rs : List Record}
    (h : rs.Pairwise rel) :
    (supersessions rs).Pairwise (Finding.AlongRecords rs rel) := by
  fun_induction supersessions rs with
  | case1 r s rest hid ih =>
    obtain ⟨hr, hrest⟩ := List.pairwise_cons.mp h
    refine List.pairwise_cons.mpr ⟨fun f hf => ?_, (ih hrest).imp Finding.AlongRecords.of_cons⟩
    obtain ⟨t, ht, u, -, -, rfl⟩ := mem_supersessions hf
    exact ⟨r, by simp, t, List.mem_cons_of_mem r ht, rfl, rfl, hr t ht⟩
  | case2 r s rest hid ih => exact (ih h.tail).imp Finding.AlongRecords.of_cons
  | case3 => exact .nil

namespace Series

variable {g : GlobalState} {previous : Option Record} {rs : List Record} {f : Finding}

/-- What is found in a record of a series names its file. -/
theorem source?_of_mem_recordFindings (h : f ∈ recordFindings g previous rs) :
    ∃ r ∈ rs, f.source? = some r.source := by
  obtain ⟨r, hr, ⟨p, -, -, rfl⟩ | ⟨-, rfl⟩⟩ := mem_recordFindings h
  · exact ⟨r, hr, rfl⟩
  · exact ⟨r, hr, rfl⟩

/-- In series that ascend by id all that is found ascends by id, and a fall of coverage to a record is
found before its id. -/
theorem recordFindings_pairwise (h : rs.Pairwise fun r s => r.id < s.id) :
    (recordFindings g previous rs).Pairwise fun f f' =>
      f.AlongRecords rs (fun r s => r.id < s.id) f' ∨ f.AlongRecords rs (· = ·) f' ∧
        f.kind = .coverageRegression ∧ f'.kind = .idBeyondAllocation := by
  induction rs generalizing previous with
  | nil => exact .nil
  | cons r rest ih =>
    obtain ⟨hr, hrest⟩ := List.pairwise_cons.mp h
    have hsource : ∀ f ∈ regressionFindings previous r ++ allocationFindings g r,
        f.source? = some r.source := by
      intro f hf
      rcases List.mem_append.mp hf with hf | hf
      · obtain ⟨p, -, -, rfl⟩ := mem_regressionFindings hf
        rfl
      · obtain ⟨-, rfl⟩ := mem_allocationFindings hf
        rfl
    rw [recordFindings]
    refine List.pairwise_append.mpr ⟨List.pairwise_append.mpr ⟨?_, ?_, ?_⟩, ?_, ?_⟩
    · unfold regressionFindings
      split <;> [split; skip] <;> simp
    · unfold allocationFindings
      split <;> simp
    · intro f hf f' hf'
      obtain ⟨p, -, -, rfl⟩ := mem_regressionFindings hf
      obtain ⟨-, rfl⟩ := mem_allocationFindings hf'
      exact .inr ⟨⟨r, by simp, r, by simp, rfl, rfl, rfl⟩, rfl, rfl⟩
    · refine (ih hrest).imp fun hff => ?_
      rcases hff with hff | ⟨hff, hkinds⟩
      · exact .inl hff.of_cons
      · exact .inr ⟨hff.of_cons, hkinds⟩
    · intro f hf f' hf'
      obtain ⟨s, hs, hs'⟩ := source?_of_mem_recordFindings hf'
      exact .inl ⟨r, by simp, s, List.mem_cons_of_mem r hs, hsource f hf, hs', hr s hs⟩

end Series

/-! ### Candidates of files -/

section

variable {cs : List Candidate}

/-- The warnings on single candidates stand in the order of their files. -/
theorem ownWarnings_pairwise (h : cs.Pairwise fun c d => c.source < d.source) :
    (cs.flatMap Candidate.ownWarnings).Pairwise fun v w => v.source = w.source ∨ v.SourceBefore w := by
  rw [List.pairwise_flatMap]
  constructor
  · intro c _
    refine List.pairwise_of_forall_mem_list fun v hv w hw => ?_
    exact .inl ((source_of_mem_ownWarnings hv).1.trans (source_of_mem_ownWarnings hw).1.symm)
  · refine h.imp fun {c d} hcd v hv w hw => .inr ⟨c.source, d.source, ?_, ?_, ?_⟩
    · exact (source_of_mem_ownWarnings hv).1
    · exact (source_of_mem_ownWarnings hw).1
    · exact Text.encode_lt_encode_iff.mpr hcd

/-- Since no two candidates have a file in common, their records are put in strict order. -/
theorem Validation.ordered_strict (h : cs.Pairwise fun c d => c.source < d.source) :
    (ordered cs).Pairwise fun r s =>
      r.id < s.id ∨ r.id = s.id ∧ Text.encode r.source < Text.encode s.source := by
  have hle : (ordered cs).Pairwise fun r s => r.precedes s :=
    sortBy_pairwise Record.precedes_total Record.precedes_trans _
  have hne : (ordered cs).Pairwise fun r s => r.source ≠ s.source := by
    refine ((sortBy_perm _ _).pairwise_iff fun hrs => hrs.symm).mpr (List.pairwise_filterMap.mpr ?_)
    refine h.imp fun {c d} hcd r hr s hs => ?_
    rw [(Candidate.makes_of_record? hr).source, (Candidate.makes_of_record? hs).source]
    exact fun heq => String.lt_irrefl _ (heq ▸ hcd)
  refine (hle.and hne).imp fun {r s} hrs => ?_
  simp only [Record.precedes, Bool.or_eq_true, Bool.and_eq_true, decide_eq_true_eq, beq_iff_eq] at hrs
  obtain ⟨hid | ⟨hid, hsource⟩, hdiffer⟩ := hrs
  · exact .inl hid
  · refine .inr ⟨hid, Text.encode_lt_encode_iff.mpr ?_⟩
    exact String.not_le.mp fun hge => hdiffer (String.le_antisymm hsource hge)

end

namespace Campaign

variable {files : List (String × List UInt8)}

/-- Candidates stand in the order of their files. -/
theorem candidatesOf_pairwise (h : files.Pairwise fun f g => f.1 < g.1) :
    (candidatesOf files).Pairwise fun c d => c.source < d.source := by
  have hsource : ∀ {f : String × List UInt8} {c : Candidate},
      (parseRecord f.1 f.2).toOption = some c → c.source = f.1 := by
    intro f c hc
    unfold parseRecord at hc
    split at hc
    · exact congrArg Candidate.source (Option.some.inj hc).symm
    · cases hc
  refine List.pairwise_filterMap.mpr (List.pairwise_map.mpr (h.imp fun {f g} hfg c hc d hd => ?_))
  rw [hsource hc, hsource hd]
  exact hfg

/-- So do the findings on files that are no candidates. -/
theorem findingsOf_pairwise (h : files.Pairwise fun f g => f.1 < g.1) :
    ((findingsOf files).map Finding.warning).Pairwise Warning.SourceBefore := by
  induction files with
  | nil => exact .nil
  | cons f rest ih =>
    obtain ⟨hf, hrest⟩ := List.pairwise_cons.mp h
    cases hparse : Metadata.parse f.2 with
    | ok m =>
      rw [(of_cons_of_parse_ok hparse rest).2]
      exact ih hrest
    | error fault =>
      rw [(of_cons_of_parse_error hparse rest).2, List.map_cons]
      refine List.pairwise_cons.mpr ⟨fun w hw => ?_, ih hrest⟩
      obtain ⟨finding, hfinding, rfl⟩ := List.mem_map.mp hw
      obtain ⟨g, hg, fault', -, rfl⟩ := mem_findingsOf.mp hfinding
      exact ⟨f.1, g.1, rfl, rfl, Text.encode_lt_encode_iff.mpr (hf g hg)⟩

end Campaign

/-! ### Reports on campaigns -/

section

variable {fs : FileSystem} {c : Campaign} {g : GlobalState} {location : String} {report : Report}

/-- A record of a campaign is stated by the file that it is named for. -/
theorem concerns_of_record {r : Record} {f : Finding}
    (hr : r ∈ (Campaign.candidatesOf (c.recordFiles fs)).filterMap Candidate.record?)
    (hf : f.source? = some r.source) : f.warning.Concerns fs c r.id := by
  obtain ⟨d, hd, hdr⟩ := List.mem_filterMap.mp hr
  obtain ⟨⟨name, bytes⟩, hfile, hname, hparse⟩ := Campaign.mem_candidatesOf.mp hd
  have hmakes := Candidate.makes_of_record? hdr
  refine ⟨name, bytes, d.metadata, ?_, hfile, hparse, hmakes.id⟩
  rw [Finding.warning, hf, hmakes.source, hname]

/-- What is found on a campaign is the last coverage, or it names a record file. -/
theorem source?_of_mem_allFindings {f : Finding} (h : f ∈ allFindings fs c g) :
    f.kind = .consistencyMismatch ∧ f.source? = none ∨
      f.kind ≠ .consistencyMismatch ∧ f.kind ≠ .metadataDirMissing ∧
        ∃ name, f.source? = some name ∧ c.IsRecordFile fs name := by
  have hcandidate : ∀ d ∈ Campaign.candidatesOf (c.recordFiles fs), c.IsRecordFile fs d.source := by
    intro d hd
    obtain ⟨file, hfile, hname, -⟩ := Campaign.mem_candidatesOf.mp hd
    exact Campaign.mem_map_recordFiles.mp (hname ▸ List.mem_map_of_mem hfile)
  have hordered : ∀ r ∈ Validation.ordered (Campaign.candidatesOf (c.recordFiles fs)),
      c.IsRecordFile fs r.source := by
    intro r hr
    obtain ⟨d, hd, hdr⟩ := List.mem_filterMap.mp (mem_sortBy.mp hr)
    exact (Candidate.makes_of_record? hdr).source ▸ hcandidate d hd
  rw [allFindings, Campaign.candidates_of_recordFiles, validate] at h
  rcases List.mem_append.mp h with h | h
  · rcases List.mem_append.mp h with h | h
    · obtain ⟨file, hfile, fault, -, rfl⟩ := Campaign.mem_findingsOf.mp h
      exact .inr ⟨by simp [Finding.kind], by simp [Finding.kind], file.1, rfl,
        Campaign.mem_map_recordFiles.mp (List.mem_map_of_mem hfile)⟩
    · rcases List.mem_append.mp h with h | h
      · obtain ⟨d, hd, hf⟩ := List.mem_flatMap.mp h
        have hown : f.warning ∈ d.ownWarnings := by
          rw [← map_warning_findings]
          exact List.mem_map_of_mem hf
        obtain ⟨hsource, hkind⟩ := source_of_mem_ownWarnings hown
        refine .inr ⟨?_, ?_, d.source, hsource, hcandidate d hd⟩
        · exact fun hk => by simp [Finding.warning, hk, Warning.Kind.isOfCandidate] at hkind
        · exact fun hk => by simp [Finding.warning, hk, Warning.Kind.isOfCandidate] at hkind
      · obtain ⟨r, hr, s, -, -, rfl⟩ := Validation.mem_supersessions h
        exact .inr ⟨by simp [Finding.kind], by simp [Finding.kind], r.source, rfl, hordered r hr⟩
  · have hsurvivor : ∀ r ∈ Validation.survivors
        (Validation.ordered (Campaign.candidatesOf (c.recordFiles fs))),
        c.IsRecordFile fs r.source :=
      fun r hr => hordered r ((survivors_sublist _).subset hr)
    rcases Series.mem_findings h with ⟨r, hr, p, -, -, rfl⟩ | ⟨r, hr, -, rfl⟩ | ⟨r, -, -, rfl⟩
    · exact .inr ⟨by simp [Finding.kind], by simp [Finding.kind], r.source, rfl, hsurvivor r hr⟩
    · exact .inr ⟨by simp [Finding.kind], by simp [Finding.kind], r.source, rfl, hsurvivor r hr⟩
    · exact .inl ⟨rfl, rfl⟩

theorem unread_isBlock (fs : FileSystem) (c : Campaign) :
    Warning.IsBlock (· = .recordParseError) Warning.SourceBefore
      ((Campaign.findingsOf (c.recordFiles fs)).map Finding.warning) := by
  refine ⟨fun w hw => ?_, Campaign.findingsOf_pairwise (Campaign.recordFiles_pairwise fs c)⟩
  obtain ⟨f, hf, rfl⟩ := List.mem_map.mp hw
  obtain ⟨file, -, fault, -, rfl⟩ := Campaign.mem_findingsOf.mp hf
  rfl

theorem own_isBlock (fs : FileSystem) (c : Campaign) :
    Warning.IsBlock (fun k => k = .invalidRecord ∨ k = .incrementMismatch)
      (fun v w => v.source = w.source ∨ v.SourceBefore w)
      ((Campaign.candidatesOf (c.recordFiles fs)).flatMap Candidate.ownWarnings) := by
  refine ⟨fun w hw => ?_, ownWarnings_pairwise
    (Campaign.candidatesOf_pairwise (Campaign.recordFiles_pairwise fs c))⟩
  obtain ⟨d, -, hown⟩ := List.mem_flatMap.mp hw
  simpa [Warning.Kind.isOfCandidate] using (source_of_mem_ownWarnings hown).2

theorem rivals_isBlock (fs : FileSystem) (c : Campaign) :
    Warning.IsBlock (· = .duplicateId) (Warning.RivalBefore fs c)
      ((Validation.supersessions (Validation.ordered (Campaign.candidatesOf
        (c.recordFiles fs)))).map Finding.warning) := by
  have hstrict := Validation.ordered_strict
    (Campaign.candidatesOf_pairwise (Campaign.recordFiles_pairwise fs c))
  constructor
  case kinds =>
    intro w hw
    obtain ⟨f, hf, rfl⟩ := List.mem_map.mp hw
    obtain ⟨r, -, s, -, -, rfl⟩ := Validation.mem_supersessions hf
    rfl
  case ordered =>
    refine List.pairwise_map.mpr ((Validation.supersessions_pairwise hstrict).imp ?_)
    rintro f f' ⟨r, hr, s, hs, hf, hf', hrs⟩
    refine ⟨r.id, s.id, concerns_of_record (mem_sortBy.mp hr) hf,
      concerns_of_record (mem_sortBy.mp hs) hf', hrs.imp_right fun hrs => ?_⟩
    exact ⟨hrs.1, r.source, s.source, hf, hf', hrs.2⟩

theorem noted_isBlock (fs : FileSystem) (c : Campaign) (g : GlobalState) :
    Warning.IsBlock (fun k => k = .coverageRegression ∨ k = .idBeyondAllocation)
      (Warning.RecordBefore fs c)
      ((Series.recordFindings g none (validate (Campaign.candidatesOf
        (c.recordFiles fs))).records).map Finding.warning) := by
  have hconcerns {r : Record} {f : Finding}
      (hr : r ∈ (validate (Campaign.candidatesOf (c.recordFiles fs))).records)
      (hf : f.source? = some r.source) : f.warning.Concerns fs c r.id :=
    concerns_of_record (mem_sortBy.mp ((survivors_sublist _).subset hr)) hf
  constructor
  case kinds =>
    intro w hw
    obtain ⟨f, hf, rfl⟩ := List.mem_map.mp hw
    obtain ⟨r, -, ⟨p, -, -, rfl⟩ | ⟨-, rfl⟩⟩ := Series.mem_recordFindings hf
    · exact .inl rfl
    · exact .inr rfl
  case ordered =>
    refine List.pairwise_map.mpr ((Series.recordFindings_pairwise (records_pairwise _)).imp ?_)
    rintro f f' (⟨r, hr, s, hs, hf, hf', hrs⟩ | ⟨⟨r, hr, s, hs, hf, hf', rfl⟩, hkinds⟩)
    · exact ⟨r.id, s.id, hconcerns hr hf, hconcerns hs hf', .inl hrs⟩
    · exact ⟨r.id, r.id, hconcerns hr hf, hconcerns hs hf', .inr ⟨hf.trans hf'.symm, hkinds⟩⟩

theorem isStaged_of_reportOn (h : reportOn location g (c.candidates fs) = .ok report) :
    report.IsStaged fs c := by
  have hwarnings := warnings_of_reportOn h
  constructor
  case blocks =>
    refine ⟨_, _, _, _,
      (Series.finalFindings g (validate (Campaign.candidatesOf (c.recordFiles fs))).records).map
        Finding.warning,
      ?_, unread_isBlock fs c, own_isBlock fs c, rivals_isBlock fs c, noted_isBlock fs c g, ?_, ?_⟩
    · rw [hwarnings, allFindings, Campaign.candidates_of_recordFiles, List.map_append,
        List.map_append, map_warning_validate, Series.findings, List.map_append]
      simp only [List.append_assoc]
    · intro w hw
      obtain ⟨f, hf, rfl⟩ := List.mem_map.mp hw
      obtain ⟨r, -, -, rfl⟩ := Series.mem_finalFindings hf
      rfl
    · unfold Series.finalFindings
      split <;> [split; skip] <;> simp
  all_goals
    intro w hw
    rw [hwarnings] at hw
    obtain ⟨f, hf, rfl⟩ := List.mem_map.mp hw
    have hplace := source?_of_mem_allFindings hf
  case never =>
    rcases hplace with ⟨hk, -⟩ | ⟨-, hk, -⟩
    · exact fun hne => by cases hk.symm.trans hne
    · exact hk
  case source =>
    intro hk
    exact (hplace.resolve_left fun h => hk h.1).2.2
  case noSource =>
    intro hk
    exact (hplace.resolve_right fun h => h.1 hk).2

end

namespace Campaign

/-- In every report on a campaign the warnings stand in five blocks, and each of them but the one on
the last coverage names a record file. -/
theorem report_isStaged {fs : FileSystem} {root : String} {places : Places} {report : Report}
    (h : Campaign.report fs root places = .ok report) :
    ∃ c, locate fs root places = .ok c ∧ report.IsStaged fs c := by
  obtain ⟨c, g, hc, -, hreport⟩ := report_eq_ok_iff.mp h
  exact ⟨c, hc, isStaged_of_reportOn hreport⟩

/-- A campaign with a warning of each kind that a report can have. -/
def troubled : FileSystem where
  nodes :=
    [(["metadata"], .directory), (["state"], .directory),
      (["global_state.json", "state"],
        .file (Text.encode "\x7b\"last_allocated_id\": 2, \"total_coverage\": 8\x7d")),
      (["a.json", "metadata"], .file (Text.encode "\x7b\"id\": 4\x7d")),
      (["b.json", "metadata"],
        .file (Text.encode "\x7b\"id\": 1, \"new_cov\": 7, \"cov_incr\": 7, \"depth\": 0\x7d")),
      (["c.json", "metadata"],
        .file (Text.encode
          "\x7b\"id\": 1, \"old_cov\": 2, \"new_cov\": 9, \"cov_incr\": 5, \"depth\": 0\x7d")),
      (["d.json", "metadata"],
        .file (Text.encode "\x7b\"id\": 3, \"new_cov\": 6, \"cov_incr\": 6, \"depth\": 1\x7d")),
      (["e.json", "metadata"], .file (Text.encode "\x7b"))]
  working := []

theorem report_troubled_isStaged :
    ∃ report, Campaign.report troubled "/" Places.usual = .ok report ∧
      report.warnings.map (fun w => (w.kind, w.source)) =
        [(.recordParseError, some "e.json"), (.invalidRecord, some "a.json"),
          (.incrementMismatch, some "c.json"), (.duplicateId, some "b.json"),
          (.coverageRegression, some "d.json"), (.idBeyondAllocation, some "d.json"),
          (.consistencyMismatch, none)] ∧
      ∃ c, locate troubled "/" Places.usual = .ok c ∧ report.IsStaged troubled c :=
  ⟨_, rfl, rfl, report_isStaged rfl⟩

end Campaign

end FuzzCampaign
