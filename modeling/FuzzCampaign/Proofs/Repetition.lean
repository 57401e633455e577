import FuzzCampaign.Proofs.FileAccounting
import FuzzCampaign.Proofs.OwnReport

/-!
Running the program again. A run reads its configuration, the global state and the record files, and
writes one file, with the directories that it needs. Whatever was found on a way through directories is
found again, unless the report took its place. Main statements: a report that was saved can be saved
again and nothing changes; after a run everything lies in a directory if it did before; and a run that
succeeded does so again in the same way, when its report goes to no place that the run reads or where the
next one looks for a configuration file.
-/

namespace FuzzCampaign

open Seed

namespace FileSystem

variable {fs fs' : FileSystem} {path other : String} {l k : Location} {n : Node}

/-! ### What saving alters -/

/-- All that a walk goes through before it arrives are directories. -/
theorem isDirectory_of_mem_through {pieces : List String} (h : fs.walk l pieces = .ok k) :
    ∀ j ∈ through l pieces, j ≠ k → ∃ m, fs.node? j = some m ∧ m.isDirectory := by
  induction pieces generalizing l with
  | nil =>
    obtain rfl := Except.ok.inj h
    simp [through]
  | cons piece rest ih =>
    obtain ⟨hl, -, hrest⟩ := walk_cons_iff.mp h
    exact List.forall_mem_cons.mpr ⟨fun _ => hl, ih hrest⟩

/-- Whether a file system is another one in which, on the way of a path, directories were made where
nothing was, and something that is no directory may have been replaced at the end. -/
structure AltersWay (fs fs' : FileSystem) (path : String) : Prop where
  working : fs'.working = fs.working
  node?_cases : ∀ k, fs'.node? k = fs.node? k ∨ k ∈ fs.way path ∧
    (fs.node? k = none ∧ fs'.node? k = some .directory ∨
      k = fs.target path ∧ ∀ n, fs.node? k = some n → ¬n.isDirectory)

namespace AltersWay

theorem of_addsDirectories (h : fs.AddsDirectories fs' (fs.way path)) : fs.AltersWay fs' path :=
  ⟨h.working, fun k => (h.node?_cases k).imp_right fun hk => ⟨hk.1, .inl hk.2⟩⟩

/-- Directories are found again, and so is anything else that is not at the end of the path. -/
theorem find_of_found (h : fs.AltersWay fs' path) (hfind : fs.find other = .ok (k, n))
    (hk : n.isDirectory ∨ fs.target path ≠ k) : fs'.find other = .ok (k, n) := by
  obtain ⟨hresolve, hn⟩ := find_eq_ok_iff.mp hfind
  have hwalk := (resolve_eq_ok_iff.mp hresolve).2
  refine (find_congr h.working fun j hj => ?_).trans hfind
  obtain ⟨m, hm⟩ := exists_node_of_find hfind j hj
  rcases h.node?_cases j with heq | ⟨-, ⟨hnone, -⟩ | ⟨rfl, hfile⟩⟩
  · exact heq
  · cases hm.symm.trans hnone
  · -- the end of the path is no directory, so it can only be where the other path ends
    exfalso
    obtain ⟨m', hm', hdir⟩ : ∃ m', fs.node? (fs.target path) = some m' ∧ m'.isDirectory := by
      rcases hk with hdir | hne
      · exact directories_of_walk hwalk ⟨n, hn, hdir⟩ _ hj
      · exact isDirectory_of_mem_through hwalk _ hj hne
    exact hfile m' hm' hdir

/-- A regular file is where it was, and there is no new one, but at the end of the path. -/
theorem node?_eq_file_iff (h : fs.AltersWay fs' path) (hk : fs.target path ≠ k) {bytes : List UInt8} :
    fs'.node? k = some (.file bytes) ↔ fs.node? k = some (.file bytes) := by
  rcases h.node?_cases k with heq | ⟨-, ⟨hnone, hdir⟩ | ⟨rfl, -⟩⟩
  · rw [heq]
  · simp [hnone, hdir]
  · exact absurd rfl hk

end AltersWay

/-! ### Devices -/

/-- Writing to a device changes nothing. -/
theorem write_of_sink {bytes : List UInt8} (h : fs.write path bytes = .ok fs')
    (hsink : fs.node? (fs.target path) = some .sink) : fs' = fs := by
  unfold write at h
  split at h
  · cases h
  · cases h
  · next l name hentry =>
    obtain ⟨above, slashes, hentry⟩ := exists_entry hentry
    rw [hentry.target_eq] at hsink
    rw [hsink] at h
    split at h
    · cases h
    · split at h
      · cases h
      · exact (Except.ok.inj h).symm

/-! ### Trees -/

/-- Whether everything listed lies in a directory. -/
def IsTree (fs : FileSystem) : Prop :=
  ∀ e ∈ fs.nodes, (fs.node? e.1.tail).any Node.isDirectory

instance (fs : FileSystem) : Decidable fs.IsTree := List.decidableBAll _ _

namespace IsTree

theorem isDirectory (h : fs.IsTree) {name : String} (hn : fs.node? (name :: l) = some n) :
    ∃ m, fs.node? l = some m ∧ m.isDirectory := by
  simpa [Option.any_eq_true] using h _ (fs.node?_eq_some_iff.mp hn)

/-- A tree stays one when something is put in a directory and no directory is replaced. -/
theorem put (h : fs.IsTree) {name : String} (hl : ∃ m, fs.node? l = some m ∧ m.isDirectory)
    (hfree : ∀ n, fs.node? (name :: l) = some n → ¬n.isDirectory) (new : Node) :
    (fs.put (name :: l) new).IsTree := by
  have hkept : ∀ k, (fs.node? k).any Node.isDirectory →
      ((fs.put (name :: l) new).node? k).any Node.isDirectory := by
    intro k hk
    obtain ⟨m, hm, hdir⟩ := (Option.any_eq_true _ _).mp hk
    have hne : k ≠ name :: l := by
      rintro rfl
      exact hfree m hm hdir
    rwa [node?_put_of_ne fs new hne]
  by_cases hnamed : (name :: l).all isName
  · intro e he
    rw [nodes_put fs hnamed] at he
    rcases List.mem_cons.mp he with rfl | he
    · exact hkept l ((Option.any_eq_true _ _).mpr hl)
    · exact hkept _ (h e (List.mem_of_mem_filter he))
  · rwa [put_of_not_named fs hnamed]

theorem makeDirectory (h : fs.IsTree) (hmade : fs.makeDirectory path = .ok fs') : fs'.IsTree := by
  unfold FileSystem.makeDirectory at hmade
  split at hmade
  · cases hmade
  · cases hmade
  · split at hmade
    · cases hmade
    · split at hmade
      · cases hmade
      · next hnone =>
        split at hmade
        · next hopen =>
          obtain rfl := Except.ok.inj hmade
          refine h.put ⟨.directory, by simpa [isOpen] using hopen, rfl⟩ (fun n hn => ?_) _
          cases hnone.symm.trans hn
        · cases hmade

theorem makeDirectoriesFor (h : fs.IsTree) (paths : List String) :
    (fs.makeDirectoriesFor paths).1.IsTree := by
  induction paths with
  | nil => exact h
  | cons path above ih =>
    rw [FileSystem.makeDirectoriesFor]
    split
    · next hmade => exact h.makeDirectory hmade
    · split
      · next hfor => exact hfor ▸ ih
      · next hfor =>
        rw [hfor] at ih
        split
        · next hmade => exact ih.makeDirectory hmade
        · exact ih
    · exact h

theorem write {bytes : List UInt8} (h : fs.IsTree) (hwrite : fs.write path bytes = .ok fs') :
    fs'.IsTree := by
  by_cases hsink : fs.node? (fs.target path) = some .sink
  · rwa [write_of_sink hwrite hsink]
  · obtain ⟨l, name, hwritable, rfl⟩ := exists_writable hwrite hsink
    obtain ⟨above, hentry⟩ := hwritable.entry
    exact h.put hentry.directory hwritable.not_isDirectory _

end IsTree

/-! ### The usual configuration file -/

/-- The usual configuration file is one name below the working directory. -/
theorem find_usualConfigFile_iff :
    fs.find CommandLine.usualConfigFile = .ok (k, n) ↔
      (∃ m, fs.node? fs.working = some m ∧ m.isDirectory) ∧
        k = CommandLine.usualConfigFile :: fs.working ∧ fs.node? k = some n := by
  have hpieces : Path.pieces CommandLine.usualConfigFile = [CommandLine.usualConfigFile] := rfl
  have hbase : fs.base CommandLine.usualConfigFile = fs.working := rfl
  have hpath : pathError? CommandLine.usualConfigFile = none := rfl
  have hshort : isTooLong CommandLine.usualConfigFile = false := rfl
  have hmove : move fs.working CommandLine.usualConfigFile
    = CommandLine.usualConfigFile :: fs.working := rfl
  rw [find_eq_ok_iff, resolve_eq_ok_iff, hpieces, hbase, walk_cons_iff, hmove, walk]
  simp only [hpath, hshort, true_and, Except.ok.injEq, eq_comm, and_assoc]

theorem pathExists_iff : fs.pathExists path ↔ ∃ k n, fs.find path = .ok (k, n) := by
  unfold pathExists
  cases fs.find path with
  | error e => simp
  | ok found => simpa using ⟨found.1, found.2, rfl⟩

/-- A path that does not lead through the place of the usual configuration file brings nothing about
there. -/
theorem AltersWay.pathExists_usualConfigFile (h : fs.AltersWay fs' path) (htree : fs.IsTree)
    (hway : CommandLine.usualConfigFile :: fs.working ∉ fs.way path)
    (hexists : fs'.pathExists CommandLine.usualConfigFile) :
    fs.pathExists CommandLine.usualConfigFile := by
  obtain ⟨k, n, hfind⟩ := pathExists_iff.mp hexists
  obtain ⟨-, rfl, hn⟩ := find_usualConfigFile_iff.mp hfind
  rw [h.working] at hn
  have hold : fs.node? (CommandLine.usualConfigFile :: fs.working) = some n := by
    rcases h.node?_cases (CommandLine.usualConfigFile :: fs.working) with heq | ⟨hmem, -⟩
    · rw [← heq, hn]
    · exact absurd hmem hway
  exact pathExists_iff.mpr ⟨_, n, find_usualConfigFile_iff.mpr ⟨htree.isDirectory hold, rfl, hold⟩⟩

end FileSystem

namespace CommandLine

open FileSystem

variable {fs fs' : FileSystem} {path text : String}

/-! ### Saving the same report again -/

/-- A report that was saved alters nothing off the way there. -/
theorem altersWay_of_save (h : (save fs path text).2 = .ok ()) :
    fs.AltersWay (save fs path text).1 path := by
  by_cases hsink : fs.node? (fs.target path) = some .sink
  · obtain ⟨hadds, -⟩ := prepare_spec fs path
    unfold save at h ⊢
    split at h
    · cases h
    · next fs₁ hprepare =>
      rw [hprepare] at hadds
      split at h
      · next fs₂ hwrite =>
        have hsink₁ : fs₁.node? (fs₁.target path) = some .sink := by
          rw [hadds.target_eq, hadds.node?_eq_some hsink]
        obtain rfl := write_of_sink hwrite hsink₁
        exact .of_addsDirectories hadds
      · cases h
  · have hsaved := (save_spec text hsink).2 h
    refine ⟨hsaved.working, fun k => ?_⟩
    by_cases hk : k = fs.target path
    · subst hk
      refine .inr ⟨foldl_move_mem_through _ _, .inr ⟨rfl, fun n hn => ?_⟩⟩
      obtain ⟨old, rfl⟩ := hsaved.before n hn
      exact Bool.false_ne_true
    · exact (hsaved.rest k hk).imp_right fun hnew => ⟨hnew.1, .inl hnew.2⟩

/-- Saving a report twice is like saving it once. -/
theorem save_again (h : (save fs path text).2 = .ok ()) :
    save (save fs path text).1 path text = save fs path text := by
  obtain ⟨hadds, hparent⟩ := prepare_spec fs path
  rcases hprepare : prepare fs path with ⟨fs₁, outcome⟩
  rw [hprepare] at hadds hparent
  cases outcome with
  | error message => simp [save, hprepare] at h
  | ok =>
    cases hwrite : fs₁.write path (Text.encode text) with
    | error e => simp [save, hprepare, hwrite] at h
    | ok fs₂ =>
      have hsave : save fs path text = (fs₂, .ok ()) := by simp only [save, hprepare, hwrite]
      rw [hsave]
      by_cases hsink : fs₁.node? (fs₁.target path) = some .sink
      · obtain rfl := write_of_sink hwrite hsink
        simp only [save, prepare_of_isDirectory (hparent rfl), hwrite]
      · obtain ⟨l, name, hwritable, rfl⟩ := exists_writable hwrite hsink
        have hready : Ready (fs₁.put (name :: l) (.file (Text.encode text))) path l name :=
          ⟨fun parent hp hne => isDirectory_put (hparent rfl parent hp hne) hwritable.not_isDirectory _,
            hwritable.put _, _, fs₁.node?_put_self hwritable.named _⟩
        rw [hready.save_eq, put_put]

theorem isTree_prepare (h : fs.IsTree) (path : String) : (prepare fs path).1.IsTree := by
  unfold prepare
  split
  · exact h
  · next parent hparent =>
    split
    · exact h
    · have hmade := h.makeDirectoriesFor (Path.ancestors parent)
      rw [← makeDirectories] at hmade
      split
      · next hok => rwa [hok] at hmade
      · next herror => rwa [herror] at hmade

theorem isTree_save (h : fs.IsTree) (path text : String) : (save fs path text).1.IsTree := by
  have hprepare := isTree_prepare h path
  unfold save
  split
  · next herror => rwa [herror] at hprepare
  · next hok =>
    rw [hok] at hprepare
    split
    · next hwrite => exact hprepare.write hwrite
    · exact hprepare

/-- Whatever comes of a run, it leaves a tree where there was one. -/
theorem isTree_run (h : fs.IsTree) (arguments : List String) : (run fs arguments).files.IsTree := by
  cases ha : Arguments.parse arguments with
  | misuse | version | help => simpa only [run, ha] using h
  | run a =>
    simp only [run, ha]
    cases hc : config fs a.configFile with
    | error failure => rwa [(refused_of_config hc).files]
    | ok c =>
      cases hr : Campaign.report fs a.dataDirectory c.places with
      | error failure => rwa [(refused_of_report hc hr).files]
      | ok r =>
        have hsaved := isTree_save h (pathOf c a) (r.text (outputOf c a).layout)
        rw [runArguments_eq_publish hc hr]
        cases hsave : (save fs (pathOf c a) (r.text (outputOf c a).layout)).2 with
        | error message => rwa [publish_of_error hsave]
        | ok => rwa [publish_of_ok hsave]

/-! ### Running again -/

/-- Whether the report of a run goes to no place that the run reads. -/
structure ReportElsewhere (fs : FileSystem) (a : Arguments) (c : Config) (k : Campaign) : Prop where
  config : ∀ l n, fs.find (a.configFile.getD usualConfigFile) = .ok (l, n) → fs.target (pathOf c a) ≠ l
  state : ∀ l n, fs.find k.stateFile = .ok (l, n) → fs.target (pathOf c a) ≠ l
  metadata : ∀ m n name, fs.find k.metadata = .ok (m, n) → fs.target (pathOf c a) ≠ name :: m

/-- Whether, moreover, a run without a configuration file does not lead its report through the place
where the next run looks for one. -/
structure ReportApart (fs : FileSystem) (a : Arguments) (c : Config) (k : Campaign) : Prop
    extends ReportElsewhere fs a c k where
  usual : a.configFile = none → ¬fs.pathExists usualConfigFile →
    usualConfigFile :: fs.working ∉ fs.way (pathOf c a)

namespace ReportApart

variable {a : Arguments} {c : Config} {k : Campaign} {r : Report}

/-- The run after such a run has its configuration. -/
theorem config_eq (h : ReportApart fs a c k) (halters : fs.AltersWay fs' (pathOf c a))
    (htree : fs.IsTree) (hc : CommandLine.config fs a.configFile = .ok c) :
    CommandLine.config fs' a.configFile = .ok c := by
  have hload : ∀ path, a.configFile.getD usualConfigFile = path → Config.load fs path = .ok c →
      Config.load fs' path = .ok c := by
    rintro path rfl hload
    obtain ⟨l, n, hfind⟩ := exists_find_of_load hload
    have hagain := halters.find_of_found hfind (.inr (h.config l n hfind))
    rw [load_congr (hagain.trans hfind.symm), hload]
  cases hfile : a.configFile with
  | some path =>
    rw [hfile] at hc
    exact hload path (by rw [hfile]; rfl) hc
  | none =>
    rw [hfile, CommandLine.config] at hc
    rw [CommandLine.config]
    split at hc
    · next hexists =>
      obtain ⟨l, n, hfind⟩ := pathExists_iff.mp hexists
      have hname : a.configFile.getD usualConfigFile = usualConfigFile := by rw [hfile]; rfl
      have hagain := halters.find_of_found hfind (.inr (h.config l n (by rwa [hname])))
      rw [if_pos (pathExists_iff.mpr ⟨l, n, hagain⟩)]
      exact hload usualConfigFile hname hc
    · next hnone =>
      rw [if_neg (mt (halters.pathExists_usualConfigFile htree (h.usual hfile hnone)) hnone), hc]

/-- It finds the same record files. -/
theorem recordFiles_eq (h : ReportApart fs a c k) (halters : fs.AltersWay fs' (pathOf c a))
    {m : Location} {n : Node} (hfind : fs.find k.metadata = .ok (m, n)) (hn : n.isDirectory) :
    k.recordFiles fs' = k.recordFiles fs := by
  have hagain := halters.find_of_found hfind (.inl hn)
  refine eq_of_pairwise_of_mem_iff (fun _ _ => String.lt_asymm) (Campaign.recordFiles_pairwise fs' k)
    (Campaign.recordFiles_pairwise fs k) fun f => ?_
  rw [Campaign.mem_recordFiles_of_find hagain hn, Campaign.mem_recordFiles_of_find hfind hn,
    halters.node?_eq_file_iff (h.metadata m n f.1 hfind)]

/-- It gets the same report. -/
theorem report_eq (h : ReportApart fs a c k) (halters : fs.AltersWay fs' (pathOf c a))
    (hk : Campaign.locate fs a.dataDirectory c.places = .ok k)
    (hr : Campaign.report fs a.dataDirectory c.places = .ok r) :
    Campaign.report fs' a.dataDirectory c.places = .ok r := by
  obtain ⟨k', g, hk', hg, hreport⟩ := Campaign.report_eq_ok_iff.mp hr
  obtain rfl := Except.ok.inj (hk'.symm.trans hk)
  -- the root is a directory, the state file a file, and the metadata directory a directory again
  obtain ⟨_, _, hroot, hrootDir⟩ := isDirectory_iff.mp (Campaign.locate_eq_ok_iff.mp hk).1
  have hk' := (Campaign.locate_congr
    ((halters.find_of_found hroot (.inl hrootDir)).trans hroot.symm)).trans hk
  obtain ⟨l, _, -, hstate, -⟩ := Campaign.exists_globalState_iff.mp ⟨g, hg⟩
  have hg' := (Campaign.globalState_congr
    ((halters.find_of_found hstate (.inr (h.state l _ hstate))).trans hstate.symm)).trans hg
  obtain ⟨m, n, hmetadata, hn⟩ := isDirectory_iff.mp (isDirectory_of_reportOn hreport)
  have hloaded : k'.candidates fs' = k'.candidates fs := by
    rw [Campaign.candidates_of_find (halters.find_of_found hmetadata (.inl hn)) hn,
      Campaign.candidates_of_find hmetadata hn, h.recordFiles_eq halters hmetadata hn]
  exact Campaign.report_eq_ok_iff.mpr ⟨k', g, hk', hg', hloaded ▸ hreport⟩

end ReportApart

/-- A run that succeeds and whose report goes to no place that it reads does the same again: it ends with
the same status and the same texts, and changes nothing. -/
theorem run_again {arguments : List String} (htree : fs.IsTree) (hstatus : (run fs arguments).status = 0)
    (hapart : ∀ a c k, Arguments.parse arguments = .run a → config fs a.configFile = .ok c →
      Campaign.locate fs a.dataDirectory c.places = .ok k → ReportApart fs a c k) :
    run (run fs arguments).files arguments = run fs arguments := by
  cases ha : Arguments.parse arguments with
  | misuse => simp [run, ha] at hstatus
  | version => simp only [run, ha]
  | help => simp only [run, ha]
  | run a =>
    have hrun : ∀ fs', run fs' arguments = runArguments fs' a := fun fs' => by rw [run, ha]
    simp only [hrun] at hstatus ⊢
    obtain ⟨c, r, hc, hr, hsave⟩ := exists_of_status_eq_zero hstatus
    obtain ⟨k, g, hk, -⟩ := Campaign.report_eq_ok_iff.mp hr
    have h := hapart a c k ha hc hk
    have halters := altersWay_of_save hsave
    have hfirst := (runArguments_eq_publish hc hr).trans (publish_of_ok hsave)
    have hagain := save_again hsave
    have hfiles : (runArguments fs a).files
        = (save fs (pathOf c a) (r.text (outputOf c a).layout)).1 := by rw [hfirst]; rfl
    rw [hfiles, runArguments_eq_publish (h.config_eq halters htree hc) (h.report_eq halters hk hr),
      publish_of_ok (by rw [← pathOf, hagain]; exact hsave), hfirst, ← pathOf, hagain]

/-- What a run on the campaign `nested` reads, when it has no configuration file. -/
theorem reportElsewhere_nested {a : Arguments} (ha : a.configFile = none)
    (hstate : nested.target (pathOf .usual a) ≠ ["global_state.json", "state", "camp"])
    (hmetadata : ∀ name, nested.target (pathOf .usual a) ≠ [name, "metadata", "camp"]) :
    ReportElsewhere nested a .usual
      ⟨"camp", "camp/metadata", "camp/state/global_state.json", ".json"⟩ := by
  refine ⟨fun l n h => ?_, fun l n h => ?_, fun m n name h => ?_⟩
  · rw [ha] at h
    cases h
  · obtain rfl : ["global_state.json", "state", "camp"] = l := congrArg Prod.fst (Except.ok.inj h)
    exact hstate
  · obtain rfl : ["metadata", "camp"] = m := congrArg Prod.fst (Except.ok.inj h)
    exact hmetadata name

/-- Arguments for a report in a new directory among the records. -/
def aside : List String := ["-d", "camp", "-o", "metadata/new/report.json"]

theorem run_nested_again :
    nested.IsTree ∧ (run nested aside).status = 0 ∧
      (run nested aside).files.node? ["new", "metadata", "camp"] = some .directory ∧
      run (run nested aside).files aside = run nested aside := by
  have hparse : Arguments.parse aside
      = .run ⟨"camp", none, some "metadata/new/report.json", false⟩ := rfl
  refine ⟨by decide, rfl, rfl, run_again (by decide) rfl fun a c k ha hc hk => ?_⟩
  obtain rfl := Request.run.inj (hparse.symm.trans ha)
  obtain rfl : Config.usual = c := Except.ok.inj hc
  obtain rfl : (⟨"camp", "camp/metadata", "camp/state/global_state.json", ".json"⟩ : Campaign) = k :=
    Except.ok.inj hk
  have htarget : nested.target (pathOf .usual ⟨"camp", none, some "metadata/new/report.json", false⟩)
      = ["report.json", "new", "metadata", "camp"] := rfl
  refine ⟨reportElsewhere_nested rfl ?_ fun name => ?_, fun _ _ => by decide⟩
  · rw [htarget]
    decide
  · rw [htarget]
    simp

/-- Arguments for a report in the campaign's directory that make another directory on the way. -/
def crossing : List String := ["-d", "camp", "-o", "../seedstat.toml/../camp/report.json"]

def crossingArguments : Arguments := ⟨"camp", none, some "../seedstat.toml/../camp/report.json", false⟩

/-- The next run takes that directory for its configuration file, and fails. -/
theorem run_crossing_refused :
    nested.IsTree ∧ Arguments.parse crossing = .run crossingArguments ∧
      config nested none = .ok .usual ∧ ¬nested.pathExists usualConfigFile ∧
      Campaign.locate nested "camp" Places.usual
        = .ok ⟨"camp", "camp/metadata", "camp/state/global_state.json", ".json"⟩ ∧
      ReportElsewhere nested crossingArguments .usual
        ⟨"camp", "camp/metadata", "camp/state/global_state.json", ".json"⟩ ∧
      ¬(usualConfigFile :: nested.working) <:+ nested.target (pathOf .usual crossingArguments) ∧
      (run nested crossing).status = 0 ∧ (run (run nested crossing).files crossing).status = 1 := by
  have htarget : nested.target (pathOf .usual crossingArguments) = ["report.json", "camp"] := rfl
  refine ⟨by decide, rfl, rfl, by decide, rfl, reportElsewhere_nested rfl ?_ fun name => ?_, ?_, rfl, rfl⟩
  · rw [htarget]
    decide
  · rw [htarget]
    simp
  · rw [htarget]
    decide

end CommandLine

end FuzzCampaign
