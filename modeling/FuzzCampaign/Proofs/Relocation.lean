import FuzzCampaign.Proofs.FileAccounting
import FuzzCampaign.Proofs.Outcomes
import FuzzCampaign.Proofs.Saving

/-!
Campaigns in different places. A report is made of the bytes of the state file and of the names and
bytes of the record files; where these lie is only said in failures. A walk that stays below a root
takes the same steps below any other root with the same nodes below it. Main statement: campaigns with
the same state and the same record files get the same report or fail for a like reason, and so do a
campaign and the same one with its root, its metadata directory or its state file moved.
-/

namespace FuzzCampaign

open Seed

/-! ### Places with the same nodes below them -/

namespace FileSystem

/-- Whether paths in two file systems lead to nodes with the same nodes below them, or nowhere for the
same reason. -/
inductive LeadAlike (fs : FileSystem) (path : String) (fs' : FileSystem) (path' : String) : Prop where
  | found {l l' : Location} {n : Node} (here : fs.find path = .ok (l, n))
      (there : fs'.find path' = .ok (l', n))
      (below : ∀ j, fs'.node? (j ++ l') = fs.node? (j ++ l))
  | missing {e : FileError} (here : fs.find path = .error e) (there : fs'.find path' = .error e)

/-- Whether a path that is written below a root leads to nothing outside it on the way. -/
structure StaysBelow (fs : FileSystem) (root path : String) : Prop where
  relative : ¬Path.isAbsolute path
  inside : ∀ l, fs.resolve root = .ok l → ∀ k ∈ through l (Path.pieces path), l <:+ k

variable {fs fs' : FileSystem} {l l' j : Location} {root root' path path' : String}

namespace LeadAlike

theorem read_eq (h : fs.LeadAlike path fs' path') : fs'.read path' = fs.read path := by
  cases h with
  | @found l l' n here there _ =>
    rw [read, read, here, there]
    cases n <;> rfl
  | missing here there => rw [read, read, here, there]

/-- They hold the same regular files under the same names, if they are directories. -/
theorem exists_file_iff (h : fs.LeadAlike path fs' path') {name : String} {bytes : List UInt8} :
    (∃ l n, fs'.find path' = .ok (l, n) ∧ n.isDirectory ∧
        fs'.node? (name :: l) = some (.file bytes)) ↔
      ∃ l n, fs.find path = .ok (l, n) ∧ n.isDirectory ∧
        fs.node? (name :: l) = some (.file bytes) := by
  cases h with
  | @found l l' n here there below =>
    have hnode := below [name]
    simp_all
  | missing here there => simp [here, there]

end LeadAlike

/-! ### Walks below places -/

/-- A step that stays below a place leads to the same place below another one. -/
theorem exists_move_eq {piece : String} (h : l <:+ move (j ++ l) piece)
    (h' : l' <:+ move (j ++ l') piece) :
    ∃ i, move (j ++ l) piece = i ++ l ∧ move (j ++ l') piece = i ++ l' := by
  unfold move at h h' ⊢
  split
  · exact ⟨j, rfl, rfl⟩
  · next hidle =>
    rw [if_neg hidle] at h h'
    split
    · next hup =>
      rw [if_pos hup] at h h'
      cases j with
      | nil =>
        -- a place that lies below the one above it is the root
        have hnil : ∀ k : Location, k <:+ k.tail → k = [] := by
          intro k hk
          cases k with
          | nil => rfl
          | cons a k => exact absurd hk.length_le (by simp)
        rw [hnil l h, hnil l' h']
        exact ⟨[], rfl, rfl⟩
      | cons a j => exact ⟨j, rfl, rfl⟩
    · exact ⟨piece :: j, rfl, rfl⟩

/-- Walks that stay below two places with the same nodes below them end alike. -/
theorem walk_alike (hbelow : ∀ j, fs'.node? (j ++ l') = fs.node? (j ++ l)) {pieces : List String}
    (h : ∀ k ∈ through (j ++ l) pieces, l <:+ k) (h' : ∀ k ∈ through (j ++ l') pieces, l' <:+ k) :
    (∃ e, fs.walk (j ++ l) pieces = .error e ∧ fs'.walk (j ++ l') pieces = .error e) ∨
      ∃ i, fs.walk (j ++ l) pieces = .ok (i ++ l) ∧ fs'.walk (j ++ l') pieces = .ok (i ++ l') := by
  induction pieces generalizing j with
  | nil => exact .inr ⟨j, rfl, rfl⟩
  | cons piece rest ih =>
    have hrest := (List.forall_mem_cons.mp h).2
    have hrest' := (List.forall_mem_cons.mp h').2
    obtain ⟨i, hi, hi'⟩ := exists_move_eq (hrest _ (mem_through_self _ _))
      (hrest' _ (mem_through_self _ _))
    rw [hi] at hrest
    rw [hi'] at hrest'
    rw [walk, walk, hbelow, hi, hi']
    cases fs.node? (j ++ l) with
    | none => exact .inl ⟨_, rfl, rfl⟩
    | some n =>
      simp only
      split
      · exact .inl ⟨_, rfl, rfl⟩
      · split
        · exact .inl ⟨_, rfl, rfl⟩
        · exact ih hrest hrest'

/-- Paths that stay below two roots with the same nodes below them lead alike. -/
theorem LeadAlike.join (hroot : fs.LeadAlike root fs' root') (hdir : fs.isDirectory root)
    (hstays : fs.StaysBelow root path) (hstays' : fs'.StaysBelow root' path)
    (herror : pathError? (Path.join root' path) = pathError? (Path.join root path)) :
    fs.LeadAlike (Path.join root path) fs' (Path.join root' path) := by
  cases hroot with
  | @found l l' n here there below =>
    have hresolve := (find_eq_ok_iff.mp here).1
    have hresolve' := (find_eq_ok_iff.mp there).1
    cases he : pathError? (Path.join root path) with
    | some e => exact .missing (by rw [find, resolve, he]) (by rw [find, resolve, herror, he])
    | none =>
      have hends := walk_alike (j := []) below (hstays.inside l hresolve) (hstays'.inside l' hresolve')
      rw [List.nil_append, List.nil_append, ← resolve_join hresolve hstays.relative he,
        ← resolve_join hresolve' hstays.relative (herror.trans he)] at hends
      rcases hends with ⟨e, hpath, hpath'⟩ | ⟨i, hpath, hpath'⟩
      · exact .missing (by rw [find, hpath]) (by rw [find, hpath'])
      · cases hi : fs.node? (i ++ l) with
        | none =>
          exact .missing (e := .notFound) (by simp only [find, hpath, hi])
            (by simp only [find, hpath', below, hi])
        | some m =>
          refine .found (find_eq_ok_iff.mpr ⟨hpath, hi⟩)
            (find_eq_ok_iff.mpr ⟨hpath', (below i).trans hi⟩) fun j => ?_
          rw [← List.append_assoc, below, List.append_assoc]
  | missing here there =>
    obtain ⟨l, n, hfind, -⟩ := isDirectory_iff.mp hdir
    cases here.symm.trans hfind

end FileSystem

/-! ### Campaigns with the same contents -/

/-- Whether runs end in the same report or for a like reason. -/
inductive EndAlike : Except Failure Report → Except Failure Report → Prop where
  | report (r : Report) : EndAlike (.ok r) (.ok r)
  | globalStateMissing (path path' reason reason' : String) :
    EndAlike (.error (.globalStateMissing path reason)) (.error (.globalStateMissing path' reason'))
  | noRecordsFound (path path' : String) :
    EndAlike (.error (.noRecordsFound path)) (.error (.noRecordsFound path'))

namespace Campaign

/-- Whether a campaign selects a file: it takes the name for that of a record file, and a regular file in
the metadata directory has the name and the bytes. -/
def Selects (fs : FileSystem) (c : Campaign) (name : String) (bytes : List UInt8) : Prop :=
  c.Admits name ∧ ∃ l n, fs.find c.metadata = .ok (l, n) ∧ n.isDirectory ∧
    fs.node? (name :: l) = some (.file bytes)

/-- Whether another campaign takes the same of the regular files in a metadata directory for record
files. -/
def AdmitsAlike (fs : FileSystem) (c c' : Campaign) : Prop :=
  ∀ l n name bytes, fs.find c.metadata = .ok (l, n) → fs.node? (name :: l) = some (.file bytes) →
    (c'.Admits name ↔ c.Admits name)

/-- Whether two campaigns have the same bytes in their state files and select the same record files. -/
structure SameContents (fs : FileSystem) (c : Campaign) (fs' : FileSystem) (c' : Campaign) : Prop where
  state : ∀ bytes, fs.read c.stateFile = .ok bytes ↔ fs'.read c'.stateFile = .ok bytes
  records : ∀ name bytes, c.Selects fs name bytes ↔ c'.Selects fs' name bytes

section

variable {fs fs' : FileSystem} {c c' : Campaign}

theorem SameContents.recordFiles_eq (h : SameContents fs c fs' c') :
    c'.recordFiles fs' = c.recordFiles fs :=
  eq_of_pairwise_of_mem_iff (fun _ _ => String.lt_asymm) (recordFiles_pairwise fs' c')
    (recordFiles_pairwise fs c) fun _ =>
      mem_recordFiles.trans ((h.records _ _).symm.trans mem_recordFiles.symm)

/-- What is said on a global state and the same record files differs at most in the root named. -/
theorem reportOn_endAlike (hfiles : c'.recordFiles fs' = c.recordFiles fs) (g : GlobalState) :
    EndAlike (reportOn c.root g (c.candidates fs)) (reportOn c'.root g (c'.candidates fs')) := by
  have hcandidates : (c'.candidates fs').candidates = (c.candidates fs).candidates := by
    rw [candidates_of_recordFiles, candidates_of_recordFiles, hfiles]
  by_cases hnil : (validate (c.candidates fs).candidates).records = []
  · rw [reportOn_eq_error_iff.mpr ⟨hnil, rfl⟩, reportOn_eq_error_iff.mpr ⟨hcandidates ▸ hnil, rfl⟩]
    exact .noRecordsFound c.root c'.root
  · have hreport : reportOn c.root g (c.candidates fs) = .ok _ := reportOn_eq_ok_iff.mpr ⟨hnil, rfl⟩
    have hreport' : reportOn c'.root g (c'.candidates fs') = .ok _ :=
      reportOn_eq_ok_iff.mpr ⟨hcandidates ▸ hnil, rfl⟩
    have hloaded : c'.candidates fs' = c.candidates fs := by
      rw [candidates_eq, candidates_eq, if_pos (isDirectory_of_reportOn hreport),
        if_pos (isDirectory_of_reportOn hreport'), hfiles]
    rw [hreport, hreport', hloaded]
    exact .report _

/-- Global states of which the same bytes are read are the same, or lacking in both places. -/
theorem globalState_alike
    (h : ∀ bytes, fs.read c.stateFile = .ok bytes ↔ fs'.read c'.stateFile = .ok bytes) :
    (∃ g, c.globalState fs = .ok g ∧ c'.globalState fs' = .ok g) ∨
      ∃ reason reason', c.globalState fs = .error (.globalStateMissing c.stateFile reason) ∧
        c'.globalState fs' = .error (.globalStateMissing c'.stateFile reason') := by
  unfold globalState
  cases hread : fs.read c.stateFile with
  | ok bytes =>
    rw [(h bytes).mp hread]
    simp only
    cases GlobalState.parse bytes with
    | ok g => exact .inl ⟨g, rfl, rfl⟩
    | error fault => exact .inr ⟨_, _, rfl, rfl⟩
  | error e =>
    cases hread' : fs'.read c'.stateFile with
    | ok bytes => cases hread.symm.trans ((h bytes).mpr hread')
    | error e' => exact .inr ⟨_, _, rfl, rfl⟩

/-- Campaigns that lead alike to metadata directories and state files have the same contents, if the
same files are record files. -/
theorem SameContents.of_leadAlike (hmetadata : fs.LeadAlike c.metadata fs' c'.metadata)
    (hstate : fs.LeadAlike c.stateFile fs' c'.stateFile) (hadmits : AdmitsAlike fs c c') :
    SameContents fs c fs' c' where
  state bytes := by rw [hstate.read_eq]
  records name bytes := by
    rw [Selects, Selects, hmetadata.exists_file_iff]
    refine and_congr_left ?_
    rintro ⟨l, n, hfind, -, hnode⟩
    exact (hadmits l n name bytes hfind hnode).symm

variable {root root' : String} {places places' : Places}

theorem SameContents.report_endAlike (hc : locate fs root places = .ok c)
    (hc' : locate fs' root' places' = .ok c') (h : SameContents fs c fs' c') :
    EndAlike (Campaign.report fs root places) (Campaign.report fs' root' places') := by
  rw [report_of_locate hc, report_of_locate hc']
  rcases globalState_alike h.state with ⟨g, hg, hg'⟩ | ⟨reason, reason', hg, hg'⟩
  · rw [hg, hg']
    exact reportOn_endAlike h.recordFiles_eq g
  · rw [hg, hg']
    exact .globalStateMissing _ _ _ _

/-- Between campaigns that lie at roots it makes no difference to a report where they lie. If they have
the same state and select the same record files, their runs end in the same report or for a like reason;
so they do if the metadata directory and the state file were moved with all that is in them, and if the
root was moved with all that is below it and the files' places stay below it or lead alike without it. In
the last two cases no path to a record file may become too long to be followed, or cease to be. -/
theorem report_relocated (hc : locate fs root places = .ok c)
    (hc' : locate fs' root' places' = .ok c') :
    (SameContents fs c fs' c' →
      EndAlike (Campaign.report fs root places) (Campaign.report fs' root' places')) ∧
    (fs.LeadAlike c.metadata fs' c'.metadata → fs.LeadAlike c.stateFile fs' c'.stateFile →
      AdmitsAlike fs c c' →
      EndAlike (Campaign.report fs root places) (Campaign.report fs' root' places')) ∧
    (fs.LeadAlike root fs' root' → places' = places → AdmitsAlike fs c c' →
      (∀ path ∈ [places.metadata, places.stateFile],
        fs.StaysBelow root path ∧ fs'.StaysBelow root' path ∧
          FileSystem.pathError? (Path.join root' path)
            = FileSystem.pathError? (Path.join root path) ∨
        fs.LeadAlike (Path.join root path) fs' (Path.join root' path)) →
      EndAlike (Campaign.report fs root places) (Campaign.report fs' root' places')) := by
  refine ⟨fun h => h.report_endAlike hc hc', fun hmetadata hstate hadmits =>
    (SameContents.of_leadAlike hmetadata hstate hadmits).report_endAlike hc hc', ?_⟩
  rintro hroot rfl hadmits hstay
  obtain ⟨hdir, rfl⟩ := locate_eq_ok_iff.mp hc
  obtain ⟨-, rfl⟩ := locate_eq_ok_iff.mp hc'
  have hlead : ∀ path ∈ [places'.metadata, places'.stateFile],
      fs.LeadAlike (Path.join root path) fs' (Path.join root' path) := by
    intro path hpath
    rcases hstay path hpath with ⟨hbelow, hbelow', herror⟩ | hlead
    · exact hroot.join hdir hbelow hbelow' herror
    · exact hlead
  refine SameContents.report_endAlike hc hc' (.of_leadAlike ?_ ?_ hadmits)
  · exact hlead _ (by simp)
  · exact hlead _ (by simp)

end

/-- The campaign `strays`, moved into a directory. -/
def moved : FileSystem where
  nodes := (["camp"], .directory) :: strays.nodes.map fun e => (e.1 ++ ["camp"], e.2)
  working := []

theorem node?_moved (j : Location) : moved.node? (j ++ ["camp"]) = strays.node? j := by
  cases j with
  | nil => rfl
  | cons a j =>
    refine Option.ext fun n => ?_
    rw [FileSystem.node?_eq_some_iff, List.cons_append, FileSystem.node?_eq_some_iff, moved,
      List.mem_cons, List.mem_map]
    constructor
    · rintro (h | ⟨⟨k, m⟩, hk, h⟩)
      · simp at h
      · obtain ⟨hkey, rfl⟩ := Prod.mk.inj h
        rwa [← List.append_cancel_right (hkey.trans (List.cons_append).symm)]
    · exact fun h => .inr ⟨_, h, rfl⟩

theorem leadAlike_moved {path path' : String} {l : Location} {n : Node}
    (here : strays.find path = .ok (l, n)) (there : moved.find path' = .ok (l ++ ["camp"], n)) :
    strays.LeadAlike path moved path' :=
  .found here there fun j => by rw [← List.append_assoc, node?_moved]

theorem admitsAlike_strays {c c' : Campaign} (h : ∀ e ∈ strays.nodes,
    (c'.Admits (e.1.headD "") ↔ c.Admits (e.1.headD ""))) : AdmitsAlike strays c c' :=
  fun _ _ _ _ _ hnode => h _ (strays.node?_eq_some_iff.mp hnode)

/-- The report is the one on the campaign without the file that is none of its own, with the metadata
directory and the state file named where they were moved to, and with the root named there. -/
theorem report_moved :
    (∃ r, Campaign.report strays "/" Places.usual = .ok r) ∧
    EndAlike (Campaign.report strays "/" Places.usual)
      (Campaign.report (moved.remove "camp/metadata/notes.txt") "camp" Places.usual) ∧
    EndAlike (Campaign.report strays "/" Places.usual)
      (Campaign.report moved "/" ⟨"camp/metadata", "camp/state/global_state.json", "..json"⟩) ∧
    EndAlike (Campaign.report strays "/" Places.usual)
      (Campaign.report moved "camp" Places.usual) := by
  have hc : locate strays "/" Places.usual
      = .ok ⟨"/", "/metadata", "/state/global_state.json", ".json"⟩ := rfl
  have hfewer : locate (moved.remove "camp/metadata/notes.txt") "camp" Places.usual
      = .ok ⟨"camp", "camp/metadata", "camp/state/global_state.json", ".json"⟩ := rfl
  have hplaces : locate moved "/" ⟨"camp/metadata", "camp/state/global_state.json", "..json"⟩
      = .ok ⟨"/", "/camp/metadata", "/camp/state/global_state.json", ".json"⟩ := rfl
  have hroot : locate moved "camp" Places.usual
      = .ok ⟨"camp", "camp/metadata", "camp/state/global_state.json", ".json"⟩ := rfl
  refine ⟨⟨_, rfl⟩, (report_relocated hc hfewer).1 ?_,
    (report_relocated hc hplaces).2.1 ?_ ?_ (admitsAlike_strays (by decide)),
    (report_relocated hc hroot).2.2 ?_ rfl (admitsAlike_strays (by decide)) fun path hpath => ?_⟩
  · have hfiles : recordFiles (moved.remove "camp/metadata/notes.txt")
        ⟨"camp", "camp/metadata", "camp/state/global_state.json", ".json"⟩
          = recordFiles strays ⟨"/", "/metadata", "/state/global_state.json", ".json"⟩ := rfl
    refine ⟨fun bytes => Iff.rfl, fun name bytes => ?_⟩
    exact mem_recordFiles.symm.trans ((by rw [hfiles] : _ ↔ _).trans mem_recordFiles)
  · exact leadAlike_moved (l := ["metadata"]) (n := .directory) rfl rfl
  · exact leadAlike_moved (l := ["global_state.json", "state"]) rfl rfl
  · exact leadAlike_moved (l := []) (n := .directory) rfl rfl
  · have hroots : ∀ l, strays.resolve "/" = .ok l → l = [] := fun l h => (Except.ok.inj h).symm
    have hroots' : ∀ l, moved.resolve "camp" = .ok l → l = ["camp"] :=
      fun l h => (Except.ok.inj h).symm
    rcases List.mem_pair.mp hpath with rfl | rfl
    all_goals
      refine .inl ⟨⟨by decide, fun l h => ?_⟩, ⟨by decide, fun l h => ?_⟩, rfl⟩
      · rw [hroots l h]; decide
      · rw [hroots' l h]; decide

/-- The same files can be record files of a campaign whose root is written in one way and not of the
campaign whose root is written in another. And a state file that does not lie below the root is not found
when the root is moved. -/
theorem report_hidden_and_outside :
    (locate hidden "camp" Places.usual = .ok (placed "camp" Places.usual) ∧
      locate hidden farRoot Places.usual = .ok far ∧
      hidden.read far.stateFile = hidden.read (placed "camp" Places.usual).stateFile ∧
      hidden.find far.metadata = hidden.find (placed "camp" Places.usual).metadata ∧
      far.ending = (placed "camp" Places.usual).ending ∧
      (∃ report, Campaign.report hidden "camp" Places.usual = .ok report) ∧
      Campaign.report hidden farRoot Places.usual = .error (.noRecordsFound farRoot)) ∧
    let places : Places := ⟨"metadata", "../state/global_state.json", "json"⟩
    strays.LeadAlike "/" moved "camp" ∧ (∃ report, Campaign.report strays "/" places = .ok report) ∧
      Campaign.report moved "camp" places = .error
        (.globalStateMissing "camp/../state/global_state.json" FileError.notFound.message) := by
  obtain ⟨hfar, hmetadata, hstate, -⟩ := find_far hidden rfl
  have hread : hidden.read far.stateFile = hidden.read (placed "camp" Places.usual).stateFile := by
    rw [FileSystem.read, FileSystem.read, hstate]
    rfl
  -- the endings are computed one by one, since the roots would be compared otherwise
  have hending : far.ending = ".json" := rfl
  exact ⟨⟨rfl, hfar, hread, hmetadata, hending.trans rfl, ⟨_, rfl⟩, report_hidden⟩,
    leadAlike_moved (l := []) (n := .directory) rfl rfl, ⟨_, rfl⟩, rfl⟩

end Campaign

end FuzzCampaign
