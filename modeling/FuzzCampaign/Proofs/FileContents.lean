import FuzzCampaign.Proofs.OwnReport

/-!
What depends on what is in files, and what does not. A path is followed through directories, directories
are made where nothing is, and a file is written whatever was in it before, so none of this looks into a
file. Main statements: on file systems that differ in the contents of some files, a report is saved in
the same way and the difference stays where it was, and a campaign that has none of these files among
those that it reads gets the same report.
-/

namespace FuzzCampaign

namespace FileSystem

variable {places : Location → Prop} {fs fs' : FileSystem} {path : String}

/-- Whether two file systems differ at most in what files at certain places hold. -/
structure SameBut (places : Location → Prop) (fs fs' : FileSystem) : Prop where
  working : fs'.working = fs.working
  node?_cases : ∀ k, fs'.node? k = fs.node? k ∨ places k ∧
    ∃ old new, fs.node? k = some (.file old) ∧ fs'.node? k = some (.file new)

namespace SameBut

/-! ### Looking up -/

theorem node?_eq (h : SameBut places fs fs') {k : Location} (hk : ¬places k) :
    fs'.node? k = fs.node? k :=
  (h.node?_cases k).resolve_right fun hplace => hk hplace.1

/-- A step from a location goes wrong in the same way or not at all. -/
theorem walk_eq (h : SameBut places fs fs') (l : Location) (pieces : List String) :
    fs'.walk l pieces = fs.walk l pieces := by
  induction pieces generalizing l with
  | nil => rfl
  | cons piece rest ih =>
    rw [walk, walk]
    rcases h.node?_cases l with heq | ⟨-, old, new, hold, hnew⟩
    · rw [heq, ih]
    · rw [hold, hnew]
      rfl

theorem base_eq (h : SameBut places fs fs') (path : String) : fs'.base path = fs.base path := by
  rw [base, base, h.working]

theorem target_eq (h : SameBut places fs fs') (path : String) : fs'.target path = fs.target path := by
  rw [target, target, h.base_eq]

/-- What a path leads to is the same, or it is a file with other contents. -/
theorem find_cases (h : SameBut places fs fs') (path : String) :
    fs'.find path = fs.find path ∨ ∃ k old new, places k ∧ fs.find path = .ok (k, .file old) ∧
      fs'.find path = .ok (k, .file new) := by
  have hresolve : fs'.resolve path = fs.resolve path := by
    rw [resolve, resolve, h.base_eq, h.walk_eq]
  cases hl : fs.resolve path with
  | error e =>
    refine .inl ?_
    simp only [find, hresolve, hl]
  | ok k =>
    rcases h.node?_cases k with heq | ⟨hk, old, new, hold, hnew⟩
    · refine .inl ?_
      simp only [find, hresolve, hl, heq]
    · exact .inr ⟨k, old, new, hk, find_eq_ok_iff.mpr ⟨hl, hold⟩,
        find_eq_ok_iff.mpr ⟨hresolve.trans hl, hnew⟩⟩

/-- A path that leads to no place of difference leads to the same. -/
theorem find_eq (h : SameBut places fs fs') (hpath : ∀ k n, fs.find path = .ok (k, n) → ¬places k) :
    fs'.find path = fs.find path :=
  (h.find_cases path).resolve_right fun ⟨k, _, _, hk, hfind, _⟩ => hpath k _ hfind hk

theorem isDirectory_eq (h : SameBut places fs fs') (path : String) :
    fs'.isDirectory path = fs.isDirectory path := by
  rw [isDirectory, isDirectory]
  rcases h.find_cases path with heq | ⟨k, old, new, -, hold, hnew⟩
  · rw [heq]
  · rw [hold, hnew]
    rfl

/-! ### Changes -/

theorem entry_eq (h : SameBut places fs fs') (path : String) : fs'.entry path = fs.entry path := by
  rw [entry, entry, h.base_eq]
  rcases pathError? path with - | e
  · rcases (Path.pieces path).reverse.dropWhile (· = "") with - | ⟨last, above⟩
    · rfl
    · simp only [h.walk_eq]
      rcases fs.walk (fs.base path) above.reverse with e | l
      · rfl
      · rcases h.node?_cases l with heq | ⟨-, old, new, hold, hnew⟩
        · simp only [heq]
        · simp only [hold, hnew]
          rfl
  · rfl

theorem isOpen_eq (h : SameBut places fs fs') (l : Location) : fs'.isOpen l = fs.isOpen l := by
  rw [isOpen, isOpen]
  rcases h.node?_cases l with heq | ⟨-, old, new, hold, hnew⟩
  · rw [heq]
  · rw [hold, hnew]
    rfl

/-- The same node put at the same location leaves no difference there. -/
theorem put (h : SameBut places fs fs') (l : Location) (n : Node) :
    SameBut places (fs.put l n) (fs'.put l n) where
  working := by rw [working_put, working_put, h.working]
  node?_cases k := by
    by_cases hl : l.all isName
    · by_cases hk : k = l
      · subst hk
        refine .inl ?_
        cases k with
        | nil => rfl
        | cons name above => rw [node?_put_self fs hl, node?_put_self fs' hl]
      · rw [node?_put_of_ne fs n hk, node?_put_of_ne fs' n hk]
        exact h.node?_cases k
    · rw [put_of_not_named fs hl, put_of_not_named fs' hl]
      exact h.node?_cases k

theorem makeDirectory (h : SameBut places fs fs') (path : String) :
    (∃ e, fs.makeDirectory path = .error e ∧ fs'.makeDirectory path = .error e) ∨
      ∃ fs₁ fs₁', fs.makeDirectory path = .ok fs₁ ∧ fs'.makeDirectory path = .ok fs₁' ∧
        SameBut places fs₁ fs₁' := by
  rw [FileSystem.makeDirectory, FileSystem.makeDirectory, h.entry_eq]
  rcases fs.entry path with e | ⟨l, - | name⟩
  · exact .inl ⟨_, rfl, rfl⟩
  · exact .inl ⟨_, rfl, rfl⟩
  · simp only [h.isOpen_eq]
    by_cases hlong : isTooLong name
    · simp only [if_pos hlong]
      exact .inl ⟨_, rfl, rfl⟩
    · simp only [if_neg hlong]
      rcases h.node?_cases (name :: l) with heq | ⟨-, old, new, hold, hnew⟩
      · rw [heq]
        cases fs.node? (name :: l) with
        | some n => exact .inl ⟨_, rfl, rfl⟩
        | none =>
          by_cases hopen : fs.isOpen l
          · simp only [if_pos hopen]
            exact .inr ⟨_, _, rfl, rfl, h.put _ _⟩
          · simp only [if_neg hopen]
            exact .inl ⟨_, rfl, rfl⟩
      · rw [hold, hnew]
        exact .inl ⟨_, rfl, rfl⟩

theorem makeDirectoriesFor (h : SameBut places fs fs') (paths : List String) :
    (fs'.makeDirectoriesFor paths).2 = (fs.makeDirectoriesFor paths).2 ∧
      SameBut places (fs.makeDirectoriesFor paths).1 (fs'.makeDirectoriesFor paths).1 := by
  induction paths with
  | nil => exact ⟨rfl, h⟩
  | cons path above ih =>
    rw [FileSystem.makeDirectoriesFor, FileSystem.makeDirectoriesFor]
    rcases h.makeDirectory path with ⟨e, he, he'⟩ | ⟨fs₁, fs₁', hmade, hmade', h₁⟩
    · rw [he, he']
      by_cases hmissing : e = .notFound
      · -- the directories above come first, and this one is tried again
        subst hmissing
        obtain ⟨hsame, h₁⟩ := ih
        rcases hfor : fs.makeDirectoriesFor above with ⟨fs₁, r⟩
        rcases hfor' : fs'.makeDirectoriesFor above with ⟨fs₁', r'⟩
        rw [hfor, hfor'] at hsame h₁
        obtain rfl : r' = r := hsame
        cases r' with
        | error e => exact ⟨rfl, h₁⟩
        | ok _ =>
          simp only
          rcases h₁.makeDirectory path with ⟨e, he, he'⟩ | ⟨fs₂, fs₂', hmade, hmade', h₂⟩
          · simp only [he, he', h₁.isDirectory_eq]
            exact ⟨trivial, h₁⟩
          · simp only [hmade, hmade']
            exact ⟨trivial, h₂⟩
      · cases e with
        | notFound => exact absurd rfl hmissing
        | alreadyThere | notDirectory | isDirectory | tooLong | notPath | notText =>
          simp only [h.isDirectory_eq]
          exact ⟨trivial, h⟩
    · rw [hmade, hmade']
      exact ⟨rfl, h₁⟩

/-- A file is written or not whatever was in it, and what was in it is gone. -/
theorem write (h : SameBut places fs fs') (path : String) (bytes : List UInt8) :
    (∃ e, fs.write path bytes = .error e ∧ fs'.write path bytes = .error e) ∨
      ∃ fs₁ fs₁', fs.write path bytes = .ok fs₁ ∧ fs'.write path bytes = .ok fs₁' ∧
        SameBut places fs₁ fs₁' ∧ fs₁'.node? (fs.target path) = fs₁.node? (fs.target path) := by
  rw [FileSystem.write, FileSystem.write, h.entry_eq]
  rcases hentry : fs.entry path with e | ⟨l, - | name⟩
  · exact .inl ⟨_, rfl, rfl⟩
  · exact .inl ⟨_, rfl, rfl⟩
  · obtain ⟨above, slashes, hplace⟩ := exists_entry hentry
    simp only [h.isOpen_eq]
    by_cases hslash : Path.endsInSlash path
    · simp only [if_pos hslash]
      exact .inl ⟨_, rfl, rfl⟩
    · by_cases hlong : isTooLong name
      · simp only [if_neg hslash, if_pos hlong]
        exact .inl ⟨_, rfl, rfl⟩
      · have hnamed := hplace.named (Bool.eq_false_iff.mpr hlong)
        have hput : SameBut places (fs.put (name :: l) (.file bytes))
              (fs'.put (name :: l) (.file bytes)) ∧
            (fs'.put (name :: l) (.file bytes)).node? (fs.target path)
              = (fs.put (name :: l) (.file bytes)).node? (fs.target path) := by
          refine ⟨h.put _ _, ?_⟩
          rw [hplace.target_eq, node?_put_self fs hnamed, node?_put_self fs' hnamed]
        simp only [if_neg hslash, if_neg hlong]
        rcases h.node?_cases (name :: l) with heq | ⟨-, old, new, hold, hnew⟩
        · rw [heq]
          rcases hnode : fs.node? (name :: l) with - | (content | _ | _ | _)
          · by_cases hopen : fs.isOpen l
            · simp only [if_pos hopen]
              exact .inr ⟨_, _, rfl, rfl, hput⟩
            · simp only [if_neg hopen]
              exact .inl ⟨_, rfl, rfl⟩
          · exact .inr ⟨_, _, rfl, rfl, hput⟩
          · exact .inl ⟨_, rfl, rfl⟩
          · exact .inl ⟨_, rfl, rfl⟩
          · exact .inr ⟨_, _, rfl, rfl, h, by rw [hplace.target_eq, heq]⟩
        · rw [hold, hnew]
          exact .inr ⟨_, _, rfl, rfl, hput⟩

end SameBut

end FileSystem

namespace CommandLine

open FileSystem

variable {places : Location → Prop} {fs fs' : FileSystem}

theorem prepare_sameBut (h : SameBut places fs fs') (path : String) :
    (prepare fs' path).2 = (prepare fs path).2 ∧
      SameBut places (prepare fs path).1 (prepare fs' path).1 := by
  unfold prepare
  rcases Path.parent? path with - | parent
  · exact ⟨rfl, h⟩
  · by_cases hempty : parent = ""
    · simp only [if_pos hempty]
      exact ⟨trivial, h⟩
    · simp only [if_neg hempty, makeDirectories]
      obtain ⟨hsame, h₁⟩ := h.makeDirectoriesFor (Path.ancestors parent)
      rcases hmade : fs.makeDirectoriesFor (Path.ancestors parent) with ⟨fs₁, r⟩
      rcases hmade' : fs'.makeDirectoriesFor (Path.ancestors parent) with ⟨fs₁', r'⟩
      rw [hmade, hmade'] at hsame h₁
      obtain rfl : r' = r := hsame
      cases r' with
      | error e => exact ⟨rfl, h₁⟩
      | ok _ => exact ⟨rfl, h₁⟩

/-- Saving a text ends in the same way, and if it was saved there is no difference left where it is. -/
theorem save_sameBut (h : SameBut places fs fs') (path text : String) :
    (save fs' path text).2 = (save fs path text).2 ∧
      SameBut places (save fs path text).1 (save fs' path text).1 ∧
      ((save fs path text).2 = .ok () →
        (save fs' path text).1.node? (fs.target path) = (save fs path text).1.node? (fs.target path)) := by
  obtain ⟨hadds, -⟩ := prepare_spec fs path
  obtain ⟨hsame, h₁⟩ := prepare_sameBut h path
  unfold save
  rcases hprepare : prepare fs path with ⟨fs₁, r⟩
  rcases hprepare' : prepare fs' path with ⟨fs₁', r'⟩
  rw [hprepare] at hadds
  rw [hprepare, hprepare'] at hsame h₁
  obtain rfl : r' = r := hsame
  cases r' with
  | error message => exact ⟨rfl, h₁, fun hok => nomatch hok⟩
  | ok _ =>
    simp only
    rcases h₁.write path (Text.encode text) with ⟨e, he, he'⟩ | ⟨fs₂, fs₂', hwrite, hwrite', h₂, hplace⟩
    · simp only [he, he']
      exact ⟨trivial, h₁, fun hok => nomatch hok⟩
    · simp only [hwrite, hwrite']
      rw [hadds.target_eq] at hplace
      exact ⟨trivial, h₂, fun _ => hplace⟩

end CommandLine

namespace Campaign

open FileSystem

variable {places : Location → Prop} {fs fs' : FileSystem}

/-- Whether a campaign reads nothing at certain places: neither is the state file there nor a record
file. -/
structure ReadsNoneOf (fs : FileSystem) (places : Location → Prop) (c : Campaign) : Prop where
  state : ∀ k n, fs.find c.stateFile = .ok (k, n) → ¬places k
  records : ∀ m n name, fs.find c.metadata = .ok (m, n) → isRecordName c.ending name →
    ¬places (name :: m)

theorem recordFiles_of_sameBut (h : SameBut places fs fs') {c : Campaign}
    (hreads : c.ReadsNoneOf fs places) : c.recordFiles fs' = c.recordFiles fs := by
  refine eq_of_pairwise_of_mem_iff (fun _ _ => String.lt_asymm) (recordFiles_pairwise fs' c)
    (recordFiles_pairwise fs c) ?_
  rintro ⟨name, bytes⟩
  rw [mem_recordFiles, mem_recordFiles]
  refine and_congr_right fun ⟨hname, _⟩ => ?_
  rcases h.find_cases c.metadata with heq | ⟨k, old, new, -, hold, hnew⟩
  · rw [heq]
    constructor
    · rintro ⟨l, n, hfind, hn, hnode⟩
      exact ⟨l, n, hfind, hn, (h.node?_eq (hreads.records l n name hfind hname)).symm.trans hnode⟩
    · rintro ⟨l, n, hfind, hn, hnode⟩
      exact ⟨l, n, hfind, hn, (h.node?_eq (hreads.records l n name hfind hname)).trans hnode⟩
  · -- a file in the place of the metadata directory holds no record files, whatever is in it
    constructor
    · rintro ⟨l, n, hfind, hn, -⟩
      obtain ⟨-, rfl⟩ := Prod.mk.inj (Except.ok.inj (hnew.symm.trans hfind))
      cases hn
    · rintro ⟨l, n, hfind, hn, -⟩
      obtain ⟨-, rfl⟩ := Prod.mk.inj (Except.ok.inj (hold.symm.trans hfind))
      cases hn

/-- The contents of files that a campaign does not read make no difference to its report. -/
theorem report_of_sameBut (h : SameBut places fs fs') {root : String} {ps : Places}
    (hreads : ∀ c, locate fs root ps = .ok c → c.ReadsNoneOf fs places) :
    Campaign.report fs' root ps = Campaign.report fs root ps := by
  have hlocate : locate fs' root ps = locate fs root ps := by
    rw [locate, locate, h.isDirectory_eq]
  rw [Campaign.report, Campaign.report, hlocate]
  cases hc : locate fs root ps with
  | error failure => rfl
  | ok c =>
    have hnone := hreads c hc
    have hstate : c.globalState fs' = c.globalState fs := globalState_congr (h.find_eq hnone.state)
    have hloaded : c.candidates fs' = c.candidates fs := by
      rw [candidates_eq, candidates_eq, h.isDirectory_eq, recordFiles_of_sameBut h hnone]
    simp only [source, hstate, hloaded]

end Campaign

end FuzzCampaign
