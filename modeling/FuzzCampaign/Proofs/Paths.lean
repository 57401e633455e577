import FuzzCampaign.Path
import FuzzCampaign.Proofs.Lookups

/-!
What paths and their parents lead through. A path is its pieces with slashes between them, and the
parent of a path is written with the first of its pieces. Main statement: all that the ancestors of a
path lead through lies on the way of the path itself.
-/

namespace FuzzCampaign

namespace Path

/-! ### Pieces -/

theorem splitSlashes_ne_nil (cs : List Char) : splitSlashes cs ≠ [] := by
  fun_cases splitSlashes cs <;> simp

theorem splitSlashes_append (cs ds : List Char) :
    splitSlashes (cs ++ '/' :: ds) = splitSlashes cs ++ splitSlashes ds := by
  induction cs with
  | nil => simp [splitSlashes]
  | cons c cs ih =>
    obtain ⟨piece, rest, hcs⟩ := List.exists_cons_of_ne_nil (splitSlashes_ne_nil cs)
    rw [List.cons_append, splitSlashes, splitSlashes, ih, hcs]
    split <;> rfl

/-- Whether a text is one piece. -/
def IsPiece (piece : String) : Prop := '/' ∉ piece.toList

theorem splitSlashes_of_not_mem {cs : List Char} (h : '/' ∉ cs) : splitSlashes cs = [cs] := by
  induction cs with
  | nil => rfl
  | cons c cs ih =>
    rw [List.mem_cons, not_or] at h
    rw [splitSlashes, if_neg (Ne.symm h.1), ih h.2]

theorem pieces_of_isPiece {piece : String} (h : IsPiece piece) : pieces piece = [piece] := by
  rw [pieces, splitSlashes_of_not_mem h, List.map_singleton, String.ofList_toList]

theorem pieces_append (a b : String) : pieces (a ++ "/" ++ b) = pieces a ++ pieces b := by
  have hchars : (a ++ "/" ++ b).toList = a.toList ++ '/' :: b.toList := by simp
  rw [pieces, hchars, splitSlashes_append, List.map_append, pieces, pieces]

theorem not_mem_of_mem_splitSlashes {cs piece : List Char} (h : piece ∈ splitSlashes cs) :
    '/' ∉ piece := by
  induction cs generalizing piece with
  | nil =>
    obtain rfl := List.mem_singleton.mp h
    exact List.not_mem_nil
  | cons c cs ih =>
    obtain ⟨first, rest, hcs⟩ := List.exists_cons_of_ne_nil (splitSlashes_ne_nil cs)
    rw [splitSlashes, hcs] at h
    rw [hcs] at ih
    split at h
    · rcases List.mem_cons.mp h with rfl | h
      · exact List.not_mem_nil
      · exact ih h
    · next hc =>
      rcases List.mem_cons.mp h with rfl | h
      · rw [List.mem_cons, not_or]
        exact ⟨Ne.symm hc, ih List.mem_cons_self⟩
      · exact ih (List.mem_cons_of_mem first h)

theorem subset_of_mem_splitSlashes {cs piece : List Char} (h : piece ∈ splitSlashes cs) :
    piece ⊆ cs := by
  induction cs generalizing piece with
  | nil =>
    obtain rfl := List.mem_singleton.mp h
    exact List.Subset.refl _
  | cons c cs ih =>
    obtain ⟨first, rest, hcs⟩ := List.exists_cons_of_ne_nil (splitSlashes_ne_nil cs)
    rw [splitSlashes, hcs] at h
    rw [hcs] at ih
    split at h
    · rcases List.mem_cons.mp h with rfl | h
      · exact List.nil_subset _
      · exact List.subset_cons_of_subset c (ih h)
    · rcases List.mem_cons.mp h with rfl | h
      · exact List.cons_subset_cons c (ih List.mem_cons_self)
      · exact List.subset_cons_of_subset c (ih (List.mem_cons_of_mem first h))

theorem subset_of_mem_pieces {path piece : String} (h : piece ∈ pieces path) :
    piece.toList ⊆ path.toList := by
  obtain ⟨cs, hcs, rfl⟩ := List.mem_map.mp h
  rw [String.toList_ofList]
  exact subset_of_mem_splitSlashes hcs

theorem isPiece_of_mem_pieces {path piece : String} (h : piece ∈ pieces path) : IsPiece piece := by
  obtain ⟨cs, hcs, rfl⟩ := List.mem_map.mp h
  rw [IsPiece, String.toList_ofList]
  exact not_mem_of_mem_splitSlashes hcs

/-- Pieces are the pieces of the path that they make. -/
theorem pieces_ofPieces {ps : List String} (hne : ps ≠ []) (h : ∀ p ∈ ps, IsPiece p) :
    pieces (ofPieces ps) = ps := by
  induction ps with
  | nil => exact absurd rfl hne
  | cons p rest ih =>
    obtain ⟨hp, hrest⟩ := List.forall_mem_cons.mp h
    cases rest with
    | nil => rw [ofPieces, String.intercalate_singleton, pieces_of_isPiece hp]
    | cons q rest =>
      have hmore := ih (List.cons_ne_nil q rest) hrest
      rw [ofPieces] at hmore
      rw [ofPieces, String.intercalate_cons_cons, pieces_append, pieces_of_isPiece hp, hmore]
      rfl

/-- An absolute path starts with an empty piece and has more. -/
theorem isAbsolute_iff {path : String} :
    isAbsolute path ↔ ∃ rest, rest ≠ [] ∧ pieces path = "" :: rest := by
  have hchars : ∀ cs : List Char, cs.head? = some '/' ↔
      ∃ rest, rest ≠ [] ∧ (splitSlashes cs).map String.ofList = "" :: rest := by
    intro cs
    cases cs with
    | nil => simp [splitSlashes]
    | cons c cs =>
      obtain ⟨piece, rest, hcs⟩ := List.exists_cons_of_ne_nil (splitSlashes_ne_nil cs)
      rw [splitSlashes, hcs]
      by_cases hc : c = '/'
      · simp [hc]
      · simp [hc]
  rw [isAbsolute, beq_iff_eq, hchars, pieces]

/-! ### Paths below others -/

theorem isAbsolute_join {root path : String} (hroot : root ≠ "") (hpath : ¬isAbsolute path) :
    isAbsolute (join root path) = isAbsolute root := by
  obtain ⟨c, cs, hchars⟩ := List.exists_cons_of_ne_nil (mt String.toList_eq_nil_iff.mp hroot)
  rw [join, if_neg hpath]
  split <;> simp [isAbsolute, String.toList_append, hchars]

/-- The pieces of a path below a root come behind those of the root, but for an empty one behind a slash
at its end. -/
theorem exists_pieces_join {root path : String} (hroot : root ≠ "") (hpath : ¬isAbsolute path) :
    ∃ body, pieces (join root path) = body ++ pieces path ∧
      (pieces root = body ∨ pieces root = body ++ [""]) := by
  rw [join, if_neg hpath]
  by_cases hslash : endsInSlash root
  · obtain ⟨front, hfront⟩ := List.getLast?_eq_some_iff.mp (eq_of_beq hslash)
    have hsame : root = String.ofList front ++ "/" ++ "" := by
      simp [← String.toList_inj, hfront]
    have hjoin : root ++ path = String.ofList front ++ "/" ++ path := by
      simp [← String.toList_inj, hfront]
    rw [if_pos (.inr hslash), hjoin, hsame, pieces_append, pieces_append]
    exact ⟨_, rfl, .inr rfl⟩
  · rw [if_neg (by simp [hroot, hslash]), pieces_append]
    exact ⟨_, rfl, .inl rfl⟩

/-! ### Parents -/

/-- How a path starts tells its first piece. -/
theorem lead_cases (path : String) : ∃ piece rest, pieces path = piece :: rest ∧
    ((isAbsolute path ∧ piece = "" ∧ lead path = (.root, rest)) ∨
      (¬isAbsolute path ∧ piece = "." ∧ lead path = (.dot, rest)) ∨
      (¬isAbsolute path ∧ lead path = (.name, piece :: rest))) := by
  obtain ⟨cs, css, hsplit⟩ := List.exists_cons_of_ne_nil (splitSlashes_ne_nil path.toList)
  have hpieces : pieces path = String.ofList cs :: css.map String.ofList := by
    rw [pieces, hsplit, List.map_cons]
  refine ⟨_, _, hpieces, ?_⟩
  rw [lead, hpieces]
  simp only
  by_cases habs : isAbsolute path
  · obtain ⟨rest, -, hrest⟩ := isAbsolute_iff.mp habs
    rw [hpieces] at hrest
    exact .inl ⟨habs, (List.cons.inj hrest).1, if_pos habs⟩
  · rw [if_neg habs]
    split
    · next hdot => exact .inr (.inl ⟨habs, hdot, rfl⟩)
    · exact .inr (.inr ⟨habs, rfl⟩)

/-- A parent is written with the start of its path and the first of its further pieces. -/
theorem exists_of_parent? {path parent : String} (h : parent? path = some parent) (hne : parent ≠ "") :
    ∃ body, body <+: (lead path).2 ∧ parent = ofLead (lead path).1 body := by
  unfold parent? at h
  simp only at h
  split at h
  · next last rest hrest =>
    refine ⟨_, ?_, (Option.some.inj h).symm⟩
    rw [← List.reverse_reverse (lead path).2, List.reverse_prefix]
    have hbehind : rest <:+ (lead path).2.reverse := by
      have hsuffix := List.dropWhile_suffix (l := (lead path).2.reverse) isIdle
      rw [hrest] at hsuffix
      exact (List.suffix_cons last rest).trans hsuffix
    exact (List.dropWhile_suffix isIdle).trans hbehind
  · split at h
    · exact absurd (Option.some.inj h).symm hne
    · cases h
    · cases h

theorem isAbsolute_of_pieces {path piece : String} {rest : List String}
    (h : pieces path = piece :: rest) (hpiece : piece ≠ "") : isAbsolute path = false := by
  rw [Bool.eq_false_iff]
  intro habs
  obtain ⟨others, -, hothers⟩ := isAbsolute_iff.mp habs
  rw [h] at hothers
  exact hpiece (List.cons.inj hothers).1

/-- An empty first piece with others behind it makes any longer path absolute as well. -/
theorem isAbsolute_of_longer {path other : String} (h : pieces other <+: pieces path)
    (habs : isAbsolute other) : isAbsolute path := by
  obtain ⟨more, hmore, hother⟩ := isAbsolute_iff.mp habs
  obtain ⟨rest, hrest⟩ := h
  rw [hother, List.cons_append] at hrest
  exact isAbsolute_iff.mpr ⟨more ++ rest, fun hnil => hmore (List.append_eq_nil_iff.mp hnil).1, hrest.symm⟩

theorem pieces_slash (path : String) : pieces ("/" ++ path) = "" :: pieces path := by
  have happend := pieces_append "" path
  rwa [String.empty_append, show pieces "" = [""] from rfl, List.singleton_append] at happend

/-- What is written from the root, and what from a dot. -/
theorem pieces_ofLead_root {body : List String} (h : ∀ p ∈ body, IsPiece p) :
    pieces (ofLead .root body) = if body = [] then ["", ""] else "" :: body := by
  rw [ofLead, pieces_slash]
  split
  · next hnil =>
    rw [hnil, ofPieces, String.intercalate_nil]
    rfl
  · next hnil => rw [pieces_ofPieces hnil h]

theorem pieces_ofLead_dot {body : List String} (h : ∀ p ∈ body, IsPiece p) :
    pieces (ofLead .dot body) = "." :: body := by
  cases body with
  | nil => rfl
  | cons p rest =>
    have htext : ofLead .dot (p :: rest) = "." ++ "/" ++ ofPieces (p :: rest) := rfl
    rw [htext, pieces_append, pieces_ofPieces (List.cons_ne_nil p rest) h]
    rfl

/-- A parent starts where its path does, and its pieces are the first of the path's, but for the root,
which has an empty piece more. -/
theorem pieces_parent {path parent : String} (h : parent? path = some parent) (hne : parent ≠ "") :
    isAbsolute parent = isAbsolute path ∧
      (pieces parent <+: pieces path ∨ pieces parent = ["", ""] ∧ isAbsolute path) := by
  obtain ⟨body, hbody, hparent⟩ := exists_of_parent? h hne
  obtain ⟨piece, rest, hpieces, hlead⟩ := lead_cases path
  have hmem : ∀ p ∈ piece :: rest, IsPiece p := by
    intro p hp
    exact isPiece_of_mem_pieces (hpieces ▸ hp)
  rcases hlead with ⟨habs, rfl, hlead⟩ | ⟨habs, rfl, hlead⟩ | ⟨habs, hlead⟩
  · rw [hlead] at hbody hparent
    have hroot := pieces_ofLead_root fun p hp => hmem p (List.mem_cons_of_mem "" (hbody.subset hp))
    rw [← hparent] at hroot
    have habs' : isAbsolute parent := by
      rw [hparent, ofLead, isAbsolute]
      simp
    refine ⟨habs'.trans habs.symm, ?_⟩
    split at hroot
    · exact .inr ⟨hroot, habs⟩
    · refine .inl ?_
      rw [hroot, hpieces]
      exact List.cons_prefix_cons.mpr ⟨rfl, hbody⟩
  · rw [hlead] at hbody hparent
    have hdot := pieces_ofLead_dot fun p hp => hmem p (List.mem_cons_of_mem "." (hbody.subset hp))
    rw [← hparent] at hdot
    refine ⟨?_, .inl ?_⟩
    · rw [isAbsolute_of_pieces hdot (by decide), isAbsolute_of_pieces hpieces (by decide)]
    · rw [hdot, hpieces]
      exact List.cons_prefix_cons.mpr ⟨rfl, hbody⟩
  · rw [hlead] at hbody hparent
    obtain ⟨first, others, rfl⟩ := List.exists_cons_of_ne_nil (show body ≠ [] by
      rintro rfl
      exact hne hparent)
    have hname := pieces_ofPieces (List.cons_ne_nil first others) fun p hp => hmem p (hbody.subset hp)
    rw [← show parent = ofPieces (first :: others) from hparent] at hname
    have hprefix : pieces parent <+: pieces path := by
      rw [hname, hpieces]
      exact hbody
    refine ⟨?_, .inl hprefix⟩
    rw [Bool.eq_false_iff.mpr habs, Bool.eq_false_iff]
    exact fun habs' => habs (isAbsolute_of_longer hprefix habs')

end Path

/-! ### Ways -/

namespace FileSystem

variable {fs : FileSystem} {path root name : String} {l : Location}

theorem through_append (l : Location) (ps qs : List String) :
    through l (ps ++ qs) = (through l ps).dropLast ++ through (ps.foldl move l) qs := by
  induction ps generalizing l with
  | nil => rfl
  | cons p ps ih =>
    obtain ⟨k, ks, hks⟩ : ∃ k ks, through (move l p) ps = k :: ks := by
      cases ps <;> exact ⟨_, _, rfl⟩
    rw [List.cons_append, through, ih, through, List.foldl_cons, hks, List.dropLast_cons_cons,
      List.cons_append]

theorem foldl_move_mem_through (l : Location) (ps : List String) : ps.foldl move l ∈ through l ps := by
  have happend := through_append l ps []
  rw [List.append_nil] at happend
  rw [happend]
  exact List.mem_append_right _ (mem_through_self _ [])

/-- The first pieces of a path lead through the first locations of its way. -/
theorem through_subset_of_prefix {l : Location} {ps qs : List String} (h : ps <+: qs) :
    through l ps ⊆ through l qs := by
  induction ps generalizing l qs with
  | nil => simpa [through] using mem_through_self l qs
  | cons p ps ih =>
    obtain ⟨more, rfl⟩ := h
    rw [List.cons_append, through, through]
    exact List.cons_subset_cons l (ih (List.prefix_append ps more))

theorem way_parent {parent : String} (h : Path.parent? path = some parent) (hne : parent ≠ "") :
    fs.way parent ⊆ fs.way path := by
  obtain ⟨habs, hpieces⟩ := Path.pieces_parent h hne
  have hbase : fs.base parent = fs.base path := by rw [base, base, habs]
  rw [way, way, hbase]
  rcases hpieces with hprefix | ⟨hroot, -⟩
  · exact through_subset_of_prefix hprefix
  · have hidle : ∀ l, move l "" = l := fun _ => rfl
    rw [hroot]
    simpa [through, hidle] using mem_through_self _ _

theorem way_ancestorsUpTo (bound : Nat) {ancestor : String}
    (h : ancestor ∈ Path.ancestorsUpTo bound path) : fs.way ancestor ⊆ fs.way path := by
  induction bound generalizing path with
  | zero => cases h
  | succ bound ih =>
    rw [Path.ancestorsUpTo] at h
    split at h
    · cases h
    · rcases List.mem_cons.mp h with rfl | h
      · exact List.Subset.refl _
      · split at h
        · next parent hparent =>
          have hne : parent ≠ "" := by
            rintro rfl
            cases bound <;> simp [Path.ancestorsUpTo] at h
          exact List.Subset.trans (ih h) (way_parent hparent hne)
        · cases h

/-- What a path lies in lies on its way. -/
theorem way_ancestor {ancestor : String} (h : ancestor ∈ Path.ancestors path) :
    fs.way ancestor ⊆ fs.way path :=
  way_ancestorsUpTo path.length h

/-! ### Names -/

theorem isName_iff : isName name ↔
    ¬Path.isIdle name ∧ name ≠ ".." ∧ isTooLong name = false ∧ Path.IsPiece name ∧
      '\x00' ∉ name.toList := by
  simp only [isName, Bool.and_eq_true, Bool.not_eq_true', bne_iff_ne, List.all_eq_true,
    Path.IsPiece, and_assoc, Bool.not_eq_true]
  refine and_congr_right fun _ => and_congr_right fun _ => and_congr_right fun _ => ?_
  constructor
  · exact fun h => ⟨fun hmem => (h _ hmem).1 rfl, fun hmem => (h _ hmem).2 rfl⟩
  · rintro ⟨hslash, hnul⟩ c hc
    exact ⟨fun heq => hslash (heq ▸ hc), fun heq => hnul (heq ▸ hc)⟩

/-- A name leads to what has it. -/
theorem move_of_isName (h : isName name) (l : Location) : move l name = name :: l := by
  obtain ⟨hidle, hup, -⟩ := isName_iff.mp h
  rw [move, if_neg hidle, if_neg hup]

theorem not_isAbsolute_of_isPiece (h : Path.IsPiece name) : ¬Path.isAbsolute name := by
  intro habs
  exact h (List.mem_of_head? (eq_of_beq habs))

theorem not_idle_of_move {name : String} (h : move l name = name :: l) :
    ¬Path.isIdle name ∧ name ≠ ".." := by
  unfold move at h
  split at h
  · exact absurd h.symm (List.cons_ne_self name l)
  · next hidle =>
    refine ⟨hidle, fun hup => ?_⟩
    rw [if_pos hup] at h
    have hlength := congrArg List.length h
    rw [List.length_tail, List.length_cons] at hlength
    omega

/-! ### Walks in two parts -/

/-- A walk that arrives goes on from there. -/
theorem walk_append {k : Location} {ps : List String} (h : fs.walk l ps = .ok k) (qs : List String) :
    fs.walk l (ps ++ qs) = fs.walk k qs := by
  induction ps generalizing l with
  | nil =>
    obtain rfl := Except.ok.inj h
    rfl
  | cons p ps ih =>
    obtain ⟨⟨n, hn, hdir⟩, hshort, hrest⟩ := walk_cons_iff.mp h
    rw [List.cons_append, walk, hn]
    simp [hdir, hshort, ih hrest]

/-- A walk in two parts. -/
theorem walk_append_iff {k : Location} {ps qs : List String} :
    fs.walk l (ps ++ qs) = .ok k ↔ ∃ j, fs.walk l ps = .ok j ∧ fs.walk j qs = .ok k := by
  induction ps generalizing l with
  | nil =>
    constructor
    · exact fun h => ⟨l, rfl, h⟩
    · rintro ⟨j, hj, h⟩
      obtain rfl := Except.ok.inj hj
      exact h
  | cons p ps ih =>
    rw [List.cons_append, walk_cons_iff, ih]
    constructor
    · rintro ⟨hl, hshort, j, hj, h⟩
      exact ⟨j, walk_cons_iff.mpr ⟨hl, hshort, hj⟩, h⟩
    · rintro ⟨j, hj, h⟩
      obtain ⟨hl, hshort, hj⟩ := walk_cons_iff.mp hj
      exact ⟨hl, hshort, j, hj, h⟩

/-- A relative path below another one can be followed, unless the two are too long together. -/
theorem pathError?_join (hroot : pathError? root = none) (hpath : ¬Path.isAbsolute path)
    (hnul : '\x00' ∉ path.toList) :
    pathError? (Path.join root path) = none ↔ (Path.join root path).utf8ByteSize ≤ longestPath := by
  obtain ⟨hrootNul, hne, -⟩ := pathError?_eq_none_iff.mp hroot
  have hslash : '\x00' ∉ "/".toList := by decide
  rw [pathError?_eq_none_iff, Path.join, if_neg hpath, ← and_assoc]
  refine and_iff_right ?_
  split
  · refine ⟨?_, fun h => hne (String.append_eq_empty_iff.mp h).1⟩
    rw [String.toList_append, List.mem_append, not_or]
    exact ⟨hrootNul, hnul⟩
  · refine ⟨?_, fun h => hne (String.append_eq_empty_iff.mp (String.append_eq_empty_iff.mp h).1).1⟩
    rw [String.toList_append, String.toList_append, List.mem_append, List.mem_append, not_or, not_or]
    exact ⟨⟨hrootNul, hslash⟩, hnul⟩

/-- A relative path below a root is followed from there. -/
theorem resolve_join (hroot : fs.resolve root = .ok l) (hpath : ¬Path.isAbsolute path)
    (herror : pathError? (Path.join root path) = none) :
    fs.resolve (Path.join root path) = fs.walk l (Path.pieces path) := by
  obtain ⟨hrootError, hwalk⟩ := resolve_eq_ok_iff.mp hroot
  have hne : root ≠ "" := by
    rintro rfl
    cases hrootError
  have hbase : fs.base (Path.join root path) = fs.base root := by
    rw [base, base, Path.isAbsolute_join hne hpath]
  obtain ⟨body, hjoin, hbody⟩ := Path.exists_pieces_join hne hpath
  rw [resolve, herror, hbase, hjoin]
  rcases hbody with hbody | hbody
  · exact walk_append (hbody ▸ hwalk) _
  · -- the empty piece leads nowhere else
    rw [hbody] at hwalk
    obtain ⟨k, hk, hlast⟩ := walk_append_iff.mp hwalk
    obtain rfl : k = l := Except.ok.inj (walk_cons_iff.mp hlast).2.2
    exact walk_append hk _

/-! ### Slashes at the end -/

theorem walk_slashes {slashes : Nat} {new : Node} (hnew : fs.node? l = some new)
    (h : slashes = 0 ∨ new.isDirectory) : fs.walk l (List.replicate slashes "") = .ok l := by
  induction slashes with
  | zero => rfl
  | succ slashes ih =>
    have hdir : new.isDirectory := h.resolve_left (Nat.succ_ne_zero slashes)
    rw [List.replicate_succ]
    exact walk_cons_iff.mpr ⟨⟨new, hnew, hdir⟩, rfl, ih (.inr hdir)⟩

end FileSystem

end FuzzCampaign
