import FuzzCampaign.Proofs.NearestValue
import FuzzCampaign.Proofs.SeriesChecks
import FuzzCampaign.Proofs.ShownWarnings

/-!
Percentages with two places. Basis points are rounded twice on their way to a percentage, and a third
time when it is written with two places. Below `100 * 2 ^ 46` basis points the first rounding changes
nothing, and the values around the percentage lie on a grid of `2 ^ -7` or a finer one, so the second
rounding errs by less than half of a hundredth, and the third one brings the basis points back. Main
statement: what is shown of a share of coverage is the share that was recorded, different shares are
shown differently, and a greater share is never published as a smaller percentage.
-/

namespace FuzzCampaign

open Seed

/-- The number that a magnitude with a sign stands for. -/
def Signed.value (x : Signed) : ℚ := if x.isNegative then -x.magnitude.value else x.magnitude.value

namespace Percent

/-- Below this number of basis points a percentage with two places is exact. -/
def exactBound : Nat := 100 * Nat.pow 2 46

/-- Basis points as a percentage, digit by digit. -/
def exactText (bp : Nat) : String :=
  String.ofList (Nat.toDigits 10 (bp / 100)
    ++ ['.', Nat.digitChar (bp % 100 / 10), Nat.digitChar (bp % 100 % 10)])

/-- Whether a percentage comes from basis points by two roundings: they are rounded to 53 bits, and so
is the hundredth part of the result. -/
def IsRounded (bp : Nat) (p : Percent) : Prop :=
  ∃ count share, Binary64.IsNearest bp count ∧ Binary64.IsNearest (count.value / 100) share ∧
    p = .ofMagnitude share

/-! ### Two roundings -/

variable {a b bp : Nat} {p q : Percent}

theorem value_ofMagnitude (x : Binary64) : (Signed.ofMagnitude x).value = x.value := rfl

theorem fits_ofNat {n : Nat} (h : n < 2 ^ 53) : Binary64.Fits ⟨n, 0⟩ :=
  ⟨h, show Binary64.leastExponent ≤ 0 by decide⟩

/-- A number of no more than 53 bits is not rounded. -/
theorem value_eq_of_isNearest {n : Nat} {x : Binary64} (hx : Binary64.IsNearest n x) (h : n < 2 ^ 53) :
    x.value = n := by
  have hvalue : Binary64.value ⟨n, 0⟩ = n := by simp [Binary64.value]
  rw [← hvalue] at hx ⊢
  exact hx.value_eq (fits_ofNat h)

theorem isRounded_ofBasisPoints (bp : Nat) : IsRounded bp (ofBasisPoints bp) := by
  have hhundred : (Binary64.ofNat 100).value = 100 :=
    value_eq_of_isNearest (Binary64.isNearest_ofNat 100) (by decide)
  refine ⟨Binary64.ofNat bp, _, Binary64.isNearest_ofNat bp, ?_, rfl⟩
  have hdiv := Binary64.isNearest_div (Binary64.ofNat bp) (y := Binary64.ofNat 100)
    (by rw [hhundred]; norm_num)
  rwa [hhundred] at hdiv

/-- More basis points are never a smaller percentage, whatever is lost by rounding. -/
theorem IsRounded.value_le_value (hp : IsRounded a p) (hq : IsRounded b q) (h : a ≤ b) :
    p.value ≤ q.value := by
  obtain ⟨x, s, hx, hs, rfl⟩ := hp
  obtain ⟨y, t, hy, ht, rfl⟩ := hq
  have hcount : x.value ≤ y.value := hx.value_le_value hy (by exact_mod_cast h)
  exact hs.value_le_value ht (by gcongr)

theorem value_ofBasisPoints_pos (h : 0 < bp) : 0 < (ofBasisPoints bp).value := by
  have hone : 0 < (ofBasisPoints 1).value := by
    have hsignificand : 0 < (ofBasisPoints 1).magnitude.significand := by decide
    exact mul_pos (by exact_mod_cast hsignificand) (by positivity)
  exact hone.trans_le ((isRounded_ofBasisPoints 1).value_le_value (isRounded_ofBasisPoints bp) h)

/-- The percentage of a number of 64 bits is finite. -/
theorem overflows_ofBasisPoints (h : bp < 2 ^ 64) : (ofBasisPoints bp).magnitude.overflows = false := by
  rcases Nat.eq_zero_or_pos bp with rfl | hpos
  · decide
  · have hvalue := value_ofBasisPoints_pos hpos
    obtain ⟨count, share, hcount, hshare, heq⟩ := isRounded_ofBasisPoints bp
    rw [heq] at hvalue ⊢
    refine Binary64.overflows_eq_false hvalue ?_
    have hcount' := hcount.value_le_two_mul (Nat.cast_nonneg bp)
    have hshare' := hshare.value_le_two_mul (div_nonneg count.value_nonneg (by norm_num))
    have hbp : (bp : ℚ) < 2 ^ 64 := by exact_mod_cast h
    calc share.value ≤ 2 ^ 64 := by linarith
      _ ≤ 2 ^ Binary64.greatestExponent := by
        rw [← zpow_natCast]
        exact zpow_le_zpow_right₀ one_le_two (by decide)

theorem cast_exactBound : (exactBound : ℚ) = 100 * 2 ^ 46 := by norm_num [exactBound]

/-- Below the bound every point of the grid of `2 ^ -7` is a value, so the error is at most half of its
width. -/
theorem IsRounded.abs_sub_le (hp : IsRounded bp p) (h : bp < exactBound) :
    |p.value - bp / 100| ≤ 1 / 2 ^ 8 := by
  obtain ⟨count, share, hcount, hshare, rfl⟩ := hp
  have hexact : count.value = bp := value_eq_of_isNearest hcount (h.trans (by decide))
  rw [hexact] at hshare
  obtain ⟨k, hk⟩ : ∃ k : Nat, |(k : ℚ) - bp / 100 * 2 ^ 7| ≤ 1 / 2 := by
    have hround := abs_roundHalfEven_sub_le (bp * 2 ^ 7) (show 0 < 100 by decide)
    push_cast at hround
    rw [mul_div_right_comm] at hround
    exact ⟨_, hround⟩
  have hgrid : (Binary64.carried k (-7)).value = k / 2 ^ 7 := by
    rw [Binary64.value_carried, zpow_neg, div_eq_mul_inv]
    rfl
  have hfits : (Binary64.carried k (-7)).Fits := by
    have hbp : (bp : ℚ) < 100 * 2 ^ 46 := by
      rw [← cast_exactBound]
      exact_mod_cast h
    have hlt : (k : ℚ) < Binary64.significandBound + 1 := by
      rw [Binary64.cast_significandBound]
      linarith [(abs_sub_le_iff.mp hk).1]
    exact Binary64.fits_carried (Nat.lt_succ_iff.mp (by exact_mod_cast hlt)) (by decide)
  calc |share.value - bp / 100| ≤ |(k : ℚ) / 2 ^ 7 - bp / 100| := hgrid ▸ hshare.nearest _ hfits
    _ = |(k : ℚ) - bp / 100 * 2 ^ 7| / 2 ^ 7 := by
        rw [div_sub' (by norm_num), abs_div, abs_of_pos (a := (2 : ℚ) ^ 7) (by norm_num), mul_comm]
    _ ≤ 1 / 2 ^ 8 := by linarith

/-- The percentage is nearer to the basis points than to any other hundredths. -/
theorem IsRounded.abs_sub_lt (hp : IsRounded bp p) (h : bp < exactBound) :
    |(bp : ℚ) - p.value * 100| < 1 / 2 := by
  obtain ⟨hupper, hlower⟩ := abs_sub_le_iff.mp (hp.abs_sub_le h)
  rw [abs_sub_lt_iff]
  constructor
  · linarith
  · linarith

theorem IsRounded.hundredths_eq (hp : IsRounded bp p) (h : bp < exactBound) :
    p.magnitude.hundredths = bp := by
  have hnear := hp.abs_sub_lt h
  obtain ⟨count, share, -, -, rfl⟩ := hp
  have hquotient : share.value * 100 = ((share.ratio.1 * 100 : Nat) : ℚ) / share.ratio.2 := by
    rw [share.value_eq_div, Nat.cast_mul, Nat.cast_ofNat, div_mul_eq_mul_div]
  rw [value_ofMagnitude, hquotient] at hnear
  exact roundHalfEven_eq_of_abs_lt share.ratio_snd_pos hnear

/-! ### Two places -/

theorem natText_of_lt {n : Nat} (h : n < 10) : natText n = String.ofList [Nat.digitChar n] := by
  rw [natText, Nat.toDigits_of_lt_base h]

/-- Below the bound two places show the basis points themselves. -/
theorem IsRounded.twoPlaces_eq (hp : IsRounded bp p) (h : bp < exactBound) :
    p.twoPlaces = exactText bp := by
  have hhundredths := hp.hundredths_eq h
  obtain ⟨count, share, -, -, rfl⟩ := hp
  have hmagnitude : share.hundredths = bp := hhundredths
  have htext : (Signed.ofMagnitude share).twoPlaces = share.twoPlaces := String.empty_append
  have htens : natText (bp % 100 / 10) = String.ofList [Nat.digitChar (bp % 100 / 10)] :=
    natText_of_lt (by omega)
  have hones : natText (bp % 10) = String.ofList [Nat.digitChar (bp % 100 % 10)] := by
    rw [Nat.mod_mod_of_dvd bp (by decide), natText_of_lt (Nat.mod_lt bp (by decide))]
  rw [htext, Binary64.twoPlaces]
  simp only [hmagnitude]
  rw [htens, hones, natText, exactText]
  refine String.toList_injective ?_
  simp

/-- The digits say which basis points they show. -/
theorem exactText_injective (h : exactText a = exactText b) : a = b := by
  have hchars := congrArg String.toList h
  rw [exactText, exactText, String.toList_ofList, String.toList_ofList] at hchars
  obtain ⟨hwhole, hplaces⟩ := List.append_inj' hchars rfl
  have hdiv : a / 100 = b / 100 := natText_injective (by simpa [natText] using hwhole)
  obtain ⟨htens, hones⟩ := List.cons.inj (List.cons.inj hplaces).2
  have htens := Text.digitChar_injective (by omega) (by omega) htens
  have hones := Text.digitChar_injective (by omega) (by omega) (List.cons.inj hones).1
  omega

/-- What a conversion from basis points keeps, whatever it loses by rounding. -/
structure IsExact (convert : Nat → Percent) : Prop where
  rounded : ∀ bp, IsRounded bp (convert bp)
  finite : ∀ bp < 2 ^ 64, (convert bp).magnitude.overflows = false
  near : ∀ bp < exactBound, |(bp : ℚ) - (convert bp).value * 100| < 1 / 2
  shown : ∀ bp < exactBound, (convert bp).twoPlaces = exactText bp
  distinct : ∀ a < exactBound, ∀ b < exactBound,
    (convert a).twoPlaces = (convert b).twoPlaces → a = b
  monotone : ∀ a b, a ≤ b → (convert a).value ≤ (convert b).value

theorem isExact_ofBasisPoints : IsExact ofBasisPoints where
  rounded := isRounded_ofBasisPoints
  finite _ := overflows_ofBasisPoints
  near bp := (isRounded_ofBasisPoints bp).abs_sub_lt
  shown bp := (isRounded_ofBasisPoints bp).twoPlaces_eq
  distinct a ha b hb h := by
    rw [(isRounded_ofBasisPoints a).twoPlaces_eq ha, (isRounded_ofBasisPoints b).twoPlaces_eq hb] at h
    exact exactText_injective h
  monotone a b := (isRounded_ofBasisPoints a).value_le_value (isRounded_ofBasisPoints b)

/-- The bound cannot be raised: the first number above it is shown as its successor. -/
example : (ofBasisPoints (exactBound + 1)).twoPlaces = exactText (exactBound + 2) := by decide

end Percent

/-! ### Shares of a campaign -/

namespace Series

/-- Basis points and, in parentheses, the exact percentage. -/
def exactShare (bp : Nat) : String := natText bp ++ " bp (" ++ Percent.exactText bp ++ "%)"

/-- What is said of a last coverage that is not the total one, with exact percentages. -/
def mismatchText (last : Record) (total : Nat) : String :=
  "final seed coverage " ++ exactShare last.newCoverage ++ " at id " ++ natText last.id
    ++ " differs from global state total_coverage " ++ exactShare total

/-- Whether the series of records say what shares were recorded: the warning on the last coverage gives
both shares exactly, and the percentages never fall unless a warning says so. -/
structure SaysShares (rs : List Record) (g : GlobalState) : Prop where
  mismatch : ∀ w ∈ (derive rs g).warnings, w.kind = .consistencyMismatch →
    ∃ last, rs.getLast? = some last ∧ (last.newCoverage < Percent.exactBound →
      g.totalCoverage < Percent.exactBound → w.detail = mismatchText last g.totalCoverage)
  steady : (∀ w ∈ (derive rs g).warnings, w.kind ≠ .coverageRegression) →
    (derive rs g).coverage.Pairwise fun p q => p.2.value ≤ q.2.value

variable {g : GlobalState} {rs : List Record} {last : Record}

theorem coverageText_eq {bp : Nat} (h : bp < Percent.exactBound) :
    Finding.coverageText bp = exactShare bp := by
  rw [Finding.coverageText, Percent.isExact_ofBasisPoints.shown bp h, exactShare]

theorem detail_totalWarning (hlast : last.newCoverage < Percent.exactBound)
    (htotal : g.totalCoverage < Percent.exactBound) :
    (totalWarning g last).detail = mismatchText last g.totalCoverage := by
  have hdetail : (totalWarning g last).detail = "final seed coverage "
      ++ Finding.coverageText last.newCoverage ++ " at id " ++ natText last.id
      ++ " differs from global state total_coverage " ++ Finding.coverageText g.totalCoverage := rfl
  rw [hdetail, coverageText_eq hlast, coverageText_eq htotal]
  rfl

theorem saysShares (rs : List Record) (g : GlobalState) : SaysShares rs g where
  mismatch := by
    intro w hw hkind
    have hmem : w ∈ (derive rs g).warnings.filter (·.kind = .consistencyMismatch) := by
      simp [hw, hkind]
    rw [filter_mismatch_warnings] at hmem
    obtain ⟨last, hlast, rfl⟩ := List.mem_map.mp hmem
    have hsome := Option.mem_toList.mp (List.mem_filter.mp hlast).1
    exact ⟨last, hsome, detail_totalWarning⟩
  steady := by
    intro hnone
    refine List.pairwise_map.mpr (((no_regression_iff rs g).mp hnone).imp ?_)
    exact Percent.isExact_ofBasisPoints.monotone _ _

theorem finalCoverage_derive (g : GlobalState) (h : rs.getLast? = some last) :
    (derive rs g).finalCoverage = Percent.ofBasisPoints last.newCoverage := by
  simp only [finalCoverage, derive, List.getLast?_map, h, Option.map_some, Option.getD_some]

/-- The warning on the last coverage is the last one of all. -/
theorem exists_warnings_derive (h : rs.getLast? = some last)
    (hne : last.newCoverage ≠ g.totalCoverage) :
    ∃ front, (derive rs g).warnings = front ++ [totalWarning g last] := by
  refine ⟨(recordFindings g none rs).map Finding.warning, ?_⟩
  rw [derive, findings, List.map_append, finalFindings, h]
  simp only [hne, ne_eq, not_false_eq_true, if_true]
  rfl

end Series

namespace CommandLine

/-- Whether a run shows the shares that were recorded: the third and the fourth line of its output have
the last coverage and the total one, and a line of its diagnostics has both of them where they differ. -/
structure ShowsShares (last : Record) (g : GlobalState) (out : Outcome) : Prop where
  output : ∃ lines, out.output = unlines lines ∧
    (last.newCoverage < Percent.exactBound →
      lines[2]? = some ("Final coverage: " ++ Percent.exactText last.newCoverage ++ "%")) ∧
    (g.totalCoverage < Percent.exactBound → lines[3]? =
      some ("Recorded coverage (global state): " ++ Percent.exactText g.totalCoverage ++ "%"))
  diagnostics : last.newCoverage ≠ g.totalCoverage → last.newCoverage < Percent.exactBound →
    g.totalCoverage < Percent.exactBound → ∃ front back, out.diagnostics = unlines (front
      ++ ("Warning: [ConsistencyMismatch] " ++ Series.mismatchText last g.totalCoverage) :: back)

/-- The line that shows the warning on the last coverage. -/
theorem warning_text_total (last : Record) (g : GlobalState) :
    "Warning: " ++ (Series.totalWarning g last).text
      = "Warning: [ConsistencyMismatch] " ++ (Series.totalWarning g last).detail := by
  have htext : (Series.totalWarning g last).text
      = "[ConsistencyMismatch] " ++ (Series.totalWarning g last).detail := rfl
  rw [htext, ← String.append_assoc]
  rfl

theorem unlines_append (l m : List String) : unlines (l ++ m) = unlines l ++ unlines m := by
  rw [unlines, List.map_append, String.join_append]
  rfl

theorem unlines_singleton (s : String) : unlines [s] = line s := by
  rw [unlines, List.map_singleton, String.join_cons, String.join_nil, String.append_empty]

/-- What is shown of a report on some records says what their shares are, whatever follows it. -/
theorem showsShares_of_shown {rs : List Record} {g : GlobalState} {last : Record} {r : Report}
    {earlier : List Warning} {out : Outcome} (later errors : List String)
    (hlast : rs.getLast? = some last)
    (hr : r = Report.assemble rs g (Series.derive rs g) earlier)
    (houtput : out.output = summaryText r ++ unlines later)
    (hdiagnostics : out.diagnostics = warningText r.warnings ++ unlines errors) :
    ShowsShares last g out where
  output := by
    have hshown := Percent.isExact_ofBasisPoints.shown
    refine ⟨summaryLines r ++ later, ?_, ?_, ?_⟩
    · rw [houtput, summaryText, unlines_append]
    · intro hbound
      have hfinal : r.summary.finalCoverage = Percent.ofBasisPoints last.newCoverage := by
        rw [hr]
        exact Series.finalCoverage_derive g hlast
      rw [← hshown _ hbound, ← hfinal]
      rfl
    · intro hbound
      rw [← hshown _ hbound, hr]
      rfl
  diagnostics := by
    intro hne hbound htotal
    obtain ⟨front, hwarnings⟩ := Series.exists_warnings_derive hlast hne
    have hall : r.warnings = (earlier ++ front) ++ [Series.totalWarning g last] := by
      rw [hr, Report.assemble, hwarnings, List.append_assoc]
    refine ⟨(earlier ++ front).map fun w => "Warning: " ++ w.text, errors, ?_⟩
    rw [hdiagnostics, hall, warningText, List.map_append, List.map_singleton, ← unlines_append,
      warning_text_total, Series.detail_totalWarning hbound htotal, List.append_assoc,
      List.singleton_append]

/-- A run on a campaign with a valid record shows the shares of the last one that survived, also where the
report cannot be written. -/
theorem showsShares_runArguments {fs : FileSystem} {a : Arguments} {c : Config} {campaign : Campaign}
    {g : GlobalState} {last : Record} (hc : config fs a.configFile = .ok c)
    (hlocate : Campaign.locate fs a.dataDirectory c.places = .ok campaign)
    (hg : campaign.globalState fs = .ok g)
    (hlast : (validate (campaign.candidates fs).candidates).records.getLast? = some last) :
    ShowsShares last g (runArguments fs a) := by
  have hne : (validate (campaign.candidates fs).candidates).records ≠ [] :=
    List.getLast?_isSome.mp (Option.isSome_of_eq_some hlast)
  obtain ⟨r, hreport⟩ : ∃ r, reportOn campaign.root g (campaign.candidates fs) = .ok r :=
    ⟨_, reportOn_eq_ok_iff.mpr ⟨hne, rfl⟩⟩
  have hassemble := (reportOn_eq_ok_iff.mp hreport).2.symm
  have hr := Campaign.report_eq_ok_iff.mpr ⟨campaign, g, hlocate, hg, hreport⟩
  rw [runArguments_eq_publish hc hr]
  cases hsave : (save fs (reportPath a.dataDirectory (outputOf c a).reportFile)
      (r.text (outputOf c a).layout)).2 with
  | error message =>
    rw [publish_of_error hsave]
    refine showsShares_of_shown [] ["Error: " ++ message] hlast hassemble ?_ ?_
    · exact String.append_empty.symm
    · rw [unlines_singleton, errorText]
  | ok =>
    rw [publish_of_ok hsave]
    refine showsShares_of_shown ["Saved: " ++ reportPath a.dataDirectory (outputOf c a).reportFile] []
      hlast hassemble ?_ ?_
    · rw [unlines_singleton]
    · exact String.append_empty.symm

end CommandLine

/-- Percentages are those of two exact roundings, and whatever the roundings lose is not seen. Two places
show the recorded basis points below the bound, and different ones differently; a series that is not
said to fall does not fall; and what a run shows are the shares that were recorded. -/
theorem shares_shownExactly :
    Percent.IsExact Percent.ofBasisPoints ∧ (∀ rs g, Series.SaysShares rs g) ∧
      ∀ fs arguments a c campaign g last, Arguments.parse arguments = .run a →
        CommandLine.config fs a.configFile = .ok c →
        Campaign.locate fs a.dataDirectory c.places = .ok campaign →
        campaign.globalState fs = .ok g →
        (validate (campaign.candidates fs).candidates).records.getLast? = some last →
        CommandLine.ShowsShares last g (CommandLine.run fs arguments) := by
  refine ⟨Percent.isExact_ofBasisPoints, Series.saysShares, ?_⟩
  intro fs arguments a c campaign g last hparse hc hlocate hg hlast
  rw [CommandLine.run, hparse]
  exact CommandLine.showsShares_runArguments hc hlocate hg hlast

/-- A campaign with the two greatest shares below the bound. -/
def brimming : FileSystem where
  nodes :=
    [(["metadata"], .directory), (["state"], .directory),
      (["global_state.json", "state"], .file (Text.encode
        "\x7b\"last_allocated_id\": 4, \"total_coverage\": 7036874417766399\x7d")),
      (["a.json", "metadata"], .file (Text.encode
        "\x7b\"id\": 4, \"new_cov\": 7036874417766398, \"cov_incr\": 0, \"depth\": 0\x7d"))]
  working := []

theorem run_brimming_shownExactly :
    (∃ lines, (CommandLine.run brimming CommandLine.plain).output = CommandLine.unlines lines ∧
        lines[2]? = some "Final coverage: 70368744177663.98%" ∧
        lines[3]? = some "Recorded coverage (global state): 70368744177663.99%") ∧
      ∃ front back, (CommandLine.run brimming CommandLine.plain).diagnostics = CommandLine.unlines
        (front ++ ("Warning: [ConsistencyMismatch] final seed coverage "
          ++ "7036874417766398 bp (70368744177663.98%) at id 4 differs from global state "
          ++ "total_coverage 7036874417766399 bp (70368744177663.99%)") :: back) := by
  obtain ⟨-, -, hruns⟩ := shares_shownExactly
  have hshows := hruns brimming CommandLine.plain ⟨"/", none, none, false⟩ .usual _ _ _
    rfl rfl rfl rfl rfl
  obtain ⟨lines, houtput, hfinal, hrecorded⟩ := hshows.output
  obtain ⟨front, back, hdiagnostics⟩ := hshows.diagnostics (by decide) (by decide) (by decide)
  exact ⟨⟨lines, houtput, hfinal (by decide), hrecorded (by decide)⟩, front, back, hdiagnostics⟩

end FuzzCampaign
