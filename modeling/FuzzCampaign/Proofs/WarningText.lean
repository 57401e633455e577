import FuzzCampaign.Finding
import FuzzCampaign.Proofs.QuotedText

/-!
What can be read back from the texts of findings. A number's text consists of digits, so whatever
stands behind it shows where it ends, and the text says which number it is. Main statements: only the
supersession of an id starts with that id's words, and only a lack of fields starts with its own.
-/

namespace FuzzCampaign

open Seed

theorem isDigit_of_mem_natText {n : Nat} {c : Char} (h : c ∈ (natText n).toList) : c.isDigit := by
  rw [natText, String.toList_ofList] at h
  exact Nat.isDigit_of_mem_toDigits (by decide) (by decide) h

theorem natText_injective {m n : Nat} (h : (natText m).toList = (natText n).toList) : m = n := by
  rw [natText, natText, String.toList_ofList, String.toList_ofList] at h
  have hvalue := congrArg (fun ds => Nat.ofDigitChars 10 ds 0) h
  simpa using hvalue

namespace Finding

/-- How the text of a supersession of an id starts. -/
def supersededWords (id : Nat) : String := "id " ++ natText id ++ " superseded by "

/-- How the text of a lack of required fields starts. -/
def incompleteWords : String := "missing required field(s): "

/-! ### The warnings of findings on single candidates -/

theorem natText_fullCoverage : natText fullCoverage = "10000" := by decide

theorem warning_incomplete (source : String) (missing : List RequiredField) :
    (incomplete source missing).warning = ⟨.invalidRecord, some source,
      incompleteWords ++ String.intercalate ", " (missing.map RequiredField.name)⟩ := rfl

theorem warning_aboveFull (source : String) (id : Nat) (share : Share) (value : Nat) :
    (aboveFull source id share value).warning = ⟨.invalidRecord, some source,
      "id " ++ (natText id ++ ": " ++ share.name ++ " = " ++ natText value
        ++ " exceeds 10000 basis points")⟩ := by
  have hdetail : (aboveFull source id share value).detail
      = "id " ++ natText id ++ ": " ++ share.name ++ " = " ++ natText value ++ " exceeds "
        ++ natText fullCoverage ++ " basis points" := rfl
  rw [warning, hdetail, natText_fullCoverage]
  simp only [kind, source?, String.append_assoc, String.reduceAppend]

theorem warning_incrementMismatch (source : String) (id increment difference : Nat) :
    (incrementMismatch source id increment difference).warning = ⟨.incrementMismatch, some source,
      "id " ++ natText id ++ ": cov_incr = " ++ natText increment
        ++ " but new_cov - old_cov = " ++ natText difference⟩ := rfl

theorem warning_superseded (source : String) (id : Nat) (winner : String) :
    (superseded source id winner).warning
      = ⟨.duplicateId, some source, supersededWords id ++ winner⟩ := rfl

theorem warning_regression (source : String) (earlierId earlierCoverage id coverage : Nat) :
    (regression source earlierId earlierCoverage id coverage).warning
      = ⟨.coverageRegression, some source, "coverage fell from " ++ natText earlierCoverage
        ++ " bp at id " ++ natText earlierId ++ " to " ++ natText coverage ++ " bp at id "
        ++ natText id⟩ := rfl

/-- A supersession starts with the words of its own id and of no other one. -/
theorem startsWith_supersededWords_iff {j k : Nat} {winner : String} :
    (supersededWords j ++ winner).startsWith (supersededWords k) ↔ j = k := by
  rw [String.startsWith_string_iff]
  constructor
  · intro h
    simp only [supersededWords, String.toList_append, List.append_assoc] at h
    have h := (List.prefix_append_right_inj "id ".toList).mp h
    -- the number ends at the blank behind it
    have hblank : ∀ n, ' ' ∉ (natText n).toList :=
      fun n hmem => absurd (isDigit_of_mem_natText hmem) (by decide)
    exact (natText_injective (Text.eq_of_starts (hblank k) (hblank j) h)).symm
  · rintro rfl
    rw [String.toList_append]
    exact List.prefix_append _ _

/-- A text that starts with an id does not say that fields are missing. -/
theorem not_startsWith_incompleteWords (rest : String) :
    ("id " ++ rest).startsWith incompleteWords = false := by
  rw [String.startsWith_string_eq_false_iff, String.toList_append]
  intro h
  have hhead : 'm' = 'i' := (List.cons_prefix_cons.mp h).1
  exact absurd hhead (by decide)

end Finding

end FuzzCampaign
