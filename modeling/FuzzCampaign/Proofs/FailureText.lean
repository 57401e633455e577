import FuzzCampaign.Failure
import FuzzCampaign.Proofs.QuotedText

/-!
What the message of a failure says. It starts with words that no other kind of failure has, and a path in
it is quoted, so neither a path nor a reason can imitate another message. Main statement: failures with the
same message are the same.
-/

namespace FuzzCampaign.Failure

/-- The words that the message of a failure starts with. -/
def words : Failure → String
  | directoryNotFound _ => "Campaign directory not found: "
  | globalStateMissing _ _ => "Global state unavailable at "
  | noRecordsFound _ => "No usable seed records found under "
  | config _ => "Configuration error: "
  | io _ => "I/O error: "

/-- What the message of a failure says behind its words. -/
def particulars : Failure → String
  | directoryNotFound path => Text.quoted path
  | globalStateMissing path reason => Text.quoted path ++ (": " ++ reason)
  | noRecordsFound path => Text.quoted path
  | config reason => reason
  | io reason => reason

theorem message_eq (f : Failure) : f.message = f.words ++ f.particulars := by
  cases f with
  | globalStateMissing path reason =>
    have hmessage : (globalStateMissing path reason).message
        = "Global state unavailable at " ++ Text.quoted path ++ ": " ++ reason := rfl
    rw [hmessage, String.append_assoc, String.append_assoc]
    rfl
  | directoryNotFound path => rfl
  | noRecordsFound path => rfl
  | config reason => rfl
  | io reason => rfl

/-- The first two letters of the words tell the kinds of failures apart. -/
def letters (f : Failure) : List Char := f.words.toList.take 2

theorem take_message (f : Failure) : f.message.toList.take 2 = f.letters := by
  have hlength : 2 ≤ f.words.toList.length := by cases f <;> simp [words]
  rw [message_eq, String.toList_append, List.take_append_of_le_length hlength, letters]

/-- A message says which failure it is of, with its path and its reason. -/
theorem message_eq_iff (f g : Failure) : f.message = g.message ↔ f = g := by
  constructor
  · intro h
    have hletters : f.letters = g.letters := by rw [← take_message, h, take_message]
    rw [message_eq, message_eq] at h
    cases f <;> cases g
    case directoryNotFound.directoryNotFound p q =>
      have hpath := (String.append_right_inj _).mp h
      rw [Text.quoted_injective hpath]
    case globalStateMissing.globalStateMissing p r q s =>
      have hrest := (String.append_right_inj _).mp h
      obtain ⟨rfl, hreason⟩ := Text.quoted_append_inj hrest
      rw [(String.append_right_inj _).mp hreason]
    case noRecordsFound.noRecordsFound p q =>
      have hpath := (String.append_right_inj _).mp h
      rw [Text.quoted_injective hpath]
    case config.config r s => exact congrArg config ((String.append_right_inj _).mp h)
    case io.io r s => exact congrArg io ((String.append_right_inj _).mp h)
    -- failures of different kinds
    all_goals simp [letters, words] at hletters
  · rintro rfl
    rfl

end FuzzCampaign.Failure
