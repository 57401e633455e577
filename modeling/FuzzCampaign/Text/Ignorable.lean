import FuzzCampaign.Text.Ranges

/-!
Characters that are ignored where a text is displayed, the fillers that stand for an absent letter
among them: the property Default_Ignorable_Code_Point of Unicode 17. None of them is below 128.
-/

namespace FuzzCampaign.Text

/-- The code points that a display ignores. -/
def ignorableRanges : Ranges :=
  [(0xad, 0xad), (0x34f, 0x34f), (0x61c, 0x61c), (0x115f, 0x1160), (0x17b4, 0x17b5),
    (0x180b, 0x180f), (0x200b, 0x200f), (0x202a, 0x202e), (0x2060, 0x206f), (0x3164, 0x3164),
    (0xfe00, 0xfe0f), (0xfeff, 0xfeff), (0xffa0, 0xffa0), (0xfff0, 0xfff8), (0x1bca0, 0x1bca3),
    (0x1d173, 0x1d17a), (0xe0000, 0xe0fff)]

theorem isAscending_ignorableRanges : ignorableRanges.isAscending 0x80 := by decide +kernel

/-- Whether a display ignores a character. -/
def isIgnorable (c : Char) : Bool := ignorableRanges.contains c.toNat

end FuzzCampaign.Text
