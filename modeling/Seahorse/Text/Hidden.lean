import Seahorse.Text.Blank
import Seahorse.Text.ExtendingMark
import Seahorse.Text.Unassigned

/-!
# Hidden characters

The characters that do not show as themselves when a text is printed, as of Unicode 17.0. Some have
no picture (controls, format characters, private and unassigned code points), some are there to be
ignored, some are drawn on the character before them, and blanks other than the space look like one.
-/

namespace Seahorse.Text

/-- The control characters (general category `Cc`). -/
def controlRanges : List (Nat × Nat) :=
  [(0x0000, 0x001F), (0x007F, 0x009F)]

/-- The format characters (general category `Cf`). -/
def formatRanges : List (Nat × Nat) :=
  [(0x00AD, 0x00AD), (0x0600, 0x0605), (0x061C, 0x061C), (0x06DD, 0x06DD), (0x070F, 0x070F),
   (0x0890, 0x0891), (0x08E2, 0x08E2), (0x180E, 0x180E), (0x200B, 0x200F), (0x202A, 0x202E),
   (0x2060, 0x2064), (0x2066, 0x206F), (0xFEFF, 0xFEFF), (0xFFF9, 0xFFFB), (0x110BD, 0x110BD),
   (0x110CD, 0x110CD), (0x13430, 0x1343F), (0x1BCA0, 0x1BCA3), (0x1D173, 0x1D17A),
   (0xE0001, 0xE0001), (0xE0020, 0xE007F)]

/-- The code points for private use (general category `Co`). -/
def privateRanges : List (Nat × Nat) :=
  [(0xE000, 0xF8FF), (0xF0000, 0xFFFFD), (0x100000, 0x10FFFD)]

/-- The characters that a display without a picture for them leaves out (property
`Default_Ignorable_Code_Point`), among them the fillers of the Korean script. -/
def ignorableRanges : List (Nat × Nat) :=
  [(0x00AD, 0x00AD), (0x034F, 0x034F), (0x061C, 0x061C), (0x115F, 0x1160), (0x17B4, 0x17B5),
   (0x180B, 0x180F), (0x200B, 0x200F), (0x202A, 0x202E), (0x2060, 0x206F), (0x3164, 0x3164),
   (0xFE00, 0xFE0F), (0xFEFF, 0xFEFF), (0xFFA0, 0xFFA0), (0xFFF0, 0xFFF8), (0x1BCA0, 0x1BCA3),
   (0x1D173, 0x1D17A), (0xE0000, 0xE0FFF)]

/-- Whether a character does not show as itself. -/
def isHidden (c : Char) : Bool :=
  (isBlank c && c != ' ') || inRanges controlRanges c || inRanges formatRanges c ||
    inRanges privateRanges c || inRanges ignorableRanges c || isExtendingMark c || isUnassigned c

end Seahorse.Text
