import DiceExpr.Text.Ranges

/-!
# Characters that a display may ignore

The characters that leave no trace where they are not supported (the property
Default_Ignorable_Code_Point), such as fillers and variation selectors, of version 17 of the
standard.
-/

namespace DiceExpr.Text

/-- The ranges of characters that a display may ignore. None of them is ASCII. -/
def ignorableRanges : Ranges :=
  [(0xAD, 0xAD), (0x34F, 0x34F), (0x61C, 0x61C), (0x115F, 0x1160), (0x17B4, 0x17B5),
   (0x180B, 0x180F), (0x200B, 0x200F), (0x202A, 0x202E), (0x2060, 0x206F), (0x3164, 0x3164),
   (0xFE00, 0xFE0F), (0xFEFF, 0xFEFF), (0xFFA0, 0xFFA0), (0xFFF0, 0xFFF8), (0x1BCA0, 0x1BCA3),
   (0x1D173, 0x1D17A), (0xE0000, 0xE0FFF)]

def isIgnorable (c : Char) : Bool :=
  decide (0x80 ≤ c.toNat) && ignorableRanges.has c

example : isIgnorable '\u115f' ∧ isIgnorable '\u1160' ∧ isIgnorable '\u3164' ∧
    isIgnorable '\uffa0' ∧ isIgnorable '\ufe0f' := by
  decide +kernel

example : ¬isIgnorable '\u115e' ∧ ¬isIgnorable '\u1161' ∧ ¬isIgnorable '\uffa1' := by
  decide +kernel

end DiceExpr.Text
