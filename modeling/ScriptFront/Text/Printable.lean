import ScriptFront.Text.GraphemeExtend
import ScriptFront.Text.Unassigned

/-!
# ScriptFront.Text.Printable

Which characters **show as themselves** in a quoted text. Left out are the controls, the
separators other than the blank, the formatting characters, the code points without a public
meaning, those that a display is to ignore, and the marks that join the character before them.
The properties are those of Unicode 15.0.
-/

namespace ScriptFront.Text

/-- The general category Cc. -/
def control : CodePoints :=
  [(0x0, 0x1F), (0x7F, 0x9F)]

/-- The general categories Zl, Zp and Zs, without the blank. -/
def separator : CodePoints :=
  [(0xA0, 0xA0), (0x1680, 0x1680), (0x2000, 0x200A), (0x2028, 0x2029), (0x202F, 0x202F),
   (0x205F, 0x205F), (0x3000, 0x3000)]

/-- The general category Cf. -/
def formatting : CodePoints :=
  [(0xAD, 0xAD), (0x600, 0x605), (0x61C, 0x61C), (0x6DD, 0x6DD), (0x70F, 0x70F), (0x890, 0x891),
   (0x8E2, 0x8E2), (0x180E, 0x180E), (0x200B, 0x200F), (0x202A, 0x202E), (0x2060, 0x2064),
   (0x2066, 0x206F), (0xFEFF, 0xFEFF), (0xFFF9, 0xFFFB), (0x110BD, 0x110BD), (0x110CD, 0x110CD),
   (0x13430, 0x1343F), (0x1BCA0, 0x1BCA3), (0x1D173, 0x1D17A), (0xE0001, 0xE0001),
   (0xE0020, 0xE007F)]

/-- The general category Co. -/
def privateUse : CodePoints :=
  [(0xE000, 0xF8FF), (0xF0000, 0xFFFFD), (0x100000, 0x10FFFD)]

/-- The property Default_Ignorable_Code_Point. -/
def defaultIgnorable : CodePoints :=
  [(0xAD, 0xAD), (0x34F, 0x34F), (0x61C, 0x61C), (0x115F, 0x1160), (0x17B4, 0x17B5),
   (0x180B, 0x180F), (0x200B, 0x200F), (0x202A, 0x202E), (0x2060, 0x206F), (0x3164, 0x3164),
   (0xFE00, 0xFE0F), (0xFEFF, 0xFEFF), (0xFFA0, 0xFFA0), (0xFFF0, 0xFFF8), (0x1BCA0, 0x1BCA3),
   (0x1D173, 0x1D17A), (0xE0000, 0xE0FFF)]

/-- Whether a character shows as itself. Nearly every character of a program text lies between
the blank and the tilde, so that range is asked first. -/
def isPrintable (c : Char) : Bool :=
  (' ' ≤ c && c ≤ '~') ||
    !(control.contains c || separator.contains c || formatting.contains c ||
      privateUse.contains c || defaultIgnorable.contains c || graphemeExtend.contains c ||
      unassigned.contains c)

end ScriptFront.Text
