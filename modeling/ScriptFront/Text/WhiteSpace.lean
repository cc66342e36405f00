import ScriptFront.Text.CodePoints

/-!
# ScriptFront.Text.WhiteSpace

The Unicode property **White_Space**: the characters that may stand between tokens, and those
that are cut from the end of a quoted source line.
-/

namespace ScriptFront.Text

/-- The twenty-five code points of the property White_Space. -/
def whiteSpace : CodePoints :=
  [(0x9, 0xD), (0x20, 0x20), (0x85, 0x85), (0xA0, 0xA0), (0x1680, 0x1680), (0x2000, 0x200A),
   (0x2028, 0x2029), (0x202F, 0x202F), (0x205F, 0x205F), (0x3000, 0x3000)]

/-- Whether a character has the property White_Space. -/
def isWhiteSpace (c : Char) : Bool :=
  whiteSpace.contains c

/-- A text without the white space at its end. -/
def trimEnd (cs : List Char) : List Char :=
  (cs.reverse.dropWhile isWhiteSpace).reverse

end ScriptFront.Text
