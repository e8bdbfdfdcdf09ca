import C0Stack.Text.CodePoints

/-!
# White space

The characters that separate tokens: the Unicode property White_Space. On ASCII these are the space and the controls from
tab to carriage return.
-/

namespace C0Stack.Text

/-- The code points beyond ASCII with the property White_Space. -/
def blankRanges : CodePoints :=
  [(0x85, 0x85), (0xA0, 0xA0), (0x1680, 0x1680), (0x2000, 0x200A), (0x2028, 0x2029), (0x202F, 0x202F),
   (0x205F, 0x205F), (0x3000, 0x3000)]

/-- The character is white space. -/
def isBlank (c : Char) : Bool :=
  if c.val < 128 then c == ' ' || (9 ≤ c.val && c.val ≤ 13) else blankRanges.contains c

end C0Stack.Text
