/-
  White space: the Unicode property `White_Space`, 25 code points.

  Directives and compiler logs are split at this class.  Indentation uses the narrower `isMargin`: a
  line's margin is made of spaces, tabs and line ends only.
-/

namespace ShaderWeave.Text

/-- White space in the sense of Unicode. -/
def isSpace (c : Char) : Bool :=
  let n := c.toNat
  (0x9 ≤ n && n ≤ 0xD) || n == 0x20 || n == 0x85 || n == 0xA0 || n == 0x1680 ||
  (0x2000 ≤ n && n ≤ 0x200A) || n == 0x2028 || n == 0x2029 || n == 0x202F || n == 0x205F ||
  n == 0x3000

/-- The characters a line's margin is made of. -/
def isMargin (c : Char) : Bool := c == ' ' || c == '\t' || c == '\r' || c == '\n'

end ShaderWeave.Text
