/-!
# Blank characters

Two notions of blank occur. A command line is cut at spaces and tabulators only. Whether a line
is worth recording is decided by the `White_Space` property of characters, which also covers line
ends, the no-break space and the typographic spaces; zero-width characters do not have it.
-/

namespace LineShell

/-- Characters that separate the words of a command line. -/
def isSeparator (c : Char) : Bool :=
  c == ' ' || c == '\t'

/-- Characters with the property `White_Space`. -/
def isWhiteSpace (c : Char) : Bool :=
  let n := c.toNat
  (0x09 ≤ n && n ≤ 0x0D) || n == 0x20 || n == 0x85 || n == 0xA0 || n == 0x1680 ||
  (0x2000 ≤ n && n ≤ 0x200A) || n == 0x2028 || n == 0x2029 || n == 0x202F || n == 0x205F ||
  n == 0x3000

/-- Texts without a visible character. -/
def isBlank (text : String) : Bool :=
  text.toList.all isWhiteSpace

end LineShell
