import Marginalia.Text.CodeSet

/-!
# Blank characters

The characters with the Unicode property `White_Space`, and the byte order mark, which counts
as blank wherever a line is judged by what a reader sees of it.
-/

namespace Marginalia

namespace CodeSet

/-- The characters with the Unicode property `White_Space`. -/
def whiteSpace : CodeSet where
  bounds :=
    [0x9, 0xe, 0x20, 0x21, 0x85, 0x86, 0xa0, 0xa1, 0x1680, 0x1681, 0x2000, 0x200b, 0x2028, 0x202a,
     0x202f, 0x2030, 0x205f, 0x2060, 0x3000, 0x3001]

end CodeSet

/-- Whether a character is white space. -/
def isSpace (c : Char) : Bool :=
  CodeSet.whiteSpace.contains c

/-- The byte order mark. -/
def byteOrderMark : Char := '\ufeff'

/-- Whether a character is invisible at the edge of a line: white space or a byte order mark. -/
def isBlankChar (c : Char) : Bool :=
  isSpace c || c == byteOrderMark

end Marginalia
