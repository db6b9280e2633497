import Offside.Text.Ranges

/-
  White space: the characters that separate tokens and that
  trimming removes.

  Key definitions include:
    * `Offside.Text.isBlank`
    * `Offside.Text.trim`
-/

------------------------------------------------------------
-- White Space
------------------------------------------------------------

namespace Offside.Text

/- The ranges of white space. -/
def blanks : Ranges :=
  [(0x9, 0xd), (0x1c, 0x20), (0x85, 0x85), (0xa0, 0xa0), (0x1680, 0x1680),
    (0x2000, 0x200a), (0x2028, 0x2029), (0x202f, 0x202f), (0x205f, 0x205f),
    (0x3000, 0x3000)]

/- Whether a character is white space. -/
def isBlank
    (c : Char) :
    Bool :=
  blanks.contains c.toNat

/- Removes white space from both ends. -/
def trim
    (text : List Char) :
    List Char :=
  ((text.dropWhile isBlank).reverse.dropWhile isBlank).reverse

end Offside.Text
