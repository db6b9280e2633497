import Offside.Text.Printable

/-
  Quoted text: a text between quotes on one line, with escapes
  for the quote, the backslash and what is not printable.

  Key definitions include:
    * `Offside.Text.hexDigits`
    * `Offside.Text.quoteFor`
    * `Offside.Text.quoted`

  A text is put between single quotes, unless it has single
  quotes and no double quote.
-/

------------------------------------------------------------
-- Fixed-Width Hexadecimal
------------------------------------------------------------

namespace Offside.Text

/- The last `width` digits of a number in lower-case hexadecimal. -/
def hexDigits :
    (width : Nat) →
    Nat →
    List Char
  | 0, _ => []
  | width + 1, n =>
      hexDigits width (n / 16) ++ [Nat.digitChar (n % 16)]

end Offside.Text

------------------------------------------------------------
-- Quoting
------------------------------------------------------------

namespace Offside.Text

/- The quote that a text is put between. -/
def quoteFor
    (text : List Char) :
    Char :=
  if '\'' ∈ text ∧ '"' ∉ text then '"' else '\''

/- How one character is written between two quotes. -/
def escapeQuoted
    (quote c : Char) :
    List Char :=
  if c = quote ∨ c = '\\' then ['\\', c]
  else if c = '\n' then ['\\', 'n']
  else if c = '\r' then ['\\', 'r']
  else if c = '\t' then ['\\', 't']
  else if isPrintable c then [c]
  else if c.toNat < 0x100 then '\\' :: 'x' :: hexDigits 2 c.toNat
  else if c.toNat < 0x10000 then '\\' :: 'u' :: hexDigits 4 c.toNat
  else '\\' :: 'U' :: hexDigits 8 c.toNat

/- The quoted form of a text, as characters. -/
def quotedChars
    (text : List Char) :
    List Char :=
  let quote := quoteFor text
  quote :: text.flatMap (escapeQuoted quote) ++ [quote]

/- The quoted form of a text. -/
def quoted
    (text : String) :
    String :=
  String.ofList (quotedChars text.toList)

end Offside.Text
