import Offside.Text.Blank
import Offside.Text.Numeric
import Offside.Token.Basic

/-
  Lexemes: how the text ahead is cut into a gap, the characters
  of one token, and the rest.

  Key definitions include:
    * `Offside.Gap.skip`
    * `Offside.Lexeme`
    * `Offside.Lexeme.scan`
    * `Offside.Lexeme.content`

  A gap is white space and comments.  White space at the start
  of a line is an indentation, unless the line has nothing else.
-/

------------------------------------------------------------
-- Gaps
------------------------------------------------------------

namespace Offside

/-
  What stands before the next token: the width of the
  indentation, the characters passed over, and the rest.
-/
structure Gap where
  indent : Nat
  skipped : List Char
  rest : List Char
  deriving DecidableEq, Repr

namespace Gap

/- Puts one more character before the gap. -/
def cons
    (c : Char)
    (gap : Gap) :
    Gap :=
  { gap with skipped := c :: gap.skipped }

/-
  Passes over white space and comments.  Characters count as
  indentation while `lineStart` holds, and a line feed starts
  the count anew.  A comment is passed over only where no
  indentation stands before it; it ends at a line break, and
  only a line feed starts a line after it.
-/
def skip
    (inComment lineStart : Bool)
    (indent : Nat) :
    List Char →
    Gap
  | [] => ⟨indent, [], []⟩
  | c :: cs =>
      if inComment then
        if c = '\n' then (skip false true 0 cs).cons c
        else if c = '\r' then (skip false false 0 cs).cons c
        else (skip true false 0 cs).cons c
      else if Text.isBlank c then
        if c = '\n' then (skip false true 0 cs).cons c
        else
          (skip false lineStart
            (if lineStart then indent + 1 else indent) cs).cons c
      else if indent = 0 ∧ c = '#' then
        (skip true false 0 cs).cons c
      else ⟨indent, [], c :: cs⟩

end Gap

end Offside

------------------------------------------------------------
-- Lexemes
------------------------------------------------------------

namespace Offside

/- The kinds of lexeme. -/
inductive Shape where
  | indent (width : Nat)
  | word
  | number
  | symbol
  | finish
  deriving DecidableEq, Repr

/-
  The next lexeme of a text: the gap before it, its characters
  and the text after it.
-/
structure Lexeme where
  shape : Shape
  gap : List Char
  chars : List Char
  rest : List Char
  deriving DecidableEq, Repr

namespace Lexeme

/- The characters that start a word. -/
def startsWord
    (c : Char) :
    Bool :=
  Text.isLetter c || c = '_'

/- The characters that continue a word. -/
def continuesWord
    (c : Char) :
    Bool :=
  Text.isAlphanumeric c || c = '_'

/- The characters of a number. -/
def isNumeral
    (c : Char) :
    Bool :=
  Text.isDigit c || c = '.'

/- Cuts the next lexeme off a text. -/
def scan
    (lineStart : Bool)
    (text : List Char) :
    Lexeme :=
  let gap := Gap.skip false lineStart 0 text
  if gap.indent ≠ 0 then
    ⟨.indent gap.indent, gap.skipped, [], gap.rest⟩
  else
    match gap.rest with
    | [] => ⟨.finish, gap.skipped, [], []⟩
    | c :: cs =>
        if startsWord c then
          ⟨.word, gap.skipped, c :: cs.takeWhile continuesWord,
            cs.dropWhile continuesWord⟩
        else if isNumeral c then
          ⟨.number, gap.skipped, (c :: cs).takeWhile isNumeral,
            (c :: cs).dropWhile isNumeral⟩
        else ⟨.symbol, gap.skipped, [c], cs⟩

/- How many characters the gap and the lexeme take. -/
def width
    (lexeme : Lexeme) :
    Nat :=
  lexeme.gap.length + lexeme.chars.length

end Lexeme

end Offside

------------------------------------------------------------
-- Kinds and Values
------------------------------------------------------------

namespace Offside

/- A run of digits and dots that is no number. -/
structure MalformedNumber where
  literal : String
  deriving DecidableEq, Repr

namespace MalformedNumber

/- The text of the error. -/
def message
    (e : MalformedNumber) :
    String :=
  "could not convert string to float: " ++ Text.quoted e.literal

end MalformedNumber

namespace Lexeme

/- The kind and value of the token that a lexeme stands for. -/
def content
    (lexeme : Lexeme) :
    Except MalformedNumber (Kind × Value) :=
  let word := String.ofList lexeme.chars
  match lexeme.shape with
  | .indent width => .ok (.indent, .amount (.whole width))
  | .word => .ok (Kind.ofWord word, .text word)
  | .number =>
      match Decimal.ofLiteral? lexeme.chars with
      | some d =>
          .ok (.floatLiteral, .amount (.real (d.toBinary64 false)))
      | none => .error ⟨word⟩
  | .symbol => .ok (.operator, .text word)
  | .finish => .ok (.endOfText, .text "")

end Lexeme

end Offside

------------------------------------------------------------
-- Nothing Is Lost
------------------------------------------------------------

namespace Offside

/- A gap and its rest make up the text. -/
theorem Gap.skipped_append_rest
    (inComment lineStart : Bool)
    (indent : Nat)
    (text : List Char) :
    (Gap.skip inComment lineStart indent text).skipped ++
        (Gap.skip inComment lineStart indent text).rest =
      text := by
  fun_induction Gap.skip <;> simp_all [Gap.cons]

/- Gap, lexeme and rest make up the text. -/
theorem Lexeme.scan_append
    (lineStart : Bool)
    (text : List Char) :
    (Lexeme.scan lineStart text).gap ++
        ((Lexeme.scan lineStart text).chars ++
          (Lexeme.scan lineStart text).rest) =
      text := by
  have hGap := Gap.skipped_append_rest false lineStart 0 text
  unfold Lexeme.scan
  generalize Gap.skip false lineStart 0 text = gap at hGap
  dsimp only
  split
  · simpa using hGap
  · split
    · simp_all
    · split
      · simp_all
      · split <;> simp_all [List.takeWhile_append_dropWhile]

/- An indentation has been passed over. -/
theorem Gap.skipped_ne_nil
    {inComment lineStart : Bool}
    {text : List Char}
    (hIndent : (Gap.skip inComment lineStart 0 text).indent ≠ 0) :
    (Gap.skip inComment lineStart 0 text).skipped ≠ [] := by
  cases text with
  | nil => simp [Gap.skip] at hIndent
  | cons c cs =>
      grind [Gap.skip, Gap.cons]

/- A lexeme that is not the last one takes a character. -/
theorem Lexeme.width_scan_pos
    {lineStart : Bool}
    {text : List Char}
    (hShape : (Lexeme.scan lineStart text).shape ≠ .finish) :
    0 < (Lexeme.scan lineStart text).width := by
  unfold Lexeme.scan at hShape ⊢
  dsimp only at hShape ⊢
  split at hShape
  · rename_i hIndent
    rw [if_pos hIndent]
    have hSkipped := Gap.skipped_ne_nil hIndent
    exact Nat.lt_of_lt_of_le
      (List.length_pos_iff.mpr hSkipped) (Nat.le_add_right _ _)
  · rename_i hIndent
    rw [if_neg hIndent]
    split
    · simp_all
    · split
      · simp only [Lexeme.width, List.length_cons]
        omega
      · split
        · rename_i c cs _ _ hNumeral
          simp only [Lexeme.width, List.takeWhile_cons, hNumeral]
          simp only [ite_true, List.length_cons]
          omega
        · simp [Lexeme.width]

end Offside
