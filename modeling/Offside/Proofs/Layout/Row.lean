import Mathlib
import Offside.Proofs.Token.Piece

/-
  Rows: the lines of a text as pieces at a depth of nesting,
  how they are written, and how they are read.

  Key definitions include:
    * `Offside.Spacing`
    * `Offside.Row`
    * `Offside.Row.write`

  Main statement:
    * `Offside.Reading.rows`: whatever the spacing, written rows
      are read as an indentation for every row that is nested
      and a token for every piece.
-/

------------------------------------------------------------
-- Writing Rows
------------------------------------------------------------

namespace Offside

/-
  How many blanks stand between two pieces.  There is one at
  least where the pieces would run together.
-/
structure Spacing where
  gap : Piece → Piece → Nat
  apart : ∀ p q, p.RunsInto q → gap p q ≠ 0

/- The characters of pieces with the blanks between them. -/
def Spacing.chars
    (spacing : Spacing) :
    List Piece →
    List Char
  | [] => []
  | [p] => p.chars
  | p :: q :: ps =>
      p.chars ++
        (List.replicate (spacing.gap p q) ' ' ++
          spacing.chars (q :: ps))

/- A row: how deep it is nested, and its pieces, one at least. -/
structure Row where
  depth : Nat
  pieces : List Piece
  some : pieces ≠ []

namespace Row

/- The characters of a row, with so many blanks for a level. -/
def chars
    (spacing : Spacing)
    (width : Nat)
    (row : Row) :
    List Char :=
  List.replicate (width * row.depth) ' ' ++
    (spacing.chars row.pieces ++ ['\n'])

/- The text of rows. -/
def write
    (spacing : Spacing)
    (width : Nat)
    (rows : List Row) :
    String :=
  String.ofList (rows.flatMap (chars spacing width))

/- The tokens that a row is read as. -/
def tokens
    (width : Nat)
    (row : Row) :
    List Token :=
  let ts := row.pieces.map Piece.token
  if width * row.depth = 0 then ts
  else Token.indentation (width * row.depth : Nat) :: ts

end Row

end Offside

------------------------------------------------------------
-- Reading Rows
------------------------------------------------------------

namespace Offside.Piece

/- No piece starts with white space. -/
theorem exists_chars_eq
    (p : Piece) :
    ∃ c cs, p.chars = c :: cs ∧ Text.isBlank c = false := by
  cases p with
  | word w =>
      exact ⟨w.first, w.others, rfl,
        Text.isBlank_of_startsWord w.starts⟩
  | number l =>
      rcases List.exists_cons_of_ne_nil l.chars_ne_nil with
        ⟨c, cs, hChars⟩
      have hFirst : c ∈ l.chars := by
        rw [hChars]
        exact List.mem_cons_self
      exact ⟨c, cs, hChars, (Literal.start_of_mem_chars hFirst).1⟩
  | symbol s => exact ⟨s.char, [], rfl, s.notBlank⟩

/- White space continues no piece. -/
theorem continuedBy_gap
    (p : Piece)
    {c : Char}
    (hGap : c = ' ' ∨ c = '\n') :
    p.continuedBy c = false := by
  rcases hGap with rfl | rfl
  all_goals
    cases p with
    | word w => change Lexeme.continuesWord _ = false; decide
    | number l => change Lexeme.isNumeral _ = false; decide
    | symbol s => rfl

/- What stands after a piece does not continue it. -/
theorem continuedBy_spaced
    (spacing : Spacing)
    (p q : Piece)
    {text : List Char} :
    ∀ c ∈ (List.replicate (spacing.gap p q) ' ' ++
        (q.chars ++ text)).head?,
      p.continuedBy c = false := by
  intro c hHead
  by_cases hGap : spacing.gap p q = 0
  · rcases q.exists_chars_eq with ⟨d, ds, hChars, _⟩
    rw [hGap, hChars] at hHead
    have hSame : d = c := by simpa using hHead
    rw [Bool.eq_false_iff]
    intro hContinued
    refine spacing.apart p q ⟨c, ?_, hContinued⟩ hGap
    rw [hChars, hSame]
    rfl
  · rcases Nat.exists_eq_succ_of_ne_zero hGap with ⟨n, hSome⟩
    rw [hSome, List.replicate_succ] at hHead
    have hSame : ' ' = c := by simpa using hHead
    exact p.continuedBy_gap (.inl hSame.symm)

end Offside.Piece

namespace Offside.Spacing

/- Pieces start with their first one. -/
theorem exists_chars_eq
    (spacing : Spacing)
    (p : Piece)
    (ps : List Piece) :
    ∃ cs, spacing.chars (p :: ps) = p.chars ++ cs := by
  cases ps with
  | nil => exact ⟨[], by rw [chars, List.append_nil]⟩
  | cons q ps => exact ⟨_, rfl⟩

end Offside.Spacing

namespace Offside.Reading

/- Pieces on one line. -/
theorem pieces
    (spacing : Spacing)
    (p : Piece)
    (ps : List Piece)
    {text : List Char}
    {ts : List Token}
    (hReading : Reading true text ts)
    (lineStart : Bool) :
    Reading lineStart (spacing.chars (p :: ps) ++ '\n' :: text)
      ((p :: ps).map Piece.token ++ ts) := by
  induction ps generalizing p lineStart with
  | nil =>
      refine piece p ?_ (hReading.lineFeed false) lineStart
      intro c hHead
      exact p.continuedBy_gap (.inr (by simpa using hHead.symm))
  | cons q ps ih =>
      rcases spacing.exists_chars_eq q ps with ⟨cs, hChars⟩
      have hStop :
          ∀ c ∈ (List.replicate (spacing.gap p q) ' ' ++
              (spacing.chars (q :: ps) ++ '\n' :: text)).head?,
            p.continuedBy c = false := by
        rw [hChars, List.append_assoc]
        exact p.continuedBy_spaced spacing q
      have hPiece := piece p hStop
        ((ih q false).blanks (spacing.gap p q)) lineStart
      simpa [Spacing.chars] using hPiece

/- One row. -/
theorem row
    (spacing : Spacing)
    (width : Nat)
    (r : Row)
    {text : List Char}
    {ts : List Token}
    (hReading : Reading true text ts) :
    Reading true (r.chars spacing width ++ text)
      (r.tokens width ++ ts) := by
  rcases List.exists_cons_of_ne_nil r.some with ⟨p, ps, hRow⟩
  have hPieces := fun lineStart =>
    pieces spacing p ps hReading lineStart
  have hChars :
      r.chars spacing width ++ text =
        List.replicate (width * r.depth) ' ' ++
          (spacing.chars (p :: ps) ++ '\n' :: text) := by
    simp [Row.chars, hRow]
  rw [hChars, Row.tokens, hRow]
  by_cases hFlat : width * r.depth = 0
  · rw [if_pos hFlat, hFlat]
    exact hPieces true
  · rw [if_neg hFlat]
    rcases spacing.exists_chars_eq p ps with ⟨cs, hFirst⟩
    rcases p.exists_chars_eq with ⟨c, ds, hStart, hBlank⟩
    have hInside := hPieces false
    rw [hFirst, hStart, List.cons_append, List.cons_append]
      at hInside ⊢
    exact indented hFlat hBlank hInside

/- All rows of a text. -/
theorem rows
    (spacing : Spacing)
    (width : Nat)
    (rs : List Row) :
    Reading true (rs.flatMap (Row.chars spacing width))
      (rs.flatMap (Row.tokens width) ++ [Token.finish]) := by
  induction rs with
  | nil => exact .finish rfl
  | cons r rs ih =>
      simpa using row spacing width r ih

end Offside.Reading
