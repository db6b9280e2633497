import Mathlib
import Offside.Proofs.Layout.Block
import Offside.Proofs.Token.Reading

/-
  Pieces: the words, numbers and symbols that texts are written
  in, and the tokens that they are read as.

  Key definitions include:
    * `Offside.Word`
    * `Offside.Literal`
    * `Offside.Symbol`
    * `Offside.Piece`
    * `Offside.Piece.RunsInto`

  Main statement:
    * `Offside.Reading.piece`: a piece is read as its token when
      the next character is not one that would continue it.
-/

------------------------------------------------------------
-- Classes of Characters
------------------------------------------------------------

namespace Offside.Text.Ranges

/- A code point of some ranges lies in one of them. -/
theorem exists_of_contains
    {ranges : Ranges}
    {n : Nat}
    (hContains : ranges.contains n = true) :
    ∃ range ∈ ranges, range.1 ≤ n ∧ n ≤ range.2 := by
  induction ranges with
  | nil => simp [contains, find?] at hContains
  | cons range ranges ih =>
      rcases range with ⟨low, high⟩
      unfold contains at hContains ih
      rw [find?] at hContains
      split_ifs at hContains with hBelow hInside
      · simp at hContains
      · exact ⟨(low, high), by simp, by simp; omega⟩
      · rcases ih hContains with ⟨range, hMem, hRange⟩
        exact ⟨range, List.mem_cons_of_mem _ hMem, hRange⟩

/- Whether no range of one list meets a range of the other. -/
def Apart
    (ranges ranges' : Ranges) :
    Prop :=
  ∀ r ∈ ranges, ∀ r' ∈ ranges', r.2 < r'.1 ∨ r'.2 < r.1

instance
    (ranges ranges' : Ranges) :
    Decidable (Apart ranges ranges') :=
  inferInstanceAs (Decidable (∀ r ∈ ranges, ∀ r' ∈ ranges', _))

theorem Apart.contains_eq_false
    {ranges ranges' : Ranges}
    (hApart : Apart ranges ranges')
    {n : Nat}
    (hContains : ranges.contains n = true) :
    contains ranges' n = false := by
  rw [Bool.eq_false_iff]
  intro hOther
  rcases exists_of_contains hContains with ⟨r, hMem, hRange⟩
  rcases exists_of_contains hOther with ⟨r', hMem', hRange'⟩
  have hDisjoint := hApart r hMem r' hMem'
  omega

end Offside.Text.Ranges

namespace Offside.Text

theorem blanks_apart_letters : Ranges.Apart blanks letters := by
  decide +kernel

/- What starts a word is no white space. -/
theorem isBlank_of_startsWord
    {c : Char}
    (hWord : Lexeme.startsWord c = true) :
    isBlank c = false := by
  rw [Bool.eq_false_iff]
  intro hBlank
  rw [Lexeme.startsWord, Bool.or_eq_true] at hWord
  rcases hWord with hLetter | hUnderscore
  · have hNone := blanks_apart_letters.contains_eq_false hBlank
    rw [isLetter, hNone] at hLetter
    cases hLetter
  · rw [decide_eq_true_iff] at hUnderscore
    rw [hUnderscore] at hBlank
    revert hBlank
    decide

end Offside.Text

------------------------------------------------------------
-- Words, Numbers and Symbols
------------------------------------------------------------

namespace Offside

/- A word: a character that starts one, and others that continue it. -/
structure Word where
  first : Char
  others : List Char
  starts : Lexeme.startsWord first = true
  continues : others.all Lexeme.continuesWord = true

namespace Word

/- The characters of a word. -/
def chars
    (w : Word) :
    List Char :=
  w.first :: w.others

/- The text of a word. -/
def text
    (w : Word) :
    String :=
  String.ofList w.chars

end Word

/- A name: a word that is no keyword. -/
structure Name where
  word : Word
  free : Kind.ofWord word.text = .identifier

/-
  A decimal literal: digits, and perhaps a dot with digits after
  it; there has to be a digit on one side.
-/
structure Literal where
  whole : List (Fin 10)
  fraction : Option (List (Fin 10))
  digit : whole ++ fraction.getD [] ≠ []

namespace Literal

/- The characters of digits. -/
def digits
    (ds : List (Fin 10)) :
    List Char :=
  ds.map fun d => Nat.digitChar d.val

/- The characters of a literal. -/
def chars
    (l : Literal) :
    List Char :=
  digits l.whole ++
    match l.fraction with
    | none => []
    | some ds => '.' :: digits ds

/- The decimal number that a literal stands for. -/
def decimal
    (l : Literal) :
    Decimal :=
  ⟨Decimal.ofDigitValues ((l.whole ++ l.fraction.getD []).map Fin.val),
    -((l.fraction.getD []).length : Int)⟩

/- The value of a literal: the number nearest to it. -/
def value
    (l : Literal) :
    Value :=
  .amount (.real (l.decimal.toBinary64 false))

end Literal

/- A character that makes a token by itself. -/
structure Symbol where
  char : Char
  notBlank : Text.isBlank char = false
  notWord : Lexeme.startsWord char = false
  notNumeral : Lexeme.isNumeral char = false
  notComment : char ≠ '#'

/- The text of a symbol. -/
def Symbol.text
    (s : Symbol) :
    String :=
  String.ofList [s.char]

/- The pieces that texts are written in. -/
inductive Piece where
  | word (w : Word)
  | number (l : Literal)
  | symbol (s : Symbol)

namespace Piece

/- The characters of a piece. -/
def chars :
    Piece →
    List Char
  | word w => w.chars
  | number l => l.chars
  | symbol s => [s.char]

/- The token that a piece is read as. -/
def token :
    Piece →
    Token
  | word w => { kind := Kind.ofWord w.text, value := .text w.text }
  | number l => Token.number l.value
  | symbol s => Token.operator s.text

/- Whether a character would continue a piece. -/
def continuedBy :
    Piece →
    Char →
    Bool
  | word _, c => Lexeme.continuesWord c
  | number _, c => Lexeme.isNumeral c
  | symbol _, _ => false

/- Whether two pieces with nothing between them would be read as others. -/
def RunsInto
    (p q : Piece) :
    Prop :=
  ∃ c ∈ q.chars.head?, p.continuedBy c = true

end Piece

end Offside

------------------------------------------------------------
-- Numbers Are Read
------------------------------------------------------------

namespace Offside.Literal

theorem decimalValue?_digitChar
    (d : Fin 10) :
    Text.decimalValue? (Nat.digitChar d.val) = some d.val := by
  revert d
  decide

theorem digitChar_ne_dot
    (d : Fin 10) :
    Nat.digitChar d.val ≠ '.' := by
  revert d
  decide

/- Digits are read as their values. -/
theorem mapM_digits
    (ds : List (Fin 10)) :
    (digits ds).mapM Text.decimalValue? = some (ds.map Fin.val) := by
  induction ds with
  | nil => rfl
  | cons d ds ih =>
      have hTail :
          (List.map (fun d => Nat.digitChar d.val) ds).mapM
              Text.decimalValue? =
            some (ds.map Fin.val) := ih
      simp [digits, decimalValue?_digitChar, hTail]

theorem ne_dot_of_mem_digits
    {ds : List (Fin 10)}
    {c : Char}
    (hMem : c ∈ digits ds) :
    decide (c ≠ '.') = true := by
  rcases List.mem_map.mp hMem with ⟨d, _, rfl⟩
  exact decide_eq_true (digitChar_ne_dot d)

/- The digits before the dot. -/
theorem takeWhile_chars
    (l : Literal) :
    l.chars.takeWhile (· ≠ '.') = digits l.whole := by
  rw [chars, List.takeWhile_append_of_pos
    fun c hMem => ne_dot_of_mem_digits hMem]
  cases l.fraction with
  | none => simp
  | some ds => simp

/- The digits after the dot. -/
theorem drop_dropWhile_chars
    (l : Literal) :
    (l.chars.dropWhile (· ≠ '.')).drop 1 =
      digits (l.fraction.getD []) := by
  rw [chars, List.dropWhile_append_of_pos
    fun c hMem => ne_dot_of_mem_digits hMem]
  cases l.fraction with
  | none => rfl
  | some ds => simp

/- A literal is read as the decimal that it stands for. -/
theorem ofLiteral?_chars
    (l : Literal) :
    Decimal.ofLiteral? l.chars = some l.decimal := by
  have hDigits :
      digits l.whole ++ digits (l.fraction.getD []) =
        digits (l.whole ++ l.fraction.getD []) := by
    simp [digits]
  have hSome :
      (l.whole ++ l.fraction.getD []).map Fin.val ≠ [] := by
    simpa using l.digit
  rw [Decimal.ofLiteral?]
  simp only [takeWhile_chars, drop_dropWhile_chars, hDigits,
    mapM_digits]
  rw [decimal]
  simp [digits]

/- A literal is made of digits and of dots. -/
theorem digit_or_dot_of_mem_chars
    {l : Literal}
    {c : Char}
    (hMem : c ∈ l.chars) :
    (∃ d : Fin 10, c = Nat.digitChar d.val) ∨ c = '.' := by
  have hDigit : ∀ ds : List (Fin 10), c ∈ digits ds →
      ∃ d : Fin 10, c = Nat.digitChar d.val := by
    intro ds hMem
    rcases List.mem_map.mp hMem with ⟨d, _, hChar⟩
    exact ⟨d, hChar.symm⟩
  rw [chars, List.mem_append] at hMem
  rcases hMem with hWhole | hRest
  · exact .inl (hDigit _ hWhole)
  · cases hFraction : l.fraction with
    | none => simp [hFraction] at hRest
    | some ds =>
        rw [hFraction] at hRest
        rcases List.mem_cons.mp hRest with hDot | hMem
        · exact .inr hDot
        · exact .inl (hDigit ds hMem)

/- All characters of a literal are numerals. -/
theorem isNumeral_of_mem_chars
    {l : Literal}
    {c : Char}
    (hMem : c ∈ l.chars) :
    Lexeme.isNumeral c = true := by
  rcases digit_or_dot_of_mem_chars hMem with ⟨d, rfl⟩ | rfl
  · clear hMem
    revert d
    decide
  · decide

/- None is white space or starts a word or a comment. -/
theorem start_of_mem_chars
    {l : Literal}
    {c : Char}
    (hMem : c ∈ l.chars) :
    Text.isBlank c = false ∧ Lexeme.startsWord c = false ∧ c ≠ '#' := by
  rcases digit_or_dot_of_mem_chars hMem with ⟨d, rfl⟩ | rfl
  · clear hMem
    revert d
    decide
  · decide

/- A literal has a character. -/
theorem chars_ne_nil
    (l : Literal) :
    l.chars ≠ [] := by
  intro hNil
  have hRead := ofLiteral?_chars l
  rw [hNil] at hRead
  cases hRead

end Offside.Literal

------------------------------------------------------------
-- Pieces Are Read
------------------------------------------------------------

namespace Offside.Gap

/- What is neither white space nor a comment is not passed over. -/
theorem skip_cons
    (lineStart : Bool)
    {c : Char}
    (hBlank : Text.isBlank c = false)
    (hComment : c ≠ '#')
    (cs : List Char) :
    skip false lineStart 0 (c :: cs) = ⟨0, [], c :: cs⟩ := by
  simp [skip, hBlank, hComment]

end Offside.Gap

namespace Offside.Piece

variable {text : List Char}

/- Where characters of a class end, and others or none follow. -/
theorem takeWhile_dropWhile_append
    {p : Char → Bool}
    {cs : List Char}
    (hAll : ∀ c ∈ cs, p c = true)
    (hStop : ∀ c ∈ text.head?, p c = false) :
    (cs ++ text).takeWhile p = cs ∧
      (cs ++ text).dropWhile p = text := by
  rw [List.takeWhile_append_of_pos hAll,
    List.dropWhile_append_of_pos hAll]
  cases text with
  | nil => simp
  | cons c text =>
      have hFirst : p c = false := hStop c rfl
      simp [hFirst]

/- A word takes all characters after it that continue it. -/
theorem scan_word_append
    (w : Word)
    (text : List Char)
    (lineStart : Bool) :
    Lexeme.scan lineStart (w.chars ++ text) =
      ⟨.word, [], w.chars ++ text.takeWhile Lexeme.continuesWord,
        text.dropWhile Lexeme.continuesWord⟩ := by
  have hBlank := Text.isBlank_of_startsWord w.starts
  have hComment : w.first ≠ '#' := by
    intro hSame
    have hStarts := w.starts
    rw [hSame] at hStarts
    revert hStarts
    decide
  have hAll := List.all_eq_true.mp w.continues
  rw [Word.chars, List.cons_append, Lexeme.scan,
    Gap.skip_cons _ hBlank hComment]
  simp [w.starts, List.takeWhile_append_of_pos hAll,
    List.dropWhile_append_of_pos hAll]

/- A word up to a character that does not continue it. -/
theorem scan_word
    (w : Word)
    (hStop : ∀ c ∈ text.head?, Lexeme.continuesWord c = false)
    (lineStart : Bool) :
    Lexeme.scan lineStart (w.chars ++ text) =
      ⟨.word, [], w.chars, text⟩ := by
  have hNone : ∀ c ∈ ([] : List Char),
      Lexeme.continuesWord c = true := by
    simp
  rcases takeWhile_dropWhile_append hNone hStop with ⟨hTake, hDrop⟩
  rw [List.nil_append] at hTake hDrop
  rw [scan_word_append, hTake, hDrop, List.append_nil]

/- A number likewise. -/
theorem scan_number
    (l : Literal)
    (hStop : ∀ c ∈ text.head?, Lexeme.isNumeral c = false)
    (lineStart : Bool) :
    Lexeme.scan lineStart (l.chars ++ text) =
      ⟨.number, [], l.chars, text⟩ := by
  rcases List.exists_cons_of_ne_nil l.chars_ne_nil with
    ⟨c, cs, hChars⟩
  have hFirst : c ∈ l.chars := by
    rw [hChars]
    exact List.mem_cons_self
  have hNumeral := Literal.isNumeral_of_mem_chars hFirst
  rcases Literal.start_of_mem_chars hFirst with
    ⟨hBlank, hWord, hComment⟩
  rcases
      takeWhile_dropWhile_append
        (fun c hMem => Literal.isNumeral_of_mem_chars (l := l) hMem)
        hStop with
    ⟨hTake, hDrop⟩
  rw [hChars, List.cons_append] at hTake hDrop ⊢
  rw [Lexeme.scan, Gap.skip_cons _ hBlank hComment]
  simp [hWord, hNumeral, hTake, hDrop]

/- A symbol before any text. -/
theorem scan_symbol
    (s : Symbol)
    (lineStart : Bool) :
    Lexeme.scan lineStart (s.char :: text) =
      ⟨.symbol, [], [s.char], text⟩ := by
  rw [Lexeme.scan, Gap.skip_cons _ s.notBlank s.notComment]
  simp [s.notWord, s.notNumeral]

end Offside.Piece

namespace Offside.Reading

/- A piece is read as its token when nothing after it continues it. -/
theorem piece
    (p : Piece)
    {text : List Char}
    {ts : List Token}
    (hStop : ∀ c ∈ text.head?, p.continuedBy c = false)
    (hReading : Reading false text ts)
    (lineStart : Bool) :
    Reading lineStart (p.chars ++ text) (p.token :: ts) := by
  cases p with
  | word w =>
      have hScan := Piece.scan_word w hStop lineStart
      refine .cons ?_ ?_ ?_
      · simp only [Piece.chars, hScan, Lexeme.content, Word.text]
      · exact (Kind.ofWord_ne w.text).1
      · simpa only [Piece.chars, hScan] using hReading
  | number l =>
      have hScan := Piece.scan_number l hStop lineStart
      refine .cons ?_ (by decide) ?_
      · simp only [Piece.chars, hScan, Lexeme.content,
          Literal.ofLiteral?_chars, Literal.value]
      · simpa only [Piece.chars, hScan] using hReading
  | symbol s =>
      have hScan :
          Lexeme.scan lineStart (s.char :: text) =
            ⟨.symbol, [], [s.char], text⟩ :=
        Piece.scan_symbol s lineStart
      change Reading lineStart (s.char :: text) _
      refine .cons ?_ (by decide) ?_
      · simp only [hScan, Lexeme.content, Symbol.text]
      · simpa only [hScan] using hReading

/- Blanks at the start of a line are an indentation. -/
theorem scan_indented
    {width : Nat}
    (hWidth : width ≠ 0)
    {text : List Char}
    (hBlank : ∀ c ∈ text.head?, Text.isBlank c = false) :
    Lexeme.scan true (List.replicate width ' ' ++ text) =
      ⟨.indent width, List.replicate width ' ', [], text⟩ := by
  have hBlanks : ∀ d ∈ List.replicate width ' ',
      Text.isBlank d = true ∧ d ≠ '\n' := by
    intro d hMem
    rw [List.eq_of_mem_replicate hMem]
    decide
  have hRest :
      Gap.skip false true (0 + (List.replicate width ' ').length) text =
        ⟨0 + (List.replicate width ' ').length, [], text⟩ := by
    cases text with
    | nil => rfl
    | cons c cs =>
        have hFirst : Text.isBlank c = false := hBlank c rfl
        simp [Gap.skip, hFirst, hWidth]
  rw [Lexeme.scan, Gap.skip_blanks hBlanks hRest]
  simp [hWidth]

/- They are read as one. -/
theorem indented
    {width : Nat}
    (hWidth : width ≠ 0)
    {c : Char}
    {cs : List Char}
    {ts : List Token}
    (hBlank : Text.isBlank c = false)
    (hReading : Reading false (c :: cs) ts) :
    Reading true (List.replicate width ' ' ++ c :: cs)
      (Token.indentation width :: ts) := by
  have hScan :
      Lexeme.scan true (List.replicate width ' ' ++ c :: cs) =
        ⟨.indent width, List.replicate width ' ', [], c :: cs⟩ :=
    scan_indented hWidth (by simpa using hBlank)
  refine .cons ?_ (by decide) ?_
  · simp only [hScan, Lexeme.content]
  · simpa only [hScan] using hReading

end Offside.Reading
