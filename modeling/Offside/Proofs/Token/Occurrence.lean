import Mathlib
import Offside.Proofs.Token.Cut
import Offside.Proofs.Token.Joined
import Offside.Proofs.Token.Numerals

/-
  Occurrences: where the tokens of a text stand in it, and which
  locations they have.

  Key definitions include:
    * `Offside.Occurrence`
    * `Offside.Occurs`
    * `Offside.Text.locationAt`
    * `Offside.Lexer.Follows`

  Main statements:
    * `Offside.Lexeme.exists_fits_scan`: what is scanned is a gap
      and the lexeme of a token, also where that is an indentation.
    * `Offside.Lexer.Follows.next`: the location of a lexer is told
      by what it has read.
    * `Offside.Scanner.lexText_occurs`: the location of a token is
      that of the character after its lexeme.
-/

------------------------------------------------------------
-- Occurrences
------------------------------------------------------------

namespace Offside

/-
  That a token is the indentation of a line: its characters are
  all the white space at the start of it.
-/
structure Token.Indents
    (before after : List Char)
    (t : Token)
    (chars : List Char) :
    Prop where
  kind : t.kind = .indent
  value : t.value = .amount (.whole chars.length)
  some : chars ≠ []
  blank : ∀ c ∈ chars, Text.isBlank c = true ∧ c ≠ '\n'
  opens : ∀ c ∈ before.getLast?, c = '\n'
  stops : ∀ c ∈ after.head?, Text.isBlank c = false

/- Words, numbers and symbols have characters, all on one line. -/
theorem IsLexeme.chars
    {text chars : List Char}
    {shape : Shape}
    (hLexeme : IsLexeme text shape chars)
    (hFinish : shape ≠ .finish)
    (hIndent : ∀ width, shape ≠ .indent width) :
    chars ≠ [] ∧ '\n' ∉ chars := by
  have hWord : Lexeme.continuesWord '\n' = false := by decide
  have hNumeral : Lexeme.isNumeral '\n' = false := by decide
  cases hLexeme with
  | indent hWidth => exact absurd rfl (hIndent _)
  | finish hEnd => exact absurd rfl hFinish
  | word hFirst hMore hStop =>
      refine ⟨List.cons_ne_nil _ _, ?_⟩
      intro hMem
      rcases List.mem_cons.mp hMem with hSame | hMem
      · rw [← hSame] at hFirst
        revert hFirst
        decide
      · rw [hMore _ hMem] at hWord
        cases hWord
  | number hSome hAll hStop =>
      refine ⟨hSome, ?_⟩
      intro hMem
      rw [hAll _ hMem] at hNumeral
      cases hNumeral
  | symbol hBlank hFirst hNumber hComment =>
      refine ⟨List.cons_ne_nil _ _, ?_⟩
      intro hMem
      rw [← List.mem_singleton.mp hMem] at hBlank
      revert hBlank
      decide

/-
  A token and its lexeme in a text, with the characters before the
  lexeme and after it.
-/
structure Occurrence where
  token : Token
  before : List Char
  chars : List Char
  after : List Char

namespace Occurrence

/- The place of the first character after the lexeme. -/
def stop
    (x : Occurrence) :
    Nat :=
  x.before.length + x.chars.length

/- Whether the lexeme is one of the token. -/
def Fits
    (x : Occurrence) :
    Prop :=
  x.token.Spells x.after x.chars ∨
    x.token.Indents x.before x.after x.chars

/- Its characters are all on one line. -/
theorem Fits.chars
    {x : Occurrence}
    (hFits : x.Fits) :
    x.chars ≠ [] ∧ '\n' ∉ x.chars := by
  rcases hFits with hSpells | hIndents
  · cases hSpells with
    | word hLexeme _ _ => exact hLexeme.chars (by simp) (by simp)
    | number hLexeme _ _ _ => exact hLexeme.chars (by simp) (by simp)
    | operator hLexeme _ _ => exact hLexeme.chars (by simp) (by simp)
  · exact ⟨hIndents.some, fun hMem => (hIndents.blank _ hMem).2 rfl⟩

end Occurrence

/-
  That the rest of a text, after the characters before it, has
  these occurrences with nothing but gaps around them.
-/
inductive Occurs :
    List Char →
    List Char →
    List Occurrence →
    Prop where
  | last
      {before gap : List Char}
      (hGap : IsGap [] gap) :
      Occurs before gap []
  | cons
      {before gap chars after : List Char}
      {t : Token}
      {xs : List Occurrence}
      (hGap : IsGap (chars ++ after) gap)
      (hFits : Occurrence.Fits ⟨t, before ++ gap, chars, after⟩)
      (hMore : Occurs (before ++ gap ++ chars) after xs) :
      Occurs before (gap ++ (chars ++ after))
        (⟨t, before ++ gap, chars, after⟩ :: xs)

namespace Occurs

variable {before text : List Char}
variable {xs : List Occurrence}

/- Every occurrence cuts the whole text in three. -/
theorem append_eq
    (hOccurs : Occurs before text xs) :
    ∀ x ∈ xs, x.before ++ (x.chars ++ x.after) = before ++ text := by
  induction hOccurs with
  | last hGap => exact List.forall_mem_nil _
  | cons hGap hFits _ ih =>
      refine List.forall_mem_cons.mpr ⟨by simp, ?_⟩
      intro x hMem
      rw [ih x hMem]
      simp

end Occurs

end Offside

------------------------------------------------------------
-- Indentations
------------------------------------------------------------

namespace Offside

/-
  Where a gap ends with an indentation, its characters are the last
  ones of the gap.  They begin after a line feed, or go on with what
  was counted before.
-/
theorem Gap.exists_indentation
    {inComment lineStart : Bool}
    {indent : Nat}
    {text : List Char}
    (hComment : inComment = true → indent = 0)
    (hIndent : (skip inComment lineStart indent text).indent ≠ 0) :
    ∃ gap blanks,
      (skip inComment lineStart indent text).skipped = gap ++ blanks ∧
      IsGap (blanks ++ (skip inComment lineStart indent text).rest)
        (cond inComment ['#'] [] ++ gap) ∧
      (∀ c ∈ blanks, Text.isBlank c = true ∧ c ≠ '\n') ∧
      (gap.getLast? = some '\n' ∧
          (skip inComment lineStart indent text).indent =
            blanks.length ∨
        gap = [] ∧
          inComment = false ∧
          (skip inComment lineStart indent text).indent =
            if lineStart then indent + blanks.length else indent) := by
  have hFeed : Text.isBlank '\n' = true := by decide
  have hReturn : Text.isBlank '\r' = true := by decide
  -- One more character before a gap that has a line feed.
  have hLast : ∀ {c : Char} {gap : List Char},
      gap.getLast? = some '\n' → (c :: gap).getLast? = some '\n' := by
    intro c gap hGap
    simp [List.getLast?_cons, hGap]
  fun_induction skip inComment lineStart indent text with
  | case1 inComment lineStart indent =>
      cases inComment with
      | true => exact absurd (hComment rfl) hIndent
      | false =>
          refine ⟨[], [], rfl, .nil, List.forall_mem_nil _, .inr ?_⟩
          exact ⟨rfl, rfl, by simp⟩
  | case2 lineStart indent text ih =>
      rcases ih (by simp) hIndent with
        ⟨gap, blanks, hSkipped, hGap, hBlanks, hCount⟩
      refine ⟨'\n' :: gap, blanks, by simp [cons, hSkipped],
        .comment [] _ (by simp) (by simp) (.blank hFeed hGap),
        hBlanks, .inl ?_⟩
      rcases hCount with ⟨hGap, hWidth⟩ | ⟨rfl, _, hWidth⟩
      · exact ⟨hLast hGap, hWidth⟩
      · exact ⟨rfl, by simpa [cons] using hWidth⟩
  | case3 lineStart indent text hOther ih =>
      rcases ih (by simp) hIndent with
        ⟨gap, blanks, hSkipped, hGap, hBlanks, hCount⟩
      refine ⟨'\r' :: gap, blanks, by simp [cons, hSkipped],
        .comment [] _ (by simp) (by simp) (.blank hReturn hGap),
        hBlanks, .inl ?_⟩
      rcases hCount with ⟨hGap, hWidth⟩ | ⟨_, _, hNone⟩
      · exact ⟨hLast hGap, hWidth⟩
      · exact absurd hNone hIndent
  | case4 lineStart indent c text hOther hOther' ih =>
      rcases ih (by simp) hIndent with
        ⟨gap, blanks, hSkipped, hGap, hBlanks, hCount⟩
      refine ⟨c :: gap, blanks, by simp [cons, hSkipped],
        hGap.comment_cons hOther hOther', hBlanks, .inl ?_⟩
      rcases hCount with ⟨hGap, hWidth⟩ | ⟨_, hInside, _⟩
      · exact ⟨hLast hGap, hWidth⟩
      · cases hInside
  | case5 inComment lineStart indent text hOutside hBlank ih =>
      rw [Bool.not_eq_true] at hOutside
      rcases ih (by simp) hIndent with
        ⟨gap, blanks, hSkipped, hGap, hBlanks, hCount⟩
      rw [hOutside]
      refine ⟨'\n' :: gap, blanks, by simp [cons, hSkipped],
        .blank hBlank hGap, hBlanks, .inl ?_⟩
      rcases hCount with ⟨hGap, hWidth⟩ | ⟨rfl, _, hWidth⟩
      · exact ⟨hLast hGap, hWidth⟩
      · exact ⟨rfl, by simpa [cons] using hWidth⟩
  | case6 inComment lineStart indent c text hOutside hBlank hOther ih =>
      rw [Bool.not_eq_true] at hOutside
      rcases ih (by simp) hIndent with
        ⟨gap, blanks, hSkipped, hGap, hBlanks, hCount⟩
      rw [hOutside]
      rcases hCount with ⟨hFeedGap, hWidth⟩ | ⟨rfl, _, hWidth⟩
      · exact ⟨c :: gap, blanks, by simp [cons, hSkipped],
          .blank hBlank hGap, hBlanks, .inl ⟨hLast hFeedGap, hWidth⟩⟩
      · refine ⟨[], c :: blanks, by simpa [cons] using hSkipped, .nil,
          List.forall_mem_cons.mpr ⟨⟨hBlank, hOther⟩, hBlanks⟩,
          .inr ⟨rfl, rfl, ?_⟩⟩
        cases lineStart with
        | false => exact hWidth
        | true =>
            simp only [if_true] at hWidth
            simp only [cons, hWidth, if_true, List.length_cons]
            omega
  | case7 inComment lineStart indent c text hOutside hBlank hStart ih =>
      rw [Bool.not_eq_true] at hOutside
      rcases ih (by simp) hIndent with
        ⟨gap, blanks, hSkipped, hGap, hBlanks, hCount⟩
      rw [hOutside, hStart.2]
      refine ⟨'#' :: gap, blanks, by simp [cons, hSkipped], hGap,
        hBlanks, .inl ?_⟩
      rcases hCount with ⟨hGap, hWidth⟩ | ⟨_, hInside, _⟩
      · exact ⟨hLast hGap, hWidth⟩
      · cases hInside
  | case8 inComment lineStart indent c text hOutside hBlank hStart =>
      rw [Bool.not_eq_true] at hOutside
      rw [hOutside]
      refine ⟨[], [], rfl, .nil, List.forall_mem_nil _, .inr ?_⟩
      exact ⟨rfl, rfl, by simp⟩

namespace Lexeme

variable {lineStart : Bool}
variable {text : List Char}

/- The gap of an indentation ends with its characters. -/
theorem exists_indents_scan
    {before : List Char}
    (hStart : lineStart = true → before = [])
    {t : Token}
    (hContent : (scan lineStart text).content = .ok (t.kind, t.value))
    (hKind : t.kind = .indent) :
    ∃ gap blanks,
      (scan lineStart text).gap = gap ++ blanks ∧
      IsGap (blanks ++ (scan lineStart text).rest) gap ∧
      t.Indents (before ++ gap) (scan lineStart text).rest blanks := by
  have hRest := @Gap.rest_skip false lineStart 0 text
  have hIndentation := @Gap.exists_indentation false lineStart 0 text
  rw [scan_eq_ofGap] at hContent ⊢
  generalize Gap.skip false lineStart 0 text = skipped
    at hContent hRest hIndentation ⊢
  have hIndent : skipped.indent ≠ 0 := by
    intro hNone
    have hShape := shape_ofGap_ne_indent hNone
    rw [hKind] at hContent
    cases hCase : (ofGap skipped).shape with
    | indent width => exact hShape width hCase
    | word =>
        rw [content, hCase] at hContent
        simp only [Except.ok.injEq, Prod.mk.injEq] at hContent
        exact (Kind.ofWord_ne _).2 hContent.1
    | number =>
        rw [content, hCase] at hContent
        dsimp only at hContent
        split at hContent <;> cases hContent
    | symbol =>
        rw [content, hCase] at hContent
        cases hContent
    | finish =>
        rw [content, hCase] at hContent
        cases hContent
  rcases hIndentation (by simp) hIndent with
    ⟨gap, blanks, hSkipped, hGap, hBlanks, hCount⟩
  have hScan : ofGap skipped =
      ⟨.indent skipped.indent, skipped.skipped, [], skipped.rest⟩ := by
    rw [ofGap, if_pos hIndent]
  rw [hScan] at hContent ⊢
  have hValue : t.value = .amount (.whole skipped.indent) := by
    simp only [content, Except.ok.injEq, Prod.mk.injEq] at hContent
    exact hContent.2.symm
  -- At the start of a line all of the text before it is the gap.
  have hWidth : skipped.indent = blanks.length ∧
      ∀ c ∈ (before ++ gap).getLast?, c = '\n' := by
    rcases hCount with ⟨hFeed, hWidth⟩ | ⟨rfl, _, hWidth⟩
    · refine ⟨hWidth, ?_⟩
      intro c hMem
      rw [List.getLast?_append, hFeed] at hMem
      cases hMem
      rfl
    · cases lineStart with
      | false => exact absurd hWidth hIndent
      | true =>
          rw [hStart rfl]
          exact ⟨by simpa using hWidth, by simp⟩
  refine ⟨gap, blanks, hSkipped, hGap, hKind, ?_, ?_, hBlanks, hWidth.2, ?_⟩
  · rw [hValue, hWidth.1]
  · rintro rfl
    exact hIndent hWidth.1
  · intro c hMem
    cases hAfter : skipped.rest with
    | nil =>
        rw [hAfter] at hMem
        cases hMem
    | cons d ds =>
        rw [hAfter] at hMem
        cases hMem
        exact (hRest hAfter).1

/- A text without another lexeme is a gap. -/
theorem isGap_of_content
    {value : Value}
    (hContent :
      (scan lineStart text).content = .ok (.endOfText, value)) :
    IsGap [] text := by
  have hShape := shape_eq_finish hContent
  have hGap := isGap_scan lineStart text
  have hText := scan_append lineStart text
  have hLexeme := isLexeme_scan lineStart text
  rw [hShape] at hLexeme
  generalize (scan lineStart text).chars = chars at hLexeme hGap hText
  rw [rest_eq_nil hShape] at hLexeme hGap hText
  cases hLexeme
  rw [List.append_nil] at hGap hText
  rw [List.append_nil] at hText
  rwa [hText] at hGap

/- What is scanned is a gap and the lexeme of a token. -/
theorem exists_fits_scan
    {before : List Char}
    (hStart : lineStart = true → before = [])
    {t : Token}
    (hContent : (scan lineStart text).content = .ok (t.kind, t.value))
    (hEnd : t.kind ≠ .endOfText) :
    ∃ gap chars,
      gap ++ (chars ++ (scan lineStart text).rest) = text ∧
      gap.length + chars.length = (scan lineStart text).width ∧
      IsGap (chars ++ (scan lineStart text).rest) gap ∧
      Occurrence.Fits
        ⟨t, before ++ gap, chars, (scan lineStart text).rest⟩ := by
  have hText := scan_append lineStart text
  by_cases hIndent : t.kind = .indent
  · rcases exists_indents_scan hStart hContent hIndent with
      ⟨gap, blanks, hSplit, hGap, hIndents⟩
    rw [hIndent] at hContent
    have hChars := chars_scan_eq_nil hContent
    refine ⟨gap, blanks, ?_, ?_, hGap, .inr hIndents⟩
    · rw [hSplit, hChars] at hText
      simpa using hText
    · simp [width, hSplit, hChars]
  · exact ⟨_, _, hText, rfl, isGap_scan lineStart text,
      .inl (spells_scan hContent hIndent hEnd)⟩

end Lexeme

end Offside

------------------------------------------------------------
-- Locations
------------------------------------------------------------

namespace Offside

namespace Text

/- How many characters stand after the last line break. -/
def columns
    (text : List Char) :
    Nat :=
  (text.rtakeWhile fun c => c ≠ '\n' && c ≠ '\r').length

/-
  The location up to a character of a text, this one included.  At
  the end of the text one more column is counted.
-/
def locationAt
    (text : List Char)
    (place : Nat) :
    Location where
  line := breaks (text.take (place + 1))
  column :=
    columns (text.take (place + 1)) +
      if place = text.length then 1 else 0

/- The location after so many readings, also past the end. -/
def locationAfter
    (text : List Char)
    (reads : Nat) :
    Location where
  line := breaks (text.take reads)
  column := columns (text.take reads) + (reads - text.length)

theorem breaks_append
    (a b : List Char) :
    breaks (a ++ b) = breaks a + breaks b :=
  List.countP_append

theorem locationAt_eq
    {text : List Char}
    {place : Nat}
    (hInside : place ≤ text.length) :
    locationAt text place = locationAfter text (place + 1) := by
  unfold locationAt locationAfter
  by_cases hEnd : place = text.length
  · rw [if_pos hEnd, hEnd, Nat.add_sub_cancel_left]
  · rw [if_neg hEnd, Nat.sub_eq_zero_of_le (by omega)]

/- One more reading. -/
theorem locationAfter_succ
    (text : List Char)
    (reads : Nat) :
    (locationAfter text reads).after (text.drop reads).head? =
      locationAfter text (reads + 1) := by
  rw [List.head?_drop]
  by_cases hInside : reads < text.length
  · have hMore : reads + 1 - text.length = 0 := by omega
    have hNow : reads - text.length = 0 := by omega
    rw [List.getElem?_eq_getElem hInside]
    unfold locationAfter Location.after
    rw [← List.take_append_getElem hInside, breaks_append, hMore, hNow]
    generalize text.take reads = read
    generalize text[reads] = c
    by_cases hBreak : c = '\n' ∨ c = '\r'
    · rcases hBreak with rfl | rfl <;>
        simp [breaks, columns, List.rtakeWhile_concat_neg]
    · rw [not_or] at hBreak
      simp [hBreak, breaks, columns]
  · have hAll : text.length ≤ reads := not_lt.mp hInside
    rw [List.getElem?_eq_none hAll]
    unfold locationAfter Location.after
    rw [List.take_of_length_le hAll,
      List.take_of_length_le (Nat.le_succ_of_le hAll)]
    simp only [reduceCtorEq, or_self, if_false, Location.mk.injEq,
      true_and]
    omega

end Text

namespace Location

/- Locations in the order of lines, and of columns in a line. -/
def rank
    (location : Location) :
    ℕ ×ₗ ℕ :=
  toLex (location.line, location.column)

/- A reading leads to a later location. -/
theorem rank_le_after
    (location : Location)
    (c : Option Char) :
    location.rank ≤ (location.after c).rank := by
  unfold rank after
  rw [Prod.Lex.toLex_le_toLex]
  split_ifs
  · exact .inl (Nat.lt_succ_self _)
  · exact .inr ⟨rfl, Nat.le_succ _⟩

end Location

end Offside

------------------------------------------------------------
-- Lexers and Locations
------------------------------------------------------------

namespace Offside.Lexer

/- That a lexer has read a text so far as it has counted. -/
structure Follows
    (text : List Char)
    (l : Lexer) :
    Prop where
  unread : l.unread = text.drop l.reads
  location : l.location = Text.locationAfter text l.reads

theorem follows_start
    (text : List Char) :
    (start text).Follows text where
  unread := rfl
  location := by
    simp [start, Text.locationAfter, Text.breaks, Text.columns,
      Location.origin]

namespace Follows

variable {text : List Char}
variable {l : Lexer}

theorem advance
    (hFollows : l.Follows text) :
    l.advance.Follows text where
  unread := by
    simp [Lexer.advance, hFollows.unread, List.tail_drop]
  location := by
    simp only [Lexer.advance, hFollows.location, hFollows.unread]
    exact Text.locationAfter_succ text l.reads

theorem advanceBy
    (hFollows : l.Follows text)
    (n : Nat) :
    (l.advanceBy n).Follows text := by
  induction n generalizing l with
  | zero => exact hFollows
  | succ n ih => exact ih hFollows.advance

theorem prime
    (hFollows : l.Follows text) :
    l.prime.Follows text := by
  unfold Lexer.prime
  split_ifs
  · exact ⟨hFollows.advance.unread, hFollows.advance.location⟩
  · exact hFollows

/- Whatever token is read, the location is told by the readings. -/
theorem next
    (hFollows : l.Follows text) :
    l.next.2.Follows text := by
  have hAfter := hFollows.prime.advanceBy
    (Lexeme.scan l.prime.lineStart l.prime.view).width
  exact ⟨hAfter.unread, hAfter.location⟩

end Follows

/- Reading on leads to later locations. -/
theorem rank_le_advanceBy
    (n : Nat)
    (l : Lexer) :
    l.location.rank ≤ (l.advanceBy n).location.rank := by
  induction n generalizing l with
  | zero => exact le_rfl
  | succ n ih => exact (l.location.rank_le_after _).trans (ih l.advance)

theorem rank_le_next
    (l : Lexer) :
    l.location.rank ≤ l.next.2.location.rank := by
  have hPrime : l.location.rank ≤ l.prime.location.rank := by
    unfold prime
    split_ifs
    · exact l.location.rank_le_after _
    · exact le_rfl
  exact hPrime.trans (rank_le_advanceBy _ l.prime)

/- What a lexer has read when it has read all tokens. -/
theorem tokens_eq_ok
    {l : Lexer}
    {ts : List Token}
    (hTokens : l.tokens.1 = .ok ts) :
    ∃ t, l.next.1 = .ok t ∧
      (t.kind = .endOfText ∧ ts = [t] ∨
        t.kind ≠ .endOfText ∧
          ∃ us, l.next.2.tokens.1 = .ok us ∧ ts = t :: us) := by
  rw [tokens_eq] at hTokens
  split at hTokens
  · cases hTokens
  · rename_i t hNext
    refine ⟨t, hNext, ?_⟩
    split_ifs at hTokens with hKind
    · cases hTokens
      exact .inl ⟨hKind, rfl⟩
    · refine .inr ⟨hKind, ?_⟩
      cases hMore : l.next.2.tokens.1 with
      | error e =>
          rw [hMore] at hTokens
          cases hTokens
      | ok us =>
          rw [hMore] at hTokens
          cases hTokens
          exact ⟨us, rfl, rfl⟩

theorem tokens_ne_nil
    {l : Lexer}
    {ts : List Token}
    (hTokens : l.tokens.1 = .ok ts) :
    ts ≠ [] := by
  rcases tokens_eq_ok hTokens with
    ⟨t, _, ⟨_, rfl⟩ | ⟨_, us, _, rfl⟩⟩ <;>
    exact List.cons_ne_nil _ _

/- The token that is read is the one of the next lexeme. -/
theorem At.content_of_next
    {l : Lexer}
    {lineStart : Bool}
    {text : List Char}
    (hAt : l.At lineStart text)
    {t : Token}
    (hNext : l.next.1 = .ok t) :
    (Lexeme.scan lineStart text).content = .ok (t.kind, t.value) := by
  rw [hAt.next_eq] at hNext
  cases hContent : (Lexeme.scan lineStart text).content with
  | error e =>
      rw [hContent] at hNext
      cases hNext
  | ok pair =>
      rw [hContent] at hNext
      cases hNext
      rfl

/- A token has the location of the lexer after it. -/
theorem location_of_next
    {l : Lexer}
    {t : Token}
    (hNext : l.next.1 = .ok t) :
    t.location = l.next.2.location := by
  rw [next_eq_lexeme] at hNext
  cases hContent : l.lexeme.content with
  | error e =>
      rw [hContent] at hNext
      cases hNext
  | ok pair =>
      rw [hContent] at hNext
      cases hNext
      rfl

/- So a token that ends before a place of the text tells this place. -/
theorem Follows.location_next
    {text : List Char}
    {l : Lexer}
    (hFollows : l.Follows text)
    {t : Token}
    (hNext : l.next.1 = .ok t)
    {place : Nat}
    (hReads : l.next.2.reads = place + 1)
    (hInside : place ≤ text.length) :
    t.location = Text.locationAt text place := by
  rw [location_of_next hNext, hFollows.next.location, hReads,
    Text.locationAt_eq hInside]

/- The locations of the tokens never go back. -/
theorem rank_tokens
    {l : Lexer}
    {ts : List Token}
    (hTokens : l.tokens.1 = .ok ts) :
    (∀ t ∈ ts, l.location.rank ≤ t.location.rank) ∧
      ts.Pairwise fun t u => t.location.rank ≤ u.location.rank := by
  induction ts generalizing l with
  | nil => exact absurd rfl (tokens_ne_nil hTokens)
  | cons t ts ih =>
      rcases tokens_eq_ok hTokens with ⟨u, hNext, hRest⟩
      have hRank := rank_le_next l
      rw [← location_of_next hNext] at hRank
      rcases hRest with ⟨_, hLast⟩ | ⟨_, us, hMore, hCons⟩
      · cases hLast
        exact ⟨by simpa using hRank, List.pairwise_singleton _ _⟩
      · cases hCons
        rcases ih hMore with ⟨hLater, hPairwise⟩
        rw [← location_of_next hNext] at hLater
        refine ⟨List.forall_mem_cons.mpr ⟨hRank, ?_⟩,
          List.pairwise_cons.mpr ⟨hLater, hPairwise⟩⟩
        exact fun v hMem => hRank.trans (hLater v hMem)

end Offside.Lexer

------------------------------------------------------------
-- Texts and Occurrences
------------------------------------------------------------

namespace Offside

/-
  The tokens that are read have their occurrences in the text, and
  the location of each is that of the character after it.  The
  lexer is one reading ahead of the characters before the text.
-/
theorem Lexer.At.occurs
    {l : Lexer}
    {lineStart : Bool}
    {before text : List Char}
    (hAt : l.At lineStart text)
    (hStart : lineStart = true → before = [])
    (hFollows : l.Follows (before ++ text))
    (hReads : text ≠ [] → l.prime.reads = before.length + 1)
    {ts : List Token}
    (hTokens : l.tokens.1 = .ok ts) :
    ∃ xs final,
      ts = xs.map Occurrence.token ++ [final] ∧
      final.kind = .endOfText ∧
      Occurs before text xs ∧
      ∀ x ∈ xs,
        x.token.location = Text.locationAt (before ++ text) x.stop := by
  induction ts generalizing l lineStart before text with
  | nil => exact absurd rfl (tokens_ne_nil hTokens)
  | cons t ts ih =>
      rcases tokens_eq_ok hTokens with ⟨u, hNext, hRest⟩
      have hContent := hAt.content_of_next hNext
      rcases hRest with ⟨hKind, hLast⟩ | ⟨hKind, us, hMore, hCons⟩
      · -- The end of the text has only a gap before it.
        cases hLast
        refine ⟨[], t, rfl, hKind, ?_, List.forall_mem_nil _⟩
        rw [hKind] at hContent
        exact .last (Lexeme.isGap_of_content hContent)
      · cases hCons
        have hShape := Lexeme.shape_ne_finish hContent hKind
        have hSome : text ≠ [] := by
          rintro rfl
          cases lineStart <;> exact hShape rfl
        rcases Lexeme.exists_fits_scan hStart hContent hKind with
          ⟨gap, chars, hText, hWidth, hGap, hFits⟩
        have hWhole : before ++ text =
            before ++ gap ++ chars ++ (Lexeme.scan lineStart text).rest := by
          rw [List.append_assoc, List.append_assoc, hText]
        have hStop : l.next.2.reads =
            (before ++ gap).length + chars.length + 1 := by
          rw [hAt.reads_next, hReads hSome, ← hWidth, List.length_append]
          omega
        have hInside : (before ++ gap).length + chars.length ≤
            (before ++ text).length := by
          rw [hWhole]
          simp only [List.length_append]
          omega
        have hLocation := hFollows.location_next hNext hStop hInside
        have hFollows' := hFollows.next
        rw [hWhole] at hFollows'
        have hReads' : (Lexeme.scan lineStart text).rest ≠ [] →
            l.next.2.prime.reads = (before ++ gap ++ chars).length + 1 := by
          intro hLeft
          rw [prime_next (by rwa [hAt.next.view]), hStop,
            ← List.length_append]
        rcases ih hAt.next (fun hFalse => by cases hFalse) hFollows' hReads'
            hMore with ⟨xs, final, hTokens', hFinal, hOccurs, hLocations⟩
        refine ⟨⟨t, before ++ gap, chars,
          (Lexeme.scan lineStart text).rest⟩ :: xs, final, ?_, hFinal, ?_, ?_⟩
        · rw [hTokens']
          rfl
        · have hCons := Occurs.cons hGap hFits hOccurs
          rwa [hText] at hCons
        · refine List.forall_mem_cons.mpr ⟨hLocation, ?_⟩
          rw [hWhole]
          exact hLocations

namespace Scanner

/-
  The tokens of a text, but for the last one, have their lexemes in
  it, with gaps around them.  The location of a token tells what is
  read up to the character after its lexeme, this one included: how
  many line breaks, and how many characters after the last of them,
  with one more at the end of the text.  Locations never go back
  from one token to a later one.
-/
theorem lexText_occurs
    (s : Scanner)
    (hBuffer : s.input.direct = false)
    (text : String)
    (ts : List Token)
    (hLex : s.lexText text = .ok ts) :
    (∃ xs final,
      ts = xs.map Occurrence.token ++ [final] ∧
      final.kind = .endOfText ∧
      Occurs [] text.toList xs ∧
      ∀ x ∈ xs,
        x.token.location = Text.locationAt text.toList x.stop) ∧
    ts.Pairwise fun t u => t.location.rank ≤ u.location.rank := by
  rw [lexText_eq hBuffer] at hLex
  refine ⟨?_, (Lexer.rank_tokens hLex).2⟩
  have hAt : (Lexer.start text.toList).At true text.toList :=
    Lexer.at_reset (Lexer.start text.toList)
  exact hAt.occurs (fun _ => rfl) (Lexer.follows_start text.toList)
    (fun _ => rfl) hLex

/- An indentation, both line breaks, and a token at the very end. -/
def steppedText : String := "if a:\n\t b\r# c\n.5"

/- The tokens of that text. -/
def steppedTokens : List Token :=
  [⟨.kwIf, .text "if", ⟨0, 3⟩⟩,
    ⟨.identifier, .text "a", ⟨0, 5⟩⟩,
    ⟨.operator, .text ":", ⟨1, 0⟩⟩,
    ⟨.indent, .amount (.whole 2), ⟨1, 3⟩⟩,
    ⟨.identifier, .text "b", ⟨2, 0⟩⟩,
    ⟨.floatLiteral,
      .amount (.real ((⟨5, -1⟩ : Decimal).toBinary64 false)), ⟨3, 3⟩⟩,
    ⟨.endOfText, .text "", ⟨3, 4⟩⟩]

theorem lexText_occurs_sample :
    (ofInput Input.empty).lexText steppedText = .ok steppedTokens ∧
    (∃ xs final,
      steppedTokens = xs.map Occurrence.token ++ [final] ∧
      final.kind = .endOfText ∧
      Occurs [] steppedText.toList xs ∧
      ∀ x ∈ xs,
        x.token.location = Text.locationAt steppedText.toList x.stop) ∧
    steppedTokens.Pairwise fun t u =>
      t.location.rank ≤ u.location.rank := by
  have hLex :
      (ofInput Input.empty).lexText steppedText = .ok steppedTokens := by
    decide +kernel
  exact ⟨hLex, lexText_occurs (ofInput Input.empty) rfl steppedText
    steppedTokens hLex⟩

end Scanner

end Offside
