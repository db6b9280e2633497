import Mathlib
import Offside.Proofs.Parser.Location
import Offside.Proofs.Token.Scan
import Offside.Source.Input

/-
  Readings: the tokens of a text without their locations, one
  lexeme after the other.

  Key definitions include:
    * `Offside.Reading`
    * `Offside.Lexer.At`
    * `Offside.Scanner.lexText`

  Main statements:
    * `Offside.Reading.tokens`, `Offside.Lexer.At.reading`: a
      lexer before a text gives the tokens of the one reading of
      it, up to locations.
    * `Offside.Reading.lineFeed`, `Offside.Reading.blanks`:
      readings of a text are readings of the text with gaps
      before it.
    * `Offside.Scanner.lexText_eq`: what was read before does not
      matter to a text in the buffer.
-/

------------------------------------------------------------
-- Readings
------------------------------------------------------------

namespace Offside

/- The token at the end of a text. -/
def Token.finish : Token :=
  { kind := .endOfText, value := .text "" }

/-
  That a text is read as these tokens, where the flag tells
  whether a line starts there.
-/
inductive Reading :
    Bool →
    List Char →
    List Token →
    Prop where
  | finish
      {lineStart : Bool}
      {text : List Char}
      (hShape : (Lexeme.scan lineStart text).shape = .finish) :
      Reading lineStart text [Token.finish]
  | cons
      {lineStart : Bool}
      {text : List Char}
      {kind : Kind}
      {value : Value}
      {ts : List Token}
      (hContent :
        (Lexeme.scan lineStart text).content = .ok (kind, value))
      (hKind : kind ≠ .endOfText)
      (hRest :
        Reading false (Lexeme.scan lineStart text).rest ts) :
      Reading lineStart text ({ kind := kind, value := value } :: ts)

/- What does not change the next lexeme does not change a reading. -/
theorem Reading.congr
    {b c : Bool}
    {text text' : List Char}
    {ts : List Token}
    (hReading : Reading b text ts)
    (hShape :
      (Lexeme.scan c text').shape = (Lexeme.scan b text).shape)
    (hChars :
      (Lexeme.scan c text').chars = (Lexeme.scan b text).chars)
    (hRest :
      (Lexeme.scan c text').rest = (Lexeme.scan b text).rest) :
    Reading c text' ts := by
  cases hReading with
  | finish hFinish => exact .finish (hShape.trans hFinish)
  | cons hContent hKind hMore =>
      refine .cons ?_ hKind ?_
      · rw [← hContent]
        simp only [Lexeme.content, hShape, hChars]
      · rwa [hRest]

namespace Kind

/- A word has the kind of a keyword if it is one. -/
theorem ofWord_cases
    (word : String) :
    (word, ofWord word) ∈ keywords ∨
      ofWord word = .identifier ∧ word ∉ keywords.map Prod.fst := by
  unfold ofWord
  cases hLookup : keywords.lookup word with
  | none =>
      right
      refine ⟨rfl, ?_⟩
      intro hMem
      rcases List.mem_map.mp hMem with ⟨entry, hEntry, hWord⟩
      have hOther := List.lookup_eq_none_iff.mp hLookup entry hEntry
      exact absurd hWord.symm (by simpa using hOther)
  | some kind =>
      left
      rcases List.lookup_eq_some_iff.mp hLookup with
        ⟨before, after, hSplit, _⟩
      rw [hSplit]
      simp

/- No word is read as the end of the text or as an indentation. -/
theorem ofWord_ne
    (word : String) :
    ofWord word ≠ .endOfText ∧ ofWord word ≠ .indent := by
  have hKeywords : ∀ entry ∈ keywords,
      entry.2 ≠ .endOfText ∧ entry.2 ≠ .indent := by
    decide
  rcases ofWord_cases word with hKeyword | ⟨hName, _⟩
  · exact hKeywords _ hKeyword
  · rw [hName]
    decide

end Kind

/- Only at its end is a text read as the end of the text. -/
theorem Lexeme.shape_eq_finish
    {lexeme : Lexeme}
    {value : Value}
    (hContent : lexeme.content = .ok (.endOfText, value)) :
    lexeme.shape = .finish := by
  unfold Lexeme.content at hContent
  cases hShape : lexeme.shape with
  | finish => rfl
  | indent width => simp [hShape] at hContent
  | word =>
      simp only [hShape, Except.ok.injEq, Prod.mk.injEq] at hContent
      exact absurd hContent.1 (Kind.ofWord_ne _).1
  | symbol => simp [hShape] at hContent
  | number =>
      simp only [hShape] at hContent
      split at hContent
      · cases hContent
      · cases hContent

/- What is not the end of a text is no end of it. -/
theorem Lexeme.shape_ne_finish
    {lexeme : Lexeme}
    {kind : Kind}
    {value : Value}
    (hContent : lexeme.content = .ok (kind, value))
    (hKind : kind ≠ .endOfText) :
    lexeme.shape ≠ .finish := by
  intro hShape
  rw [Lexeme.content, hShape] at hContent
  cases hContent
  exact hKind rfl

/- A text has one reading. -/
theorem Reading.unique
    {lineStart : Bool}
    {text : List Char}
    {ts us : List Token}
    (hReading : Reading lineStart text ts)
    (hOther : Reading lineStart text us) :
    ts = us := by
  induction hReading generalizing us with
  | finish hShape =>
      cases hOther with
      | finish => rfl
      | cons hContent hKind _ =>
          rw [Lexeme.content, hShape] at hContent
          cases hContent
          exact absurd rfl hKind
  | cons hContent hKind _ ih =>
      cases hOther with
      | finish hShape =>
          rw [Lexeme.content, hShape] at hContent
          cases hContent
          exact absurd rfl hKind
      | cons hSame _ hRest =>
          rw [hContent] at hSame
          cases hSame
          rw [ih hRest]

end Offside

------------------------------------------------------------
-- Lexers and Readings
------------------------------------------------------------

namespace Offside.Lexer

/-
  That the lexer is before this text.  Whether a line starts
  there does not matter where nothing is left.
-/
structure At
    (l : Lexer)
    (lineStart : Bool)
    (text : List Char) :
    Prop where
  view : l.view = text
  start : text ≠ [] → l.prime.lineStart = lineStart

/- A lexer that has just been reset is at the start of a line. -/
theorem at_reset
    (l : Lexer) :
    l.reset.At true l.unread where
  view := rfl
  start := by simp [reset, prime]

/- Where no character is at hand after reading on, none is left. -/
theorem unread_advanceBy_eq_nil
    (n : Nat)
    {l : Lexer}
    (hPrimed : l.ahead = none → l.unread = [])
    (hAhead : (l.advanceBy n).ahead = none) :
    (l.advanceBy n).unread = [] := by
  induction n generalizing l with
  | zero => exact hPrimed hAhead
  | succ n ih =>
      refine ih ?_ hAhead
      intro hNone
      have hUnread : l.unread = [] := by
        simpa [advance] using hNone
      simp [advance, hUnread]

/- The character at hand after a token is the first one ahead. -/
theorem ahead_next
    (l : Lexer) :
    l.next.2.ahead = l.next.2.view.head? := by
  cases hAhead : l.next.2.ahead with
  | some c => simp [view, hAhead]
  | none =>
      have hUnread : l.next.2.unread = [] :=
        unread_advanceBy_eq_nil _ unread_prime_eq_nil hAhead
      simp [view, hAhead, hUnread]

/- Inside a line there is no need to read one. -/
theorem prime_next
    {l : Lexer}
    (hSome : l.next.2.view ≠ []) :
    l.next.2.prime = l.next.2 := by
  have hAhead : l.next.2.ahead.isNone = false := by
    rw [ahead_next]
    simpa using hSome
  rw [prime, hAhead]
  rfl

/- Inside a line a lexer knows that no line starts. -/
theorem lineStart_prime_next
    (l : Lexer)
    (hSome : l.next.2.view ≠ []) :
    l.next.2.prime.lineStart = false := by
  rw [prime_next hSome]
  rfl

/- The rest of a text after its first lexeme. -/
theorem drop_width_scan
    (lineStart : Bool)
    (text : List Char) :
    text.drop (Lexeme.scan lineStart text).width =
      (Lexeme.scan lineStart text).rest := by
  have hAppend := Lexeme.scan_append lineStart text
  calc text.drop (Lexeme.scan lineStart text).width
      = ((Lexeme.scan lineStart text).gap ++
          ((Lexeme.scan lineStart text).chars ++
            (Lexeme.scan lineStart text).rest)).drop
          (Lexeme.scan lineStart text).width := by rw [hAppend]
    _ = (Lexeme.scan lineStart text).rest := by
        rw [← List.append_assoc, List.drop_left']
        simp [Lexeme.width]

/- The lexeme that a lexer reads next. -/
theorem At.scan
    {l : Lexer}
    {lineStart : Bool}
    {text : List Char}
    (hAt : l.At lineStart text) :
    Lexeme.scan l.prime.lineStart l.view =
      Lexeme.scan lineStart text := by
  rw [hAt.view]
  by_cases hNil : text = []
  · rw [hNil]
    rfl
  · rw [hAt.start hNil]

/- Reading a token leaves the lexer inside a line. -/
theorem At.next
    {l : Lexer}
    {lineStart : Bool}
    {text : List Char}
    (hAt : l.At lineStart text) :
    l.next.2.At false (Lexeme.scan lineStart text).rest := by
  have hView :
      l.next.2.view = (Lexeme.scan lineStart text).rest := by
    rw [view_next, hAt.scan, hAt.view, drop_width_scan]
  refine ⟨hView, ?_⟩
  intro hSome
  exact lineStart_prime_next l (by rwa [hView])

/- The token that a lexer reads next. -/
theorem At.next_eq
    {l : Lexer}
    {lineStart : Bool}
    {text : List Char}
    (hAt : l.At lineStart text) :
    l.next.1 =
      (Lexeme.scan lineStart text).content.map fun (kind, value) =>
        ⟨kind, value, l.next.2.location⟩ := by
  have hScan := hAt.scan
  rw [← view_prime l] at hScan
  rw [← hScan]
  rfl

/- The tokens of a lexer are its next one and those after it. -/
theorem tokens_eq
    (l : Lexer) :
    l.tokens.1 =
      match l.next.1 with
      | .error e => .error e
      | .ok t =>
          if t.kind = .endOfText then .ok [t]
          else l.next.2.tokens.1.map (t :: ·) := by
  rw [tokens]
  split
  · rename_i e l' hPair
    rw [hPair]
  · rename_i t l' hPair
    by_cases hKind : t.kind = .endOfText
    · rw [dif_pos hKind, hPair]
      exact (if_pos hKind).symm
    · rw [dif_neg hKind]
      dsimp only
      rw [hPair]
      dsimp only
      rw [if_neg hKind]
      split
      · rename_i hTokens
        rw [hTokens]
        rfl
      · rename_i hTokens
        rw [hTokens]
        rfl

theorem tokens_of_next
    {l : Lexer}
    {t : Token}
    (hNext : l.next.1 = .ok t)
    (hKind : t.kind ≠ .endOfText) :
    l.tokens.1 = l.next.2.tokens.1.map (t :: ·) := by
  rw [tokens_eq, hNext]
  exact if_neg hKind

end Offside.Lexer

namespace Offside

/- A reading is what a lexer reads, up to locations. -/
theorem Reading.tokens
    {lineStart : Bool}
    {text : List Char}
    {ts : List Token}
    (hReading : Reading lineStart text ts)
    {l : Lexer}
    (hAt : l.At lineStart text) :
    ∃ located,
      l.tokens.1 = .ok located ∧
      located.map Token.unlocated = ts := by
  induction hReading generalizing l with
  | finish hShape =>
      have hNext := hAt.next_eq
      rw [Lexeme.content, hShape] at hNext
      refine ⟨[⟨.endOfText, .text "", l.next.2.location⟩], ?_, rfl⟩
      rw [Lexer.tokens_eq, hNext]
      rfl
  | @cons _ _ kind value _ hContent hKind hRest ih =>
      have hNext := hAt.next_eq
      rw [hContent] at hNext
      rcases ih hAt.next with ⟨located, hTokens, hUnlocated⟩
      refine ⟨⟨kind, value, l.next.2.location⟩ :: located, ?_, ?_⟩
      · rw [Lexer.tokens_of_next hNext hKind, hTokens]
        rfl
      · rw [List.map_cons, hUnlocated]
        rfl

/- What a lexer reads is a reading. -/
theorem Lexer.At.reading
    {l : Lexer}
    {lineStart : Bool}
    {text : List Char}
    (hAt : l.At lineStart text)
    {located : List Token}
    (hTokens : l.tokens.1 = .ok located) :
    Reading lineStart text (located.map Token.unlocated) := by
  induction located generalizing l lineStart text with
  | nil =>
      rw [tokens_eq] at hTokens
      split at hTokens
      · cases hTokens
      · split_ifs at hTokens
        · cases hTokens
        · cases hRest : l.next.2.tokens.1 with
          | error e => rw [hRest] at hTokens; cases hTokens
          | ok ts => rw [hRest] at hTokens; cases hTokens
  | cons t ts ih =>
      rw [tokens_eq, hAt.next_eq] at hTokens
      cases hContent : (Lexeme.scan lineStart text).content with
      | error e =>
          rw [hContent] at hTokens
          cases hTokens
      | ok pair =>
          rcases pair with ⟨kind, value⟩
          rw [hContent] at hTokens
          by_cases hKind : kind = .endOfText
          · subst hKind
            have hShape := Lexeme.shape_eq_finish hContent
            rw [Lexeme.content, hShape] at hContent
            cases hContent
            cases hTokens
            exact .finish hShape
          · simp only [Except.map, hKind, if_false] at hTokens
            cases hRest : l.next.2.tokens.1 with
            | error e =>
                rw [hRest] at hTokens
                cases hTokens
            | ok us =>
                rw [hRest] at hTokens
                cases hTokens
                exact .cons hContent hKind (ih hAt.next hRest)

end Offside

------------------------------------------------------------
-- Gaps
------------------------------------------------------------

namespace Offside.Reading

/- One more character in the gap before it changes no lexeme. -/
theorem scan_cons
    {b c : Bool}
    {text text' : List Char}
    {d : Char}
    (hSkip :
      Gap.skip false c 0 text' =
        (Gap.skip false b 0 text).cons d) :
    Lexeme.scan c text' =
      { Lexeme.scan b text with
        gap := d :: (Lexeme.scan b text).gap } := by
  rw [Lexeme.scan_eq_ofGap, hSkip, Gap.cons, Lexeme.ofGap_skipped,
    Lexeme.scan_eq_ofGap, Lexeme.gap_ofGap]

theorem skipped
    {b c : Bool}
    {text text' : List Char}
    {ts : List Token}
    (hReading : Reading b text ts)
    {d : Char}
    (hSkip :
      Gap.skip false c 0 text' =
        (Gap.skip false b 0 text).cons d) :
    Reading c text' ts := by
  apply hReading.congr
  all_goals rw [scan_cons hSkip]

/- A line feed starts a line. -/
theorem lineFeed
    {text : List Char}
    {ts : List Token}
    (hReading : Reading true text ts)
    (lineStart : Bool) :
    Reading lineStart ('\n' :: text) ts := by
  have hBlank : Text.isBlank '\n' = true := by decide
  apply hReading.skipped (d := '\n')
  simp [Gap.skip, hBlank]

/- Blanks inside a line do not matter. -/
theorem blanks
    {text : List Char}
    {ts : List Token}
    (hReading : Reading false text ts)
    (n : Nat) :
    Reading false (List.replicate n ' ' ++ text) ts := by
  have hBlank : Text.isBlank ' ' = true := by decide
  induction n with
  | zero => exact hReading
  | succ n ih =>
      apply ih.skipped (d := ' ')
      simp [Gap.skip, hBlank, List.replicate_succ]

end Offside.Reading

------------------------------------------------------------
-- Texts in the Buffer
------------------------------------------------------------

namespace Offside

/- A text in the buffer is what is read. -/
theorem Input.unread_loadText
    {i : Input}
    (hBuffer : i.direct = false)
    (text : String) :
    (i.loadText text).unread = text.toList := by
  simp [unread, loadText, hBuffer, Buffer.ofText, Buffer.write,
    Buffer.empty, Buffer.unread]

namespace Scanner

/- All tokens of an input, from a reading of it. -/
theorem lex_of_reading
    {s : Scanner}
    {ts : List Token}
    (hReading : Reading true s.input.unread ts) :
    ∃ located s',
      s.lex = (.ok located, s') ∧
      located.map Token.unlocated = ts := by
  rcases
      hReading.tokens (Lexer.at_reset
        { s.lexer with unread := s.input.unread, reads := 0 }) with
    ⟨located, hTokens, hUnlocated⟩
  exact ⟨located, s.lex.2, Prod.ext hTokens rfl, hUnlocated⟩

/- The tokens of a text that is put into the buffer. -/
def lexText
    (s : Scanner)
    (text : String) :
    Except MalformedNumber (List Token) :=
  (lex { s with input := s.input.loadText text }).1

/- They are those of a new lexer on the text. -/
theorem lexText_eq
    {s : Scanner}
    (hBuffer : s.input.direct = false)
    (text : String) :
    s.lexText text = (Lexer.start text.toList).tokens.1 := by
  have hUnread := Input.unread_loadText hBuffer text
  unfold lexText lex run
  dsimp only
  rw [hUnread]
  rfl

/- They are located tokens of the reading of the text. -/
theorem exists_lexText_eq_ok_iff
    {s : Scanner}
    (hBuffer : s.input.direct = false)
    (text : String)
    (ts : List Token) :
    (∃ located,
      s.lexText text = .ok located ∧
      located.map Token.unlocated = ts) ↔
    Reading true text.toList ts := by
  have hAt : (Lexer.start text.toList).At true text.toList :=
    Lexer.at_reset (Lexer.start text.toList)
  rw [lexText_eq hBuffer]
  constructor
  · rintro ⟨located, hTokens, rfl⟩
    exact hAt.reading hTokens
  · intro hReading
    exact hReading.tokens hAt

end Scanner

end Offside
