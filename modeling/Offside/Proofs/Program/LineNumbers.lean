import Mathlib
import Offside.Proofs.Program.Loading
import Offside.Proofs.Token.Occurrence

/-
  Line numbers: which line the tokens of a file are said to be on.

  Key definitions include:
    * `Offside.Occurrence.EndsLine`

  Main statements:
    * `Offside.Text.breaks_spaceLines_append`: how many line breaks
      of the buffer belong to a part of the file.
    * `Offside.Lexer.At.occurs_spaceLines`: the tokens of the buffer
      occur in the file, on lines counted twice.
    * `Offside.Reader.lexFile_lines`
-/

------------------------------------------------------------
-- Line Breaks of Files
------------------------------------------------------------

namespace Offside

namespace Text

variable {text : List Char}

/- Without returns the line breaks are the line feeds. -/
theorem breaks_eq_count
    (hReturn : '\r' ∉ text) :
    breaks text = text.count '\n' := by
  unfold breaks List.count
  apply List.countP_congr
  intro c hMem
  have hOther : c ≠ '\r' := by
    rintro rfl
    exact hReturn hMem
  simp [hOther]

/- Inside a line, each line feed before it is in the buffer twice. -/
theorem breaks_spaceLines_append
    {before chars : List Char}
    (hReturn : '\r' ∉ before ++ chars)
    (hSome : chars ≠ [])
    (hFeed : '\n' ∉ chars)
    (inLine : Bool)
    (after : List Char) :
    breaks (spaceLines inLine (before ++ (chars ++ after))) =
      2 * breaks before + breaks (spaceLines true after) := by
  induction before generalizing inLine with
  | nil =>
      induction chars generalizing inLine with
      | nil => exact absurd rfl hSome
      | cons c chars ih =>
          rw [List.nil_append] at hReturn ih ⊢
          rw [List.mem_cons, not_or] at hReturn hFeed
          have hBreak : breaks (c :: spaceLines true (chars ++ after)) =
              breaks (spaceLines true (chars ++ after)) := by
            simp [breaks, Ne.symm hReturn.1, Ne.symm hFeed.1]
          rw [List.cons_append, spaceLines, if_neg (Ne.symm hFeed.1), hBreak]
          cases chars with
          | nil => rw [List.nil_append, breaks, breaks, List.countP_nil,
              Nat.mul_zero, Nat.zero_add]
          | cons d chars =>
              exact ih (List.cons_ne_nil _ _) hFeed.2 hReturn.2 true
  | cons c before ih =>
      rw [List.cons_append, List.mem_cons, not_or] at hReturn
      rw [List.cons_append, spaceLines]
      by_cases hLine : c = '\n'
      · subst hLine
        have hMore := ih hReturn.2 false
        simp only [breaks] at hMore ⊢
        simp only [if_true, List.countP_cons, hMore, decide_true]
        omega
      · have hMore := ih hReturn.2 true
        simp only [breaks] at hMore ⊢
        simp [hLine, Ne.symm hReturn.1, hMore]

/- The line breaks of the buffer, before a lexeme and after it. -/
theorem breaks_spaceLines_step
    {before gap chars after : List Char}
    (hReturn : '\r' ∉ before ++ (gap ++ (chars ++ after)))
    (hSome : chars ≠ [])
    (hFeed : '\n' ∉ chars)
    (inLine : Bool) :
    2 * breaks before +
        breaks (spaceLines inLine (gap ++ (chars ++ after))) =
      2 * breaks (before ++ gap) + breaks (spaceLines true after) ∧
    breaks (before ++ gap ++ chars) = breaks (before ++ gap) := by
  simp only [List.mem_append, not_or] at hReturn
  rcases hReturn with ⟨_, hGap, hChars, _⟩
  constructor
  · have hBoth : '\r' ∉ gap ++ chars := by
      simp [hGap, hChars]
    rw [breaks_spaceLines_append hBoth hSome hFeed, breaks_append]
    omega
  · rw [breaks_append, breaks_eq_count hChars,
      List.count_eq_zero.mpr hFeed, Nat.add_zero]

end Text

namespace Occurrence

/- Whether nothing more stands on the line of a token. -/
def EndsLine
    (x : Occurrence) :
    Prop :=
  x.after = [] ∨ x.after.head? = some '\n'

instance
    (x : Occurrence) :
    Decidable x.EndsLine :=
  inferInstanceAs (Decidable (_ ∨ _))

/- The first character after a token is a line feed at the line's end. -/
theorem breaks_tail_spaceLines
    (x : Occurrence)
    (hReturn : '\r' ∉ x.after) :
    Text.breaks (Text.spaceLines true x.after) =
      Text.breaks (Text.spaceLines true x.after).tail +
        if x.EndsLine then 1 else 0 := by
  rcases x with ⟨t, before, chars, _ | ⟨c, after⟩⟩
  · simp [EndsLine, Text.spaceLines, Text.breaks]
  · rw [List.mem_cons, not_or] at hReturn
    by_cases hLine : c = '\n'
    · simp [EndsLine, Text.spaceLines, Text.breaks, hLine]
    · simp [EndsLine, Text.spaceLines, Text.breaks, hLine,
        Ne.symm hReturn.1]

end Occurrence

end Offside

------------------------------------------------------------
-- Tokens of the Buffer
------------------------------------------------------------

namespace Offside

namespace Lexeme

/-
  The next lexeme of the buffer: there is none after the last one
  of the file, and otherwise it is that of the file.
-/
theorem scan_spaceLines_cases
    (lineStart inLine : Bool)
    (text : List Char) :
    IsGap [] text ∧
      (scan lineStart (Text.spaceLines inLine text)).shape = .finish ∨
    (scan lineStart (Text.spaceLines inLine text)).content =
        (scan lineStart text).content ∧
      (scan lineStart (Text.spaceLines inLine text)).rest =
        Text.spaceLines true (scan lineStart text).rest := by
  by_cases hRest : (Gap.skip false lineStart 0 text).rest = []
  · -- White space at the very end is no indentation of the buffer.
    left
    constructor
    · have hGap := Gap.isGap_skip false lineStart 0 text
      have hText := Gap.skipped_append_rest false lineStart 0 text
      rw [hRest] at hGap hText
      rw [List.append_nil] at hText
      rwa [hText] at hGap
    · rcases Gap.skip_spaceLines_of_rest_eq_nil hRest inLine (.inl rfl)
        with ⟨hIndent, hLeft⟩
      simp [scan_eq_ofGap, ofGap, hIndent, hLeft]
  · right
    rcases scan_spaceLines_of_ne_nil hRest inLine with
      ⟨hShape, hChars, hLeft⟩
    refine ⟨?_, hLeft⟩
    unfold content
    rw [hShape, hChars]

end Lexeme

namespace Lexer

/- What a lexer has not read is all but the character at hand. -/
theorem unread_next
    (l : Lexer) :
    l.next.2.unread = l.next.2.view.tail := by
  have hAhead := l.ahead_next
  unfold view at hAhead ⊢
  cases hCase : l.next.2.ahead with
  | some c => rfl
  | none =>
      rw [hCase] at hAhead
      have hUnread : l.next.2.unread = [] := by
        simpa using hAhead.symm
      simp [hUnread]

/-
  The tokens that are read from the buffer occur in the file.  Their
  lines are those of the buffer after one more character; the line
  breaks before them and ahead of the lexer make up the same number
  at every step.
-/
theorem At.occurs_spaceLines
    {l : Lexer}
    {lineStart inLine : Bool}
    {before text : List Char}
    (hAt : l.At lineStart (Text.spaceLines inLine text))
    (hStart : lineStart = true → before = [])
    (hReturn : '\r' ∉ before ++ text)
    (hTracks : l.Tracks (2 * Text.breaks before +
      Text.breaks (Text.spaceLines inLine text)))
    {ts : List Token}
    (hTokens : l.tokens.1 = .ok ts) :
    ∃ xs final,
      ts = xs.map Occurrence.token ++ [final] ∧
      final.kind = .endOfText ∧
      Occurs before text xs ∧
      ∀ x ∈ xs,
        x.token.location.line =
          2 * Text.breaks x.before + if x.EndsLine then 1 else 0 := by
  induction ts generalizing l lineStart inLine before text with
  | nil => exact absurd rfl (tokens_ne_nil hTokens)
  | cons t ts ih =>
      rcases tokens_eq_ok hTokens with ⟨u, hNext, hRest⟩
      have hContent := hAt.content_of_next hNext
      have hCases := Lexeme.scan_spaceLines_cases lineStart inLine text
      rcases hRest with ⟨hKind, hLast⟩ | ⟨hKind, us, hMore, hCons⟩
      · cases hLast
        refine ⟨[], t, rfl, hKind, .last ?_, List.forall_mem_nil _⟩
        rcases hCases with ⟨hGap, _⟩ | ⟨hSame, _⟩
        · exact hGap
        · rw [hSame, hKind] at hContent
          exact Lexeme.isGap_of_content hContent
      · cases hCons
        rcases hCases with ⟨_, hFinish⟩ | ⟨hEqual, hLeft⟩
        · exact absurd hFinish (Lexeme.shape_ne_finish hContent hKind)
        rw [hEqual] at hContent
        rcases Lexeme.exists_fits_scan hStart hContent hKind with
          ⟨gap, chars, hText, hWidth, hGap, hFits⟩
        have hNextAt := hAt.next
        rw [hLeft] at hNextAt
        have hUnread := l.unread_next
        rw [hNextAt.view] at hUnread
        have hLine := hTracks.next.lines
        rw [hUnread, ← location_of_next hNext] at hLine
        generalize (Lexeme.scan lineStart text).rest = after
          at hText hGap hFits hNextAt hLine
        subst hText
        rcases hFits.chars with ⟨hSome, hFeed⟩
        rcases Text.breaks_spaceLines_step hReturn hSome hFeed inLine with
          ⟨hBreaks, hSame⟩
        have hWhole : '\r' ∉ before ++ gap ++ chars ++ after := by
          rwa [List.append_assoc, List.append_assoc]
        have hNextTracks := hTracks.next
        rw [hBreaks] at hLine hNextTracks
        rw [← hSame] at hNextTracks
        rcases ih hNextAt (fun hFalse => by cases hFalse) hWhole
            hNextTracks hMore with
          ⟨xs, final, hTokens', hFinal, hOccurs, hLines⟩
        refine ⟨⟨t, before ++ gap, chars, after⟩ :: xs, final, ?_, hFinal,
          .cons hGap hFits hOccurs, List.forall_mem_cons.mpr ⟨?_, hLines⟩⟩
        · rw [hTokens']
          rfl
        · have hTail := Occurrence.breaks_tail_spaceLines
            ⟨t, before ++ gap, chars, after⟩
            (fun hMem => hWhole (List.mem_append_right _ hMem))
          dsimp only at hTail ⊢
          omega

end Lexer

end Offside

------------------------------------------------------------
-- Tokens of Files
------------------------------------------------------------

namespace Offside.Reader

/-
  The tokens of a file without returns, but for the last one, occur
  in it.  The line of a token is twice the number of line feeds
  before it, and one more at the end of a line.  So it is that
  number only on the first line, before something else on it.
-/
theorem lexFile_lines
    (r : Reader)
    (hBuffer : r.scanner.input.direct = false)
    (folder : Folder)
    (path text : String)
    (hFile : folder.read path = .ok text.toUTF8)
    (hReturn : '\r' ∉ text.toList)
    (ts : List Token)
    (hLex : (r.lexFile folder path).1 = .ok ts) :
    ∃ xs final,
      ts = xs.map Occurrence.token ++ [final] ∧
      final.kind = .endOfText ∧
      Occurs [] text.toList xs ∧
      ∀ x ∈ xs,
        x.token.location.line =
          2 * x.before.count '\n' + (if x.EndsLine then 1 else 0) ∧
        (x.token.location.line = x.before.count '\n' ↔
          x.before.count '\n' = 0 ∧ ¬x.EndsLine) := by
  rw [lexFile_fst hBuffer hFile hReturn] at hLex
  have hTokens :
      (Lexer.start (Text.spaceLines false text.toList)).tokens.1 =
        .ok ts := by
    cases hCase :
        (Lexer.start (Text.spaceLines false text.toList)).tokens.1 with
    | error e =>
        rw [hCase] at hLex
        cases hLex
    | ok us =>
        rw [hCase] at hLex
        cases hLex
        rfl
  have hAt : (Lexer.start (Text.spaceLines false text.toList)).At true
      (Text.spaceLines false text.toList) :=
    Lexer.at_reset (Lexer.start (Text.spaceLines false text.toList))
  have hStart : true = true → ([] : List Char) = [] := fun _ => rfl
  have hTracks := Lexer.tracks_start (Text.spaceLines false text.toList)
  rw [← Nat.zero_add (Text.breaks _)] at hTracks
  rcases hAt.occurs_spaceLines hStart hReturn hTracks hTokens with
    ⟨xs, final, hSplit, hFinal, hOccurs, hLines⟩
  refine ⟨xs, final, hSplit, hFinal, hOccurs, ?_⟩
  intro x hMem
  have hWhole := hOccurs.append_eq x hMem
  have hBefore : '\r' ∉ x.before := by
    intro hChar
    apply hReturn
    rw [List.nil_append] at hWhole
    rw [← hWhole]
    exact List.mem_append_left _ hChar
  have hLine := hLines x hMem
  rw [Text.breaks_eq_count hBefore] at hLine
  refine ⟨hLine, ?_⟩
  rw [hLine]
  split_ifs with hEnds
  · simp only [hEnds, not_true, and_false, iff_false]
    omega
  · simp only [hEnds, not_false_iff, and_true]
    omega

/- Two lines with one token each. -/
def pairText : String := "x\ny\n"

def pairFolder : Folder where
  files := [(["p"], pairText.toUTF8)]
  folders := []

/- They are said to be on the second and on the fourth line. -/
def pairTokens : List Token :=
  [⟨.identifier, .text "x", ⟨1, 0⟩⟩,
    ⟨.identifier, .text "y", ⟨3, 0⟩⟩,
    ⟨.endOfText, .text "", ⟨4, 1⟩⟩]

theorem lexFile_lines_sample :
    pairFolder.read "p" = .ok pairText.toUTF8 ∧
    '\r' ∉ pairText.toList ∧
    ((ofInput Input.empty).lexFile pairFolder "p").1 = .ok pairTokens ∧
    ∃ xs final,
      pairTokens = xs.map Occurrence.token ++ [final] ∧
      final.kind = .endOfText ∧
      Occurs [] pairText.toList xs ∧
      ∀ x ∈ xs,
        x.token.location.line =
          2 * x.before.count '\n' + (if x.EndsLine then 1 else 0) ∧
        (x.token.location.line = x.before.count '\n' ↔
          x.before.count '\n' = 0 ∧ ¬x.EndsLine) := by
  have hFile : pairFolder.read "p" = .ok pairText.toUTF8 := by
    cbv
  have hReturn : '\r' ∉ pairText.toList := by
    decide
  have hLex :
      ((ofInput Input.empty).lexFile pairFolder "p").1 = .ok pairTokens := by
    have hTokens :
        (Lexer.start (Text.spaceLines false pairText.toList)).tokens.1 =
          .ok pairTokens := by
      decide +kernel
    rw [lexFile_fst rfl hFile hReturn, hTokens]
    rfl
  exact ⟨hFile, hReturn, hLex,
    lexFile_lines (ofInput Input.empty) rfl pairFolder "p" pairText hFile
      hReturn pairTokens hLex⟩

end Offside.Reader
