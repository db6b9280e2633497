import Mathlib
import Offside.Proofs.Program.Files
import Offside.Proofs.Token.Codeless

/-
  Loading a program: a file is put into the buffer with an empty
  line after each of its lines, and has the tokens of its text.

  Key definitions include:
    * `Offside.Text.IsBlankRun`
    * `Offside.Text.Hangs`
    * `Offside.Text.Closes`

  Main statements:
    * `Offside.Gap.skip_spaceLines`,
      `Offside.Lexeme.scan_spaceLines`: the empty lines belong to
      the gaps and change no lexeme.
    * `Offside.Lexer.tokens_congr`: lexers that read the same
      lexemes give the same tokens or the same error.
    * `Offside.Reader.lexFile_eq_lexText`
-/

------------------------------------------------------------
-- Last Lines
------------------------------------------------------------

namespace Offside.Text

variable {text : List Char}

/- White space within one line. -/
def IsBlankRun
    (text : List Char) :
    Prop :=
  ∀ c ∈ text, isBlank c = true ∧ c ≠ '\n'

/-
  The last line of a text, after others, is white space that no
  line feed ends.
-/
def Hangs
    (text : List Char) :
    Prop :=
  ∃ before blanks,
    text = before ++ '\n' :: blanks ∧
    blanks ≠ [] ∧
    IsBlankRun blanks

/- The same does not hold, also of the only line of the text. -/
structure Closes
    (lineStart : Bool)
    (text : List Char) :
    Prop where
  others : ¬Hangs text
  only : lineStart = true → text ≠ [] → ¬IsBlankRun text

theorem Hangs.append_left
    (hHangs : Hangs text)
    (before : List Char) :
    Hangs (before ++ text) := by
  rcases hHangs with ⟨first, blanks, rfl, hSome, hBlanks⟩
  exact ⟨before ++ first, blanks, by simp, hSome, hBlanks⟩

theorem Hangs.cons
    (hHangs : Hangs text)
    (c : Char) :
    Hangs (c :: text) :=
  hHangs.append_left [c]

/- The lines of a text after one of its line feeds. -/
theorem lines_append_lineFeed
    (a b : List Char) :
    lines (a ++ '\n' :: b) = lines (a ++ ['\n']) ++ lines b := by
  induction a with
  | nil => simp [lines]
  | cons c a ih =>
      simp only [List.cons_append, lines]
      split_ifs
      · rw [ih, List.cons_append]
      · rw [ih]
        have hSome : lines (a ++ ['\n']) ≠ [] := by
          cases a with
          | nil => simp [lines]
          | cons d a =>
              simp only [List.cons_append, lines]
              split_ifs
              · exact List.cons_ne_nil _ _
              · split <;> exact List.cons_ne_nil _ _
        rcases List.exists_cons_of_ne_nil hSome with
          ⟨line, others, hLines⟩
        rw [hLines]
        rfl

/- What the last of the lines says. -/
theorem closes_of_getLast?
    (hLast : ∀ line, (lines text).getLast? = some line →
      '\n' ∉ line → ∃ c ∈ line, isBlank c = false) :
    Closes true text := by
  have hRun : ∀ blanks, IsBlankRun blanks → blanks ≠ [] →
      (lines text).getLast? ≠ some blanks := by
    intro blanks hBlanks _ hLine
    have hFeed : '\n' ∉ blanks := fun hMem => (hBlanks _ hMem).2 rfl
    rcases hLast blanks hLine hFeed with ⟨c, hMem, hBlank⟩
    rw [(hBlanks c hMem).1] at hBlank
    cases hBlank
  constructor
  · rintro ⟨before, blanks, rfl, hSome, hBlanks⟩
    have hFeed : '\n' ∉ blanks := fun hMem => (hBlanks _ hMem).2 rfl
    apply hRun blanks hBlanks hSome
    rw [lines_append_lineFeed, lines_of_notMem hFeed hSome]
    simp
  · intro _ hSome hBlanks
    have hFeed : '\n' ∉ text := fun hMem => (hBlanks _ hMem).2 rfl
    apply hRun text hBlanks hSome
    rw [lines_of_notMem hFeed hSome]
    rfl

end Offside.Text

------------------------------------------------------------
-- Gaps
------------------------------------------------------------

namespace Offside.Gap

variable {inComment lineStart : Bool}
variable {indent : Nat}
variable {text : List Char}

/-
  An indentation at the end of a text is white space on its last
  line, or goes on with what was counted before.
-/
theorem hangs_of_rest_eq_nil
    (hRest : (skip inComment lineStart indent text).rest = [])
    (hIndent : (skip inComment lineStart indent text).indent ≠ 0) :
    Text.Hangs text ∨
      Text.IsBlankRun text ∧
        (indent ≠ 0 ∨ lineStart = true ∧ text ≠ []) := by
  -- After a line feed the count starts anew.
  have hFeed : ∀ {cs : List Char},
      (Text.Hangs cs ∨
        Text.IsBlankRun cs ∧ ((0 : Nat) ≠ 0 ∨ true = true ∧ cs ≠ [])) →
        Text.Hangs ('\n' :: cs) := by
    rintro cs (hHangs | ⟨hBlanks, hZero | ⟨_, hSome⟩⟩)
    · exact hHangs.cons '\n'
    · exact absurd rfl hZero
    · exact ⟨[], cs, rfl, hSome, hBlanks⟩
  fun_induction skip inComment lineStart indent text with
  | case1 inComment lineStart indent =>
      exact .inr ⟨fun c hMem => absurd hMem List.not_mem_nil, .inl hIndent⟩
  | case2 lineStart indent cs ih =>
      exact .inl (hFeed (ih hRest hIndent))
  | case3 lineStart indent cs hOther ih =>
      rcases ih hRest hIndent with hHangs | ⟨_, hZero | ⟨hStart, _⟩⟩
      · exact .inl (hHangs.cons _)
      · exact absurd rfl hZero
      · cases hStart
  | case4 lineStart indent c cs hOther hReturn ih =>
      rcases ih hRest hIndent with hHangs | ⟨_, hZero | ⟨hStart, _⟩⟩
      · exact .inl (hHangs.cons c)
      · exact absurd rfl hZero
      · cases hStart
  | case5 inComment lineStart indent cs hOutside hBlank ih =>
      exact .inl (hFeed (ih hRest hIndent))
  | case6 inComment lineStart indent c cs hOutside hBlank hOther ih =>
      rcases ih hRest hIndent with hHangs | ⟨hBlanks, hCount⟩
      · exact .inl (hHangs.cons c)
      · refine .inr ⟨?_, ?_⟩
        · exact List.forall_mem_cons.mpr ⟨⟨hBlank, hOther⟩, hBlanks⟩
        · cases lineStart with
          | true => exact .inr ⟨rfl, List.cons_ne_nil _ _⟩
          | false =>
              rcases hCount with hCount | ⟨hStart, _⟩
              · exact .inl hCount
              · cases hStart
  | case7 inComment lineStart indent c cs hOutside hBlank hStart ih =>
      rcases ih hRest hIndent with hHangs | ⟨_, hZero | ⟨hLine, _⟩⟩
      · exact .inl (hHangs.cons c)
      · exact absurd rfl hZero
      · cases hLine
  | case8 inComment lineStart indent c cs hOutside hBlank hStart =>
      cases hRest

/- Where the text closes, nothing is left as an indentation. -/
theorem indent_eq_zero_of_closes
    (hCloses : Text.Closes lineStart text)
    (hRest : (skip false lineStart 0 text).rest = []) :
    (skip false lineStart 0 text).indent = 0 := by
  by_contra hIndent
  rcases hangs_of_rest_eq_nil hRest hIndent with
    hHangs | ⟨hBlanks, hZero | ⟨hStart, hSome⟩⟩
  · exact hCloses.others hHangs
  · exact hZero rfl
  · exact hCloses.only hStart hSome hBlanks

/-
  Empty lines are passed over with the gap: where something is
  left of the text, it is left at the same indentation.
-/
theorem skip_spaceLines
    (hRest : (skip inComment lineStart indent text).rest ≠ [])
    (inLine : Bool) :
    (skip inComment lineStart indent
        (Text.spaceLines inLine text)).indent =
      (skip inComment lineStart indent text).indent ∧
    (skip inComment lineStart indent
        (Text.spaceLines inLine text)).rest =
      Text.spaceLines true
        (skip inComment lineStart indent text).rest := by
  have hFeed : Text.isBlank '\n' = true := by decide
  fun_induction skip inComment lineStart indent text
    generalizing inLine with
  | case1 => exact absurd rfl hRest
  | case8 inComment lineStart indent c text hOutside hBlank hStart =>
      have hOther : c ≠ '\n' := by
        rintro rfl
        exact hBlank hFeed
      simp [Text.spaceLines, skip, hOther, hOutside, hBlank, hStart]
  | _ =>
      rename_i ih
      simp_all [Text.spaceLines, skip, cons]

/- Where nothing is left of it, the last empty line ends the count. -/
theorem skip_spaceLines_of_rest_eq_nil
    (hRest : (skip inComment lineStart indent text).rest = [])
    (inLine : Bool)
    (hCount : indent = 0 ∨ inLine = true) :
    (skip inComment lineStart indent
        (Text.spaceLines inLine text)).indent = 0 ∧
    (skip inComment lineStart indent
        (Text.spaceLines inLine text)).rest = [] := by
  have hFeed : Text.isBlank '\n' = true := by decide
  fun_induction skip inComment lineStart indent text
    generalizing inLine with
  | case1 inComment lineStart indent =>
      cases inLine with
      | false => simpa [Text.spaceLines, skip] using hCount
      | true =>
          cases inComment <;> simp [Text.spaceLines, skip, hFeed, cons]
  | case8 => cases hRest
  | _ =>
      rename_i ih
      simp_all [Text.spaceLines, skip, cons]

end Offside.Gap

------------------------------------------------------------
-- Lexemes
------------------------------------------------------------

namespace Offside.Text

variable {p : Char → Bool}

/- A run of characters that has no line feed ends where it did. -/
theorem takeWhile_spaceLines
    (hFeed : p '\n' = false)
    (text : List Char) :
    (spaceLines true text).takeWhile p = text.takeWhile p := by
  induction text with
  | nil => simp [spaceLines, hFeed]
  | cons c text ih =>
      by_cases hLine : c = '\n'
      · subst hLine
        simp [spaceLines, hFeed]
      · rw [spaceLines, if_neg hLine, List.takeWhile_cons,
          List.takeWhile_cons, ih]

theorem dropWhile_spaceLines
    (hFeed : p '\n' = false)
    (text : List Char) :
    (spaceLines true text).dropWhile p =
      spaceLines true (text.dropWhile p) := by
  induction text with
  | nil => simp [spaceLines, hFeed]
  | cons c text ih =>
      by_cases hLine : c = '\n'
      · subst hLine
        simp [spaceLines, hFeed]
      · rw [spaceLines, if_neg hLine, List.dropWhile_cons,
          List.dropWhile_cons, ih]
        split_ifs
        · rfl
        · rw [spaceLines, if_neg hLine]

/- Without returns there are only line feeds. -/
theorem unifyLineBreaks_of_notMem
    {text : List Char}
    (hReturn : '\r' ∉ text) :
    unifyLineBreaks text = text := by
  fun_induction unifyLineBreaks text with
  | case1 => rfl
  | case2 => exact absurd List.mem_cons_self hReturn
  | case3 => exact absurd List.mem_cons_self hReturn
  | case4 c text _ _ ih =>
      rw [ih (List.not_mem_of_not_mem_cons hReturn)]

end Offside.Text

namespace Offside.Lexeme

variable {gap gap' : Gap}

/-
  The lexeme after a gap is the same if there are empty lines in
  what is left of the text.
-/
theorem ofGap_spaceLines
    (hIndent : gap'.indent = gap.indent)
    (hRest : gap'.rest = Text.spaceLines true gap.rest)
    (hSome : gap.rest ≠ [])
    (hBlank : ∀ c ∈ gap.rest.head?, Text.isBlank c = false) :
    (ofGap gap').shape = (ofGap gap).shape ∧
    (ofGap gap').chars = (ofGap gap).chars ∧
    (ofGap gap').rest = Text.spaceLines true (ofGap gap).rest := by
  have hWord : continuesWord '\n' = false := by decide
  have hNumeral : isNumeral '\n' = false := by decide
  unfold ofGap
  rw [hIndent]
  by_cases hZero : gap.indent ≠ 0
  · rw [if_pos hZero, if_pos hZero]
    exact ⟨rfl, rfl, hRest⟩
  · rw [if_neg hZero, if_neg hZero]
    rcases List.exists_cons_of_ne_nil hSome with ⟨c, cs, hCons⟩
    have hLine : c ≠ '\n' := by
      rintro rfl
      have hFeed := hBlank '\n' (by rw [hCons]; rfl)
      revert hFeed
      decide
    rw [hRest, hCons, Text.spaceLines, if_neg hLine]
    dsimp only
    split_ifs
    · exact ⟨rfl,
        congrArg (c :: ·) (Text.takeWhile_spaceLines hWord cs),
        Text.dropWhile_spaceLines hWord cs⟩
    · have hRow : c :: Text.spaceLines true cs =
          Text.spaceLines true (c :: cs) := by
        rw [Text.spaceLines, if_neg hLine]
      rw [hRow]
      exact ⟨rfl, Text.takeWhile_spaceLines hNumeral _,
        Text.dropWhile_spaceLines hNumeral _⟩
    · exact ⟨rfl, rfl, rfl⟩

/- Where something is left after the gap, so is the same lexeme. -/
theorem scan_spaceLines_of_ne_nil
    {lineStart : Bool}
    {text : List Char}
    (hRest : (Gap.skip false lineStart 0 text).rest ≠ [])
    (inLine : Bool) :
    (scan lineStart (Text.spaceLines inLine text)).shape =
      (scan lineStart text).shape ∧
    (scan lineStart (Text.spaceLines inLine text)).chars =
      (scan lineStart text).chars ∧
    (scan lineStart (Text.spaceLines inLine text)).rest =
      Text.spaceLines true (scan lineStart text).rest := by
  rcases Gap.skip_spaceLines hRest inLine with ⟨hIndent', hRest'⟩
  have hBlank : ∀ c ∈ (Gap.skip false lineStart 0 text).rest.head?,
      Text.isBlank c = false := by
    intro c hHead
    rcases List.exists_cons_of_ne_nil hRest with ⟨d, cs, hCons⟩
    rw [hCons] at hHead
    cases hHead
    exact (Gap.rest_skip hCons).1
  rw [scan_eq_ofGap, scan_eq_ofGap]
  exact ofGap_spaceLines hIndent' hRest' hRest hBlank

/- The next lexeme of a text with empty lines in it. -/
theorem scan_spaceLines
    {lineStart : Bool}
    {text : List Char}
    (hCloses : Text.Closes lineStart text)
    (inLine : Bool) :
    (scan lineStart (Text.spaceLines inLine text)).shape =
      (scan lineStart text).shape ∧
    (scan lineStart (Text.spaceLines inLine text)).chars =
      (scan lineStart text).chars ∧
    ((scan lineStart text).shape ≠ .finish →
      (scan lineStart (Text.spaceLines inLine text)).rest =
        Text.spaceLines true (scan lineStart text).rest) := by
  rw [scan_eq_ofGap, scan_eq_ofGap]
  by_cases hRest : (Gap.skip false lineStart 0 text).rest = []
  · -- Both texts are at their ends.
    have hIndent := Gap.indent_eq_zero_of_closes hCloses hRest
    rcases Gap.skip_spaceLines_of_rest_eq_nil hRest inLine (.inl rfl)
      with ⟨hIndent', hRest'⟩
    simp [ofGap, hIndent, hRest, hIndent', hRest']
  · rw [← scan_eq_ofGap, ← scan_eq_ofGap]
    rcases scan_spaceLines_of_ne_nil hRest inLine with
      ⟨hShape, hChars, hLeft⟩
    exact ⟨hShape, hChars, fun _ => hLeft⟩

/- What is left after a lexeme closes as the text does. -/
theorem closes_rest_scan
    {lineStart : Bool}
    {text : List Char}
    (hCloses : Text.Closes lineStart text) :
    Text.Closes false (scan lineStart text).rest := by
  constructor
  · intro hHangs
    apply hCloses.others
    rw [← scan_append lineStart text]
    exact (hHangs.append_left _).append_left _
  · intro hStart
    cases hStart

end Offside.Lexeme

------------------------------------------------------------
-- Tokens
------------------------------------------------------------

namespace Offside.Lexer

theorem map_unlocated_cons
    {ε : Type}
    (t : Token)
    (tokens : Except ε (List Token)) :
    (tokens.map (t :: ·)).map (List.map Token.unlocated) =
      (tokens.map (List.map Token.unlocated)).map (t.unlocated :: ·) := by
  cases tokens <;> rfl

/-
  Lexers that read the same lexemes, one after the other, give
  the same tokens but for their locations, or the same error.
-/
theorem tokens_congr
    {R : Bool → List Char → List Char → Prop}
    (hStep : ∀ {lineStart text text'}, R lineStart text text' →
      (Lexeme.scan lineStart text').shape =
        (Lexeme.scan lineStart text).shape ∧
      (Lexeme.scan lineStart text').chars =
        (Lexeme.scan lineStart text).chars ∧
      ((Lexeme.scan lineStart text).shape ≠ .finish →
        R false (Lexeme.scan lineStart text).rest
          (Lexeme.scan lineStart text').rest))
    {lineStart : Bool}
    {text text' : List Char}
    (hText : R lineStart text text')
    {l l' : Lexer}
    (hAt : l.At lineStart text)
    (hAt' : l'.At lineStart text') :
    l'.tokens.1.map (List.map Token.unlocated) =
      l.tokens.1.map (List.map Token.unlocated) := by
  induction hLength : l.view.length using Nat.strong_induction_on
    generalizing lineStart text text' l l' with
  | _ length ih =>
      rcases hStep hText with ⟨hShape, hChars, hRest⟩
      have hNext := hAt.next_eq
      have hNext' := hAt'.next_eq
      have hContent : (Lexeme.scan lineStart text').content =
          (Lexeme.scan lineStart text).content := by
        unfold Lexeme.content
        rw [hShape, hChars]
      rw [hContent] at hNext'
      rcases hKind : (Lexeme.scan lineStart text).content with
        e | ⟨kind, value⟩
      · rw [hKind] at hNext hNext'
        rw [tokens_eq l, hNext, tokens_eq l', hNext']
        rfl
      · rw [hKind] at hNext hNext'
        by_cases hEnd : kind = .endOfText
        · rw [tokens_eq l, hNext, tokens_eq l', hNext']
          simp only [Except.map, hEnd, if_true]
          rfl
        · have hMore := Lexeme.shape_ne_finish hKind hEnd
          have hLess := view_next_lt hNext hEnd
          have hTail := ih _ (hLength ▸ hLess) (hRest hMore)
            hAt.next hAt'.next rfl
          rw [tokens_of_next hNext hEnd, tokens_of_next hNext' hEnd,
            map_unlocated_cons, map_unlocated_cons, hTail]
          rfl

end Offside.Lexer

------------------------------------------------------------
-- Files and Texts
------------------------------------------------------------

namespace Offside.Reader

/- What is read from a file without returns. -/
theorem lexFile_fst
    {r : Reader}
    (hBuffer : r.scanner.input.direct = false)
    {folder : Folder}
    {path text : String}
    (hFile : folder.read path = .ok text.toUTF8)
    (hReturn : '\r' ∉ text.toList) :
    (r.lexFile folder path).1 =
      (Lexer.start (Text.spaceLines false text.toList)).tokens.1.mapError
        Failure.lexing := by
  unfold lexFile loadFile
  rw [Input.loadFile_of_read hFile,
    Text.unifyLineBreaks_of_notMem hReturn]
  dsimp only
  rw [lex_fst]
  have hText := Scanner.lexText_eq hBuffer
    (String.ofList (Text.spaceLines false text.toList))
  rw [String.toList_ofList] at hText
  exact congrArg _ hText

/-
  A file that has no returns, and whose last line is not white
  space without a line feed, is read as its text is: the same
  tokens but for their locations, or the same error.
-/
theorem lexFile_eq_lexText
    (r : Reader)
    (hBuffer : r.scanner.input.direct = false)
    (s : Scanner)
    (hDirect : s.input.direct = false)
    (folder : Folder)
    (path text : String)
    (hFile : folder.read path = .ok text.toUTF8)
    (hReturn : '\r' ∉ text.toList)
    (hLast : ∀ line, (Text.lines text.toList).getLast? = some line →
      '\n' ∉ line → ∃ c ∈ line, Text.isBlank c = false) :
    (r.lexFile folder path).1.map (List.map Token.unlocated) =
      ((s.lexText text).map (List.map Token.unlocated)).mapError
        Failure.lexing := by
  have hCloses := Text.closes_of_getLast? hLast
  have hTokens := Lexer.tokens_congr
    (R := fun lineStart text text' =>
      Text.Closes lineStart text ∧
      ∃ inLine, text' = Text.spaceLines inLine text)
    (by
      rintro lineStart text _ ⟨hText, inLine, rfl⟩
      rcases Lexeme.scan_spaceLines hText inLine with
        ⟨hShape, hChars, hRest⟩
      exact ⟨hShape, hChars, fun hMore =>
        ⟨Lexeme.closes_rest_scan hText, true, hRest hMore⟩⟩)
    ⟨hCloses, false, rfl⟩
    (Lexer.at_reset (Lexer.start text.toList))
    (Lexer.at_reset (Lexer.start
      (Text.spaceLines false text.toList)))
  rw [lexFile_fst hBuffer hFile hReturn, Scanner.lexText_eq hDirect]
  calc ((Lexer.start (Text.spaceLines false text.toList)).tokens.1.mapError
        Failure.lexing).map (List.map Token.unlocated)
      = ((Lexer.start (Text.spaceLines false text.toList)).tokens.1.map
          (List.map Token.unlocated)).mapError Failure.lexing := by
        cases (Lexer.start (Text.spaceLines false text.toList)).tokens.1 <;>
          rfl
    _ = ((Lexer.start text.toList).tokens.1.map
          (List.map Token.unlocated)).mapError Failure.lexing :=
        congrArg _ hTokens

/- A comment, an empty line and a last line that no line feed ends. -/
def spacedText : String :=
  "if x: # a\n\n  1\n # b"

def spacedFolder : Folder where
  files := [(["p"], spacedText.toUTF8)]
  folders := []

theorem lexFile_eq_lexText_sample :
    spacedFolder.read "p" = .ok spacedText.toUTF8 ∧
    '\r' ∉ spacedText.toList ∧
    (∀ line, (Text.lines spacedText.toList).getLast? = some line →
      '\n' ∉ line → ∃ c ∈ line, Text.isBlank c = false) ∧
    ((ofInput Input.empty).lexFile spacedFolder "p").1.map
        (List.map Token.unlocated) =
      (((Scanner.ofInput Input.empty).lexText spacedText).map
        (List.map Token.unlocated)).mapError Failure.lexing := by
  have hFile : spacedFolder.read "p" = .ok spacedText.toUTF8 := by
    cbv
  have hReturn : '\r' ∉ spacedText.toList := by
    decide
  have hLast : ∀ line,
      (Text.lines spacedText.toList).getLast? = some line →
        '\n' ∉ line → ∃ c ∈ line, Text.isBlank c = false := by
    intro line hLine _
    have hComment :
        (Text.lines spacedText.toList).getLast? =
          some [' ', '#', ' ', 'b'] := by
      decide
    rw [hComment] at hLine
    cases hLine
    exact ⟨'#', by simp, by decide⟩
  exact ⟨hFile, hReturn, hLast,
    lexFile_eq_lexText (ofInput Input.empty) rfl
      (Scanner.ofInput Input.empty) rfl spacedFolder "p" spacedText
      hFile hReturn hLast⟩

end Offside.Reader
