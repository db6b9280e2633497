import Mathlib
import Offside.Proofs.Token.Joined

/-
  Lines without code: white space and comments on lines of their
  own, and what is left of them among the tokens.

  Key definitions include:
    * `Offside.Text.lines`
    * `Offside.Text.code`
    * `Offside.Text.isStray`

  Main statements:
    * `Offside.Reading.code`: without its lines that have no code
      a text has as many tokens less as there are stray ones
      among these lines.
    * `Offside.Scanner.lexText_code`: its tokens are the same if
      and only if there are no stray lines.
-/

------------------------------------------------------------
-- Lines
------------------------------------------------------------

namespace Offside.Text

/- The lines of a text, each with the line feed that ends it. -/
def lines :
    List Char →
    List (List Char)
  | [] => []
  | c :: cs =>
      if c = '\n' then [c] :: lines cs
      else
        match lines cs with
        | [] => [[c]]
        | line :: others => (c :: line) :: others

/- Whether a line has more than white space and a comment. -/
def hasCode
    (line : List Char) :
    Bool :=
  match line.dropWhile isBlank with
  | [] => false
  | c :: _ => c ≠ '#'

/- The text without the lines that have no code. -/
def code
    (text : List Char) :
    List Char :=
  ((lines text).filter hasCode).flatten

/-
  Whether a line has no code but an indentation: white space
  before a comment, or white space that no line feed ends.
-/
def isStray
    (line : List Char) :
    Bool :=
  match line.dropWhile isBlank with
  | [] => '\n' ∉ line
  | c :: _ => c = '#' && line.head? ≠ some '#'

variable {a b : List Char}

/- The first line of a text. -/
theorem lines_append
    (hLine : '\n' ∉ a)
    (b : List Char) :
    lines (a ++ '\n' :: b) = (a ++ ['\n']) :: lines b := by
  induction a with
  | nil => simp [lines]
  | cons c a ih =>
      rcases List.ne_and_not_mem_of_not_mem_cons hLine with
        ⟨hFeed, hMore⟩
      rw [List.cons_append, lines, if_neg hFeed.symm, ih hMore]
      rfl

/- The only line of a text. -/
theorem lines_of_notMem
    (hLine : '\n' ∉ a)
    (hSome : a ≠ []) :
    lines a = [a] := by
  induction a with
  | nil => exact absurd rfl hSome
  | cons c a ih =>
      rcases List.ne_and_not_mem_of_not_mem_cons hLine with
        ⟨hFeed, hMore⟩
      rw [lines, if_neg hFeed.symm]
      by_cases hNil : a = []
      · rw [hNil]
        rfl
      · rw [ih hMore hNil]

/- The code of a text is that of its first line and of the others. -/
theorem code_append
    (hLine : '\n' ∉ a)
    (b : List Char) :
    code (a ++ '\n' :: b) =
      if hasCode (a ++ ['\n']) then a ++ '\n' :: code b
      else code b := by
  rw [code, lines_append hLine, List.filter_cons]
  split_ifs
  · rw [List.flatten_cons, List.append_assoc]
    rfl
  · rfl

theorem countP_lines_append
    (hLine : '\n' ∉ a)
    (b : List Char) :
    (lines (a ++ '\n' :: b)).countP isStray =
      (lines b).countP isStray + (isStray (a ++ ['\n'])).toNat := by
  rw [lines_append hLine, List.countP_cons]
  cases isStray (a ++ ['\n']) <;> rfl

theorem code_of_notMem
    (hLine : '\n' ∉ a)
    (hSome : a ≠ []) :
    code a = if hasCode a then a else [] := by
  rw [code, lines_of_notMem hLine hSome, List.filter_cons]
  split_ifs
  · exact List.append_nil a
  · rfl

theorem countP_lines_of_notMem
    (hLine : '\n' ∉ a)
    (hSome : a ≠ []) :
    (lines a).countP isStray = (isStray a).toNat := by
  rw [lines_of_notMem hLine hSome, List.countP_singleton]
  cases isStray a <;> rfl

/- A line is white space, or white space before something else. -/
theorem blank_or_exists
    (line : List Char) :
    (∀ c ∈ line, isBlank c = true) ∨
      ∃ blanks c cs,
        line = blanks ++ c :: cs ∧
        (∀ d ∈ blanks, isBlank d = true) ∧
        isBlank c = false := by
  have hSplit := List.takeWhile_append_dropWhile (p := isBlank) (l := line)
  have hBlanks : ∀ d ∈ line.takeWhile isBlank, isBlank d = true :=
    fun d hMem => List.mem_takeWhile_imp hMem
  cases hRest : line.dropWhile isBlank with
  | nil =>
      left
      rw [hRest, List.append_nil] at hSplit
      rwa [hSplit] at hBlanks
  | cons c cs =>
      right
      rw [hRest] at hSplit
      refine ⟨_, c, cs, hSplit.symm, hBlanks, ?_⟩
      apply Lexeme.head?_dropWhile isBlank line
      rw [hRest]
      rfl

section Classes

variable {blanks : List Char}
variable (hBlanks : ∀ d ∈ blanks, isBlank d = true)
include hBlanks

theorem dropWhile_blanks :
    blanks.dropWhile isBlank = [] := by
  rwa [List.dropWhile_eq_nil_iff]

theorem hasCode_blanks :
    hasCode blanks = false := by
  rw [hasCode, dropWhile_blanks hBlanks]

theorem isStray_blanks :
    isStray blanks = decide ('\n' ∉ blanks) := by
  rw [isStray, dropWhile_blanks hBlanks]

variable {c : Char}
variable (hBlank : isBlank c = false)
include hBlank

theorem dropWhile_blanks_append
    (cs : List Char) :
    (blanks ++ c :: cs).dropWhile isBlank = c :: cs := by
  rw [List.dropWhile_append_of_pos hBlanks,
    List.dropWhile_cons_of_neg (by simp [hBlank])]

theorem hasCode_blanks_append
    (cs : List Char) :
    hasCode (blanks ++ c :: cs) = decide (c ≠ '#') := by
  rw [hasCode, dropWhile_blanks_append hBlanks hBlank]

/- A comment is stray when white space stands before it. -/
theorem isStray_blanks_append
    (cs : List Char) :
    isStray (blanks ++ c :: cs) =
      decide (c = '#' ∧ blanks ≠ []) := by
  rw [isStray, dropWhile_blanks_append hBlanks hBlank]
  cases blanks with
  | nil => simp
  | cons d blanks =>
      have hOther : d ≠ '#' := by
        intro hSame
        have hFirst := hBlanks d List.mem_cons_self
        rw [hSame] at hFirst
        revert hFirst
        decide
      simp [hOther]

end Classes

end Offside.Text

------------------------------------------------------------
-- Readings of Lines
------------------------------------------------------------

namespace Offside.Reading

variable {a b blanks : List Char}
variable {ts : List Token}

/- The token that white space at the start of a line leaves, if any. -/
def strays
    (blanks : List Char) :
    List Token :=
  if blanks = [] then []
  else
    [{ kind := .indent
       value := .amount (.whole blanks.length) }]

/- White space before a text that does not go on with it. -/
theorem scan_blanks_append
    (hBlanks : ∀ d ∈ blanks, Text.isBlank d = true ∧ d ≠ '\n')
    (hSome : blanks ≠ [])
    {rest : List Char}
    (hRest :
      Gap.skip false true blanks.length rest =
        ⟨blanks.length, [], rest⟩) :
    Lexeme.scan true (blanks ++ rest) =
      ⟨.indent blanks.length, blanks, [], rest⟩ := by
  have hWidth : blanks.length ≠ 0 := by simpa using hSome
  have hSkip :
      Gap.skip false true 0 (blanks ++ rest) =
        ⟨0 + blanks.length, blanks, rest⟩ := by
    apply Gap.skip_blanks hBlanks
    rwa [Nat.zero_add]
  rw [Nat.zero_add] at hSkip
  rw [Lexeme.scan_eq_ofGap, hSkip, Lexeme.ofGap, if_pos hWidth]

/- It leaves its token, if it is there. -/
theorem strays_append
    (hBlanks : ∀ d ∈ blanks, Text.isBlank d = true ∧ d ≠ '\n')
    {rest : List Char}
    (hRest :
      blanks ≠ [] →
        Gap.skip false true blanks.length rest =
          ⟨blanks.length, [], rest⟩)
    (hReading : ∀ lineStart, Reading lineStart rest ts) :
    Reading true (blanks ++ rest) (strays blanks ++ ts) := by
  unfold strays
  by_cases hNil : blanks = []
  · rw [if_pos hNil, hNil]
    exact hReading true
  · rw [if_neg hNil]
    have hScan := scan_blanks_append hBlanks hNil (hRest hNil)
    refine .cons ?_ (by decide) ?_
    · rw [hScan, Lexeme.content]
    · rw [hScan]
      exact hReading false

/- White space inside a line is no line feed. -/
theorem and_ne_of_notMem
    (hBlanks : ∀ d ∈ blanks, Text.isBlank d = true)
    {rest : List Char}
    (hLine : '\n' ∉ blanks ++ rest) :
    ∀ d ∈ blanks, Text.isBlank d = true ∧ d ≠ '\n' := by
  intro d hMem
  refine ⟨hBlanks d hMem, ?_⟩
  intro hSame
  exact hLine (List.mem_append_left rest (hSame ▸ hMem))

/- A line with white space only. -/
theorem blankLine
    (hBlanks : ∀ d ∈ blanks, Text.isBlank d = true)
    (hLine : '\n' ∉ blanks) :
    Reading true blanks (strays blanks ++ [Token.finish]) := by
  rw [← List.append_nil blanks] at hLine
  have hReading : Reading true (blanks ++ []) _ :=
    strays_append (and_ne_of_notMem hBlanks hLine)
      (fun _ => rfl) (fun _ => .finish rfl)
  rwa [List.append_nil] at hReading

/- A line with a comment only. -/
theorem commentLine
    (hBlanks : ∀ d ∈ blanks, Text.isBlank d = true)
    {body : List Char}
    (hLine : '\n' ∉ blanks ++ '#' :: body)
    (hReturn : '\r' ∉ blanks ++ '#' :: body) :
    Reading true (blanks ++ '#' :: body)
      (strays blanks ++ [Token.finish]) := by
  have hBlank : Text.isBlank '#' = false := by decide
  have hBody : ∀ c ∈ body, c ≠ '\n' ∧ c ≠ '\r' := by
    intro c hMem
    have hInside :=
      List.mem_append_right blanks (List.mem_cons_of_mem '#' hMem)
    constructor
    · intro hSame
      exact hLine (hSame ▸ hInside)
    · intro hSame
      exact hReturn (hSame ▸ hInside)
  apply strays_append (and_ne_of_notMem hBlanks hLine)
  · intro hSome
    simp [Gap.skip, hBlank, hSome]
  · intro lineStart
    apply Reading.finish
    have hSkip :
        Gap.skip false lineStart 0 ('#' :: body) =
          ⟨0, '#' :: body, []⟩ := by
      simp [Gap.skip, hBlank, Gap.skip_comment hBody, Gap.cons]
    rw [Lexeme.scan_eq_ofGap, hSkip]
    rfl

/- A line of white space before others leaves nothing. -/
theorem of_blank_append
    (hBlanks : ∀ d ∈ blanks, Text.isBlank d = true)
    (hReading : Reading true (blanks ++ '\n' :: b) ts) :
    Reading true b ts := by
  have hScan := Lexeme.scan_line_of_skip
    (Gap.rest_skip_blanks hBlanks true 0) b
  apply hReading.congr
  all_goals rw [hScan]

/-
  An indentation is the last thing only where there is nothing
  but white space.
-/
theorem open_of_isBlank_eq_false
    (hBlanks : ∀ d ∈ blanks, Text.isBlank d = true)
    {c : Char}
    (hBlank : Text.isBlank c = false)
    {cs : List Char}
    (hLine : '\n' ∉ blanks ++ c :: cs)
    (hRest : (Lexeme.scan true (blanks ++ c :: cs)).rest = [])
    (width : Nat) :
    (Lexeme.scan true (blanks ++ c :: cs)).shape ≠ .indent width := by
  by_cases hNil : blanks = []
  · -- The line starts with something else, and is not indented.
    subst hNil
    rw [List.nil_append, Lexeme.scan_eq_ofGap]
    apply Lexeme.shape_ofGap_ne_indent
    rw [Gap.skip, if_neg Bool.false_ne_true,
      if_neg (by simp [hBlank])]
    by_cases hComment : c = '#'
    · rw [if_pos ⟨rfl, hComment⟩]
      exact Gap.indent_skip_eq_zero
        (List.not_mem_of_not_mem_cons hLine) true
    · rw [if_neg (fun hBoth => hComment hBoth.2)]
  · -- The rest of the line is left after the indentation.
    rw [scan_blanks_append (and_ne_of_notMem hBlanks hLine) hNil]
      at hRest
    · cases hRest
    · simp [Gap.skip, hBlank, hNil]

/- A reading of a closed text. -/
theorem of_closed
    {lineStart : Bool}
    (hClosed : Closed lineStart a ts) :
    Reading lineStart a (ts ++ [Token.finish]) := by
  induction hClosed with
  | finish hShape => exact .finish hShape
  | cons hContent hKind _ _ ih => exact .cons hContent hKind ih

end Offside.Reading

------------------------------------------------------------
-- Texts without Lines
------------------------------------------------------------

namespace Offside.Reading

variable {text : List Char}
variable {ts us : List Token}

/-
  That the tokens of a text are those of another one and as many
  more as a number says.
-/
structure Exceeds
    (n : Nat)
    (ts us : List Token) :
    Prop where
  length : ts.length = us.length + n
  same : n = 0 → ts = us

theorem exceeds_strays
    (blanks : List Char)
    (ts : List Token) :
    Exceeds (decide (blanks ≠ [])).toNat (strays blanks ++ ts) ts := by
  unfold strays
  by_cases hNil : blanks = []
  · rw [if_pos hNil]
    exact ⟨by simp [hNil], fun _ => rfl⟩
  · rw [if_neg hNil]
    exact ⟨by simp [hNil], by simp [hNil]⟩

theorem Exceeds.append_left
    {n : Nat}
    (hMore : Exceeds n ts us)
    (first : List Token) :
    Exceeds n (first ++ ts) (first ++ us) where
  length := by
    rw [List.length_append, List.length_append, hMore.length,
      Nat.add_assoc]
  same hNone := by rw [hMore.same hNone]

theorem Exceeds.trans
    {m n : Nat}
    {vs : List Token}
    (hFirst : Exceeds m ts us)
    (hSecond : Exceeds n us vs) :
    Exceeds (n + m) ts vs where
  length := by rw [hFirst.length, hSecond.length, Nat.add_assoc]
  same hNone := by
    rw [hFirst.same (Nat.eq_zero_of_add_eq_zero_left hNone),
      hSecond.same (Nat.eq_zero_of_add_eq_zero_right hNone)]

/- A text of one line, which no line feed ends. -/
theorem code_of_notMem
    (hLine : '\n' ∉ text)
    (hReturn : '\r' ∉ text)
    (hReading : Reading true text ts) :
    ∃ us,
      Reading true (Text.code text) us ∧
      Exceeds ((Text.lines text).countP Text.isStray) ts us := by
  by_cases hNil : text = []
  · subst hNil
    exact ⟨ts, hReading, rfl, fun _ => rfl⟩
  rw [Text.code_of_notMem hLine hNil,
    Text.countP_lines_of_notMem hLine hNil]
  rcases Text.blank_or_exists text with
    hBlanks | ⟨blanks, c, cs, rfl, hBlanks, hBlank⟩
  · -- White space is as good as nothing, but for its indentation.
    rw [Text.hasCode_blanks hBlanks, Text.isStray_blanks hBlanks,
      hReading.unique (blankLine hBlanks hLine)]
    have hMore := exceeds_strays text [Token.finish]
    rw [decide_eq_true hNil] at hMore
    rw [decide_eq_true hLine]
    exact ⟨[Token.finish], .finish rfl, hMore⟩
  · rw [Text.hasCode_blanks_append hBlanks hBlank,
      Text.isStray_blanks_append hBlanks hBlank]
    by_cases hComment : c = '#'
    · -- So is a comment.
      subst hComment
      rw [hReading.unique (commentLine hBlanks hLine hReturn)]
      have hMore := exceeds_strays blanks [Token.finish]
      simp only [true_and]
      exact ⟨[Token.finish], .finish rfl, hMore⟩
    · simp only [hComment, false_and, decide_false, not_false_eq_true,
        ne_eq, decide_true, if_true]
      exact ⟨ts, hReading, rfl, fun _ => rfl⟩

/-
  The first line of a text: it leaves what it leaves whatever the
  lines after it do.
-/
theorem code_append
    {a b : List Char}
    (hLine : '\n' ∉ a)
    (hReturn : '\r' ∉ a)
    (hReading : Reading true (a ++ '\n' :: b) ts) :
    ∃ vs,
      Reading true b vs ∧
      ∀ {ws n},
        Reading true (Text.code b) ws →
        Exceeds n vs ws →
        ∃ us,
          Reading true (Text.code (a ++ '\n' :: b)) us ∧
          Exceeds (n + (Text.isStray (a ++ ['\n'])).toNat) ts us := by
  rw [Text.code_append hLine]
  rcases Text.blank_or_exists a with
    hBlanks | ⟨blanks, c, cs, rfl, hBlanks, hBlank⟩
  · have hAll : ∀ d ∈ a ++ ['\n'], Text.isBlank d = true := by
      intro d hMem
      rcases List.mem_append.mp hMem with hMem | hMem
      · exact hBlanks d hMem
      · rw [List.mem_singleton.mp hMem]
        decide
    have hFeed : '\n' ∈ a ++ ['\n'] :=
      List.mem_append_right a List.mem_cons_self
    rw [Text.hasCode_blanks hAll, Text.isStray_blanks hAll,
      decide_eq_false (not_not_intro hFeed)]
    refine ⟨ts, hReading.of_blank_append hBlanks, ?_⟩
    intro ws n hWs hMore
    exact ⟨ws, hWs, hMore⟩
  · rcases
        split hLine
          (open_of_isBlank_eq_false hBlanks hBlank hLine)
          hReading with
      ⟨us, vs, rfl, hClosed, hRest⟩
    rw [List.append_assoc blanks, List.cons_append,
      Text.hasCode_blanks_append hBlanks hBlank,
      Text.isStray_blanks_append hBlanks hBlank]
    refine ⟨vs, hRest, ?_⟩
    intro ws n hWs hMore
    by_cases hComment : c = '#'
    · subst hComment
      have hKnown := (of_closed hClosed).unique
        (commentLine hBlanks hLine hReturn)
      rw [List.append_cancel_right hKnown]
      have hStray := exceeds_strays blanks vs
      simp only [true_and]
      exact ⟨ws, hWs, hStray.trans hMore⟩
    · simp only [hComment, false_and, decide_false, not_false_eq_true,
        ne_eq, decide_true, if_true]
      exact ⟨us ++ ws, hClosed.reading hWs, hMore.append_left us⟩

/-
  Without its lines that have no code a text has as many tokens
  less as there are stray lines among them.
-/
theorem code
    (hReturn : '\r' ∉ text)
    (hReading : Reading true text ts) :
    ∃ us,
      Reading true (Text.code text) us ∧
      Exceeds ((Text.lines text).countP Text.isStray) ts us := by
  -- Line by line, from the first one on.
  induction hLength : text.length using Nat.strong_induction_on
    generalizing text ts with
  | _ length ih =>
      by_cases hFeed : '\n' ∈ text
      · rcases List.eq_append_cons_of_mem hFeed with
          ⟨a, b, rfl, hLine⟩
        rw [List.mem_append, List.mem_cons, not_or, not_or] at hReturn
        rcases hReturn with ⟨hReturnA, -, hReturnB⟩
        have hLess : b.length < length := by
          rw [← hLength, List.length_append, List.length_cons]
          omega
        rcases code_append hLine hReturnA hReading with
          ⟨vs, hRest, hStep⟩
        rcases ih _ hLess hReturnB hRest rfl with ⟨ws, hWs, hMore⟩
        rw [Text.countP_lines_append hLine]
        exact hStep hWs hMore
      · exact code_of_notMem hFeed hReturn hReading

end Offside.Reading

------------------------------------------------------------
-- Texts in the Buffer
------------------------------------------------------------

namespace Offside.Scanner

/-
  A well-formed text without returns is well-formed without its
  lines that have no code.  It has the same tokens if and only if
  none of its lines is stray.
-/
theorem lexText_code
    (s : Scanner)
    (hBuffer : s.input.direct = false)
    (text : String)
    (hReturn : '\r' ∉ text.toList)
    (ts : List Token)
    (hText : s.lexText text = .ok ts) :
    ∃ us,
      s.lexText (String.ofList (Text.code text.toList)) = .ok us ∧
      (ts.map Token.unlocated = us.map Token.unlocated ↔
        ∀ line ∈ Text.lines text.toList,
          Text.isStray line = false) := by
  have hReading : Reading true text.toList (ts.map Token.unlocated) :=
    (exists_lexText_eq_ok_iff hBuffer text _).mp ⟨ts, hText, rfl⟩
  rcases hReading.code hReturn with ⟨unlocated, hCode, hMore⟩
  rw [← String.toList_ofList (l := Text.code text.toList)] at hCode
  rcases (exists_lexText_eq_ok_iff hBuffer _ _).mpr hCode with
    ⟨us, hLex, rfl⟩
  refine ⟨us, hLex, ?_⟩
  constructor
  · intro hSame line hMem
    have hLength := hMore.length
    rw [hSame, Nat.left_eq_add, List.countP_eq_zero] at hLength
    simpa using hLength line hMem
  · intro hNone
    apply hMore.same
    rw [List.countP_eq_zero]
    intro line hMem
    simp [hNone line hMem]

/- The tokens of an indented comment and a name below it. -/
def strayTokens : List Token :=
  [⟨.indent, .amount (.whole 2), ⟨0, 3⟩⟩,
    ⟨.identifier, .text "x", ⟨1, 2⟩⟩,
    ⟨.endOfText, .text "", ⟨1, 3⟩⟩]

/- The comment leaves its indentation. -/
theorem lexText_code_sample :
    '\r' ∉ "  # c\nx".toList ∧
    (ofInput Input.empty).lexText "  # c\nx" = .ok strayTokens ∧
    Text.code "  # c\nx".toList = ['x'] ∧
    ∃ us,
      (ofInput Input.empty).lexText
        (String.ofList (Text.code "  # c\nx".toList)) = .ok us ∧
      strayTokens.map Token.unlocated ≠ us.map Token.unlocated := by
  have hReturn : '\r' ∉ "  # c\nx".toList := by decide
  have hText :
      (ofInput Input.empty).lexText "  # c\nx" = .ok strayTokens := by
    decide +kernel
  have hStray :
      ¬∀ line ∈ Text.lines "  # c\nx".toList,
        Text.isStray line = false := by
    decide +kernel
  rcases
      lexText_code (ofInput Input.empty) rfl "  # c\nx" hReturn
        strayTokens hText with
    ⟨us, hCode, hSame⟩
  refine ⟨hReturn, hText, by decide +kernel, us, hCode, ?_⟩
  intro hEqual
  exact hStray (hSame.mp hEqual)

end Offside.Scanner
