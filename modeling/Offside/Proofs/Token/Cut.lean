import Mathlib
import Offside.Proofs.Token.Reading

/-
  Cuts: a text as gaps and the characters of tokens in turn, so
  that no character is lost and none is made up.

  Key definitions include:
    * `Offside.Token.Spells`
    * `Offside.Cut`

  Main statement:
    * `Offside.Scanner.lexText_cut`: the tokens of a text, but
      for indentations and the end, are those of a cut of it.
-/

------------------------------------------------------------
-- Cuts
------------------------------------------------------------

namespace Offside

/-
  That a token stands for characters before some text: a word as
  it is, a number by its value, and an operator of one character.
-/
inductive Token.Spells
    (text : List Char) :
    Token →
    List Char →
    Prop where
  | word
      {t : Token}
      {chars : List Char}
      (hLexeme : IsLexeme text .word chars)
      (hKind :
        (String.ofList chars, t.kind) ∈ Kind.keywords ∨
          t.kind = .identifier ∧
            String.ofList chars ∉ Kind.keywords.map Prod.fst)
      (hValue : t.value = .text (String.ofList chars)) :
      Spells text t chars
  | number
      {t : Token}
      {chars : List Char}
      {d : Decimal}
      (hLexeme : IsLexeme text .number chars)
      (hKind : t.kind = .floatLiteral)
      (hRead : Decimal.ofLiteral? chars = some d)
      (hValue : t.value = .amount (.real (d.toBinary64 false))) :
      Spells text t chars
  | operator
      {t : Token}
      {chars : List Char}
      (hLexeme : IsLexeme text .symbol chars)
      (hKind : t.kind = .operator)
      (hValue : t.value = .text (String.ofList chars)) :
      Spells text t chars

/-
  That a text is cut into gaps and the characters of these
  tokens: a gap, and then nothing, or the characters of the
  first token and what is cut into the others.
-/
inductive Cut :
    List Char →
    List Token →
    Prop where
  | last
      {gap : List Char}
      (hGap : IsGap [] gap) :
      Cut gap []
  | cons
      {gap chars text : List Char}
      {t : Token}
      {ts : List Token}
      (hGap : IsGap (chars ++ text) gap)
      (hToken : t.Spells text chars)
      (hText : Cut text ts) :
      Cut (gap ++ (chars ++ text)) (t :: ts)

/- A gap before a text goes into its first gap. -/
theorem Cut.gap_append
    {gap text : List Char}
    {ts : List Token}
    (hGap : IsGap text gap)
    (hCut : Cut text ts) :
    Cut (gap ++ text) ts := by
  cases hCut with
  | last hLast =>
      apply Cut.last
      apply IsGap.append
      · rwa [List.append_nil]
      · exact hLast
  | cons hFirst hToken hText =>
      rw [← List.append_assoc]
      exact .cons (hGap.append hFirst) hToken hText

end Offside

------------------------------------------------------------
-- Lexemes and Tokens
------------------------------------------------------------

namespace Offside.Lexeme

variable {lineStart : Bool}
variable {text : List Char}

/- An indentation has no characters of its own. -/
theorem chars_scan_eq_nil
    {value : Value}
    (hContent :
      (scan lineStart text).content = .ok (.indent, value)) :
    (scan lineStart text).chars = [] := by
  have hLexeme := isLexeme_scan lineStart text
  generalize scan lineStart text = lexeme at hContent hLexeme
  rcases lexeme with ⟨shape, gap, chars, rest⟩
  unfold content at hContent
  dsimp only at hContent hLexeme
  cases hLexeme with
  | indent hWidth => rfl
  | finish hEnd => rfl
  | word hFirst hMore hStop =>
      simp only [Except.ok.injEq, Prod.mk.injEq] at hContent
      exact absurd hContent.1 (Kind.ofWord_ne _).2
  | symbol => cases hContent
  | number =>
      dsimp only at hContent
      split at hContent
      · cases hContent
      · cases hContent

/- Any other token stands for the characters that were scanned. -/
theorem spells_scan
    {t : Token}
    (hContent :
      (scan lineStart text).content = .ok (t.kind, t.value))
    (hIndent : t.kind ≠ .indent)
    (hEnd : t.kind ≠ .endOfText) :
    t.Spells (scan lineStart text).rest (scan lineStart text).chars := by
  have hLexeme := isLexeme_scan lineStart text
  unfold content at hContent
  cases hShape : (scan lineStart text).shape with
  | indent width =>
      rw [hShape] at hContent
      simp only [Except.ok.injEq, Prod.mk.injEq] at hContent
      exact absurd hContent.1.symm hIndent
  | finish =>
      rw [hShape] at hContent
      simp only [Except.ok.injEq, Prod.mk.injEq] at hContent
      exact absurd hContent.1.symm hEnd
  | word =>
      rw [hShape] at hContent hLexeme
      simp only [Except.ok.injEq, Prod.mk.injEq] at hContent
      refine .word hLexeme ?_ hContent.2.symm
      rw [← hContent.1]
      exact Kind.ofWord_cases _
  | symbol =>
      rw [hShape] at hContent hLexeme
      simp only [Except.ok.injEq, Prod.mk.injEq] at hContent
      exact .operator hLexeme hContent.1.symm hContent.2.symm
  | number =>
      rw [hShape] at hContent hLexeme
      dsimp only at hContent
      split at hContent
      · rename_i d hRead
        simp only [Except.ok.injEq, Prod.mk.injEq] at hContent
        exact .number hLexeme hContent.1.symm hRead hContent.2.symm
      · cases hContent

end Offside.Lexeme

------------------------------------------------------------
-- Readings as Cuts
------------------------------------------------------------

namespace Offside

/-
  The tokens of a reading end with the end of the text, which
  comes only once; without indentations the others are those of
  a cut.
-/
theorem Reading.cut
    {lineStart : Bool}
    {text : List Char}
    {ts : List Token}
    (hReading : Reading lineStart text ts)
    {located : List Token}
    (hLocated : located.map Token.unlocated = ts) :
    ∃ body final,
      located = body ++ [final] ∧
      final.kind = .endOfText ∧
      (∀ t ∈ body, t.kind ≠ .endOfText) ∧
      Cut text (body.filter fun t => t.kind ≠ .indent) := by
  induction hReading generalizing located with
  | @finish lineStart text hShape =>
      rcases List.map_eq_singleton_iff.mp hLocated with
        ⟨final, rfl, hFinal⟩
      have hLexeme := Lexeme.isLexeme_scan lineStart text
      have hGap := Lexeme.isGap_scan lineStart text
      have hText := Lexeme.scan_append lineStart text
      rw [hShape] at hLexeme
      generalize (Lexeme.scan lineStart text).chars = chars
        at hLexeme hGap hText
      generalize (Lexeme.scan lineStart text).rest = rest
        at hLexeme hGap hText
      -- The last lexeme has no characters, and none are left.
      rcases hLexeme with _ | _ | _ | _ | hEnd
      subst hEnd
      rw [List.append_nil] at hGap hText
      rw [List.append_nil] at hText
      refine ⟨[], final, rfl, ?_, by simp, ?_⟩
      · exact congrArg Token.kind hFinal
      · rw [← hText]
        exact .last hGap
  | @cons lineStart text kind value ts hContent hKind hRest ih =>
      rcases List.map_eq_cons_iff.mp hLocated with
        ⟨t, us, rfl, hToken, hMore⟩
      rcases ih hMore with ⟨body, final, rfl, hFinal, hBody, hCut⟩
      have hSame : t.kind = kind ∧ t.value = value :=
        ⟨congrArg Token.kind hToken, congrArg Token.value hToken⟩
      rw [← hSame.1] at hKind
      rw [← hSame.1, ← hSame.2] at hContent
      have hGap := Lexeme.isGap_scan lineStart text
      have hText := Lexeme.scan_append lineStart text
      refine ⟨t :: body, final, rfl, hFinal, ?_, ?_⟩
      · intro u hMem
        rcases List.mem_cons.mp hMem with rfl | hMem
        · exact hKind
        · exact hBody u hMem
      · by_cases hIndent : t.kind = .indent
        · rw [List.filter_cons_of_neg (by simp [hIndent])]
          rw [hIndent] at hContent
          have hChars := Lexeme.chars_scan_eq_nil hContent
          rw [hChars, List.nil_append] at hGap hText
          rw [← hText]
          exact hCut.gap_append hGap
        · rw [List.filter_cons_of_pos (by simp [hIndent])]
          rw [← hText]
          exact .cons hGap
            (Lexeme.spells_scan hContent hIndent hKind) hCut

end Offside

------------------------------------------------------------
-- Texts as Cuts
------------------------------------------------------------

namespace Offside.Scanner

/-
  The tokens of a text end with one token for its end.  The
  others, without indentations, are spelled by the text between
  its gaps, in order.
-/
theorem lexText_cut
    (s : Scanner)
    (hBuffer : s.input.direct = false)
    (text : String)
    (ts : List Token)
    (hLex : s.lexText text = .ok ts) :
    ∃ body final,
      ts = body ++ [final] ∧
      final.kind = .endOfText ∧
      (∀ t ∈ body, t.kind ≠ .endOfText) ∧
      Cut text.toList (body.filter fun t => t.kind ≠ .indent) := by
  have hReading : Reading true text.toList (ts.map Token.unlocated) :=
    (exists_lexText_eq_ok_iff hBuffer text _).mp ⟨ts, hLex, rfl⟩
  exact hReading.cut rfl

/- A text with each kind of lexeme and with both kinds of gap. -/
def sampleText : String := "# a\r  if x1:\n\t.5+x # b"

/- The tokens of that text. -/
def sampleTokens : List Token :=
  [⟨.kwIf, .text "if", ⟨1, 5⟩⟩,
    ⟨.identifier, .text "x1", ⟨1, 8⟩⟩,
    ⟨.operator, .text ":", ⟨2, 0⟩⟩,
    ⟨.indent, .amount (.whole 1), ⟨2, 2⟩⟩,
    ⟨.floatLiteral,
      .amount (.real ((⟨5, -1⟩ : Decimal).toBinary64 false)), ⟨2, 4⟩⟩,
    ⟨.operator, .text "+", ⟨2, 5⟩⟩,
    ⟨.identifier, .text "x", ⟨2, 6⟩⟩,
    ⟨.endOfText, .text "", ⟨2, 10⟩⟩]

theorem lexText_cut_sample :
    (ofInput Input.empty).lexText sampleText = .ok sampleTokens ∧
    ∃ body final,
      sampleTokens = body ++ [final] ∧
      final.kind = .endOfText ∧
      (∀ t ∈ body, t.kind ≠ .endOfText) ∧
      Cut sampleText.toList
        (body.filter fun t => t.kind ≠ .indent) := by
  have hLex :
      (ofInput Input.empty).lexText sampleText = .ok sampleTokens := by
    decide +kernel
  exact ⟨hLex,
    lexText_cut (ofInput Input.empty) rfl sampleText sampleTokens hLex⟩

end Offside.Scanner
