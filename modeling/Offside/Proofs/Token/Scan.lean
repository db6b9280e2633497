import Mathlib
import Offside.Token.Lexeme

/-
  Scanning: what the gaps and lexemes are that a text is cut
  into, and how they change when a line is added to the text.

  Key definitions include:
    * `Offside.IsGap`
    * `Offside.IsLexeme`
    * `Offside.Lexeme.ofGap`

  Main statements:
    * `Offside.Lexeme.isGap_scan`: what stands before a lexeme
      is white space and whole comments.
    * `Offside.Lexeme.isLexeme_scan`: a lexeme is of its class
      and as long as can be.
    * `Offside.Lexeme.scan_line_of_finish`,
      `Offside.Lexeme.scan_line`: the next lexeme of a text with
      a line after it is the one of that line, started anew, if
      the text has none, and otherwise that of the text.
-/

------------------------------------------------------------
-- Gaps and Lexemes
------------------------------------------------------------

namespace Offside

/-
  That characters are a gap before some text: white space, and
  comments that go on up to a line break or to the end.
-/
inductive IsGap
    (text : List Char) :
    List Char →
    Prop where
  | nil : IsGap text []
  | blank
      {c : Char}
      {cs : List Char}
      (hBlank : Text.isBlank c = true)
      (hMore : IsGap text cs) :
      IsGap text (c :: cs)
  | comment
      (body cs : List Char)
      (hBody : ∀ c ∈ body, c ≠ '\n' ∧ c ≠ '\r')
      (hEnd : ∀ c ∈ (cs ++ text).head?, c = '\n' ∨ c = '\r')
      (hMore : IsGap text cs) :
      IsGap text ('#' :: (body ++ cs))

/- Two gaps in a row are one. -/
theorem IsGap.append
    {text cs ds : List Char}
    (hFirst : IsGap (ds ++ text) cs)
    (hSecond : IsGap text ds) :
    IsGap text (cs ++ ds) := by
  induction hFirst with
  | nil => exact hSecond
  | blank hBlank _ ih => exact .blank hBlank ih
  | comment body cs hBody hEnd _ ih =>
      rw [List.cons_append, List.append_assoc]
      refine .comment body (cs ++ ds) hBody ?_ ih
      rwa [List.append_assoc]

/- One more character that is no line break belongs to a comment. -/
theorem IsGap.comment_cons
    {text cs : List Char}
    (hGap : IsGap text ('#' :: cs))
    {c : Char}
    (hFeed : c ≠ '\n')
    (hReturn : c ≠ '\r') :
    IsGap text ('#' :: c :: cs) := by
  cases hGap with
  | blank hBlank _ => exact absurd hBlank (by decide)
  | comment body cs hBody hEnd hMore =>
      refine .comment (c :: body) cs ?_ hEnd hMore
      intro d hMem
      rcases List.mem_cons.mp hMem with rfl | hMem
      · exact ⟨hFeed, hReturn⟩
      · exact hBody d hMem

/-
  That characters are a lexeme of a shape before some text, and
  that the text does not go on with it.
-/
inductive IsLexeme
    (text : List Char) :
    Shape →
    List Char →
    Prop where
  | indent
      {width : Nat}
      (hWidth : width ≠ 0) :
      IsLexeme text (.indent width) []
  | word
      {c : Char}
      {cs : List Char}
      (hFirst : Lexeme.startsWord c = true)
      (hMore : ∀ d ∈ cs, Lexeme.continuesWord d = true)
      (hStop : ∀ d ∈ text.head?, Lexeme.continuesWord d = false) :
      IsLexeme text .word (c :: cs)
  | number
      {cs : List Char}
      (hSome : cs ≠ [])
      (hAll : ∀ d ∈ cs, Lexeme.isNumeral d = true)
      (hStop : ∀ d ∈ text.head?, Lexeme.isNumeral d = false) :
      IsLexeme text .number cs
  | symbol
      {c : Char}
      (hBlank : Text.isBlank c = false)
      (hWord : Lexeme.startsWord c = false)
      (hNumeral : Lexeme.isNumeral c = false)
      (hComment : c ≠ '#') :
      IsLexeme text .symbol [c]
  | finish
      (hEnd : text = []) :
      IsLexeme text .finish []

end Offside

------------------------------------------------------------
-- Skipping
------------------------------------------------------------

namespace Offside.Gap

/-
  What is passed over is a gap, together with the start of the
  comment where it begins inside one.
-/
theorem isGap_skip
    (inComment lineStart : Bool)
    (indent : Nat)
    (text : List Char) :
    IsGap (skip inComment lineStart indent text).rest
      (cond inComment ['#'] [] ++
        (skip inComment lineStart indent text).skipped) := by
  fun_induction skip inComment lineStart indent text with
  | case1 inComment lineStart indent =>
      cases inComment with
      | false => exact .nil
      | true => exact .comment [] [] (by simp) (by simp) .nil
  | case2 lineStart indent text ih =>
      exact .comment [] _ (by simp) (by simp [cons])
        (.blank (by decide) ih)
  | case3 lineStart indent text hFeed ih =>
      exact .comment [] _ (by simp) (by simp [cons])
        (.blank (by decide) ih)
  | case4 lineStart indent c text hFeed hReturn ih =>
      exact ih.comment_cons hFeed hReturn
  | case5 inComment lineStart indent text hOutside hBlank ih =>
      rw [Bool.not_eq_true] at hOutside
      rw [hOutside]
      exact .blank hBlank ih
  | case6 inComment lineStart indent c text hOutside hBlank hFeed ih =>
      rw [Bool.not_eq_true] at hOutside
      rw [hOutside]
      exact .blank hBlank ih
  | case7 inComment lineStart indent c text hOutside hBlank hStart ih =>
      rw [Bool.not_eq_true] at hOutside
      rw [hOutside, hStart.2]
      exact ih
  | case8 inComment lineStart indent c text hOutside hBlank hStart =>
      rw [Bool.not_eq_true] at hOutside
      rw [hOutside]
      exact .nil

/- What comes after a gap is neither white space nor a comment. -/
theorem rest_skip
    {inComment lineStart : Bool}
    {indent : Nat}
    {text : List Char}
    {c : Char}
    {cs : List Char}
    (hRest : (skip inComment lineStart indent text).rest = c :: cs) :
    Text.isBlank c = false ∧
      ((skip inComment lineStart indent text).indent = 0 →
        c ≠ '#') := by
  fun_induction skip inComment lineStart indent text with
  | case1 => cases hRest
  | case8 inComment lineStart indent d text hOutside hBlank hStart =>
      cases hRest
      refine ⟨by simpa using hBlank, ?_⟩
      intro hIndent hSame
      exact hStart ⟨hIndent, hSame⟩
  | _ => rename_i ih; exact ih hRest

/- What stands after the gap does not matter to it. -/
theorem skip_append
    {inComment lineStart : Bool}
    {indent : Nat}
    {a : List Char}
    (hRest : (skip inComment lineStart indent a).rest ≠ [])
    (b : List Char) :
    skip inComment lineStart indent (a ++ b) =
      { skip inComment lineStart indent a with
        rest := (skip inComment lineStart indent a).rest ++ b } := by
  fun_induction skip inComment lineStart indent a with
  | case1 => exact absurd rfl hRest
  | case8 inComment lineStart indent c a hOutside hBlank hStart =>
      simp [skip, hOutside, hBlank, hStart]
  | _ =>
      rename_i ih
      simp_all [skip, cons]

/-
  A line feed after a text that is all gap starts a line, and
  with it a new count.
-/
theorem skip_line
    {inComment lineStart : Bool}
    {indent : Nat}
    {a : List Char}
    (hRest : (skip inComment lineStart indent a).rest = [])
    (b : List Char) :
    skip inComment lineStart indent (a ++ '\n' :: b) =
      { skip false true 0 b with
        skipped := a ++ '\n' :: (skip false true 0 b).skipped } := by
  fun_induction skip inComment lineStart indent a with
  | case1 inComment lineStart indent =>
      have hBlank : Text.isBlank '\n' = true := by decide
      cases inComment <;> simp [skip, hBlank, cons]
  | case8 => cases hRest
  | _ =>
      rename_i ih
      simp_all [skip, cons]

/- White space alone leaves nothing. -/
theorem rest_skip_blanks
    {blanks : List Char}
    (hBlanks : ∀ c ∈ blanks, Text.isBlank c = true)
    (lineStart : Bool)
    (indent : Nat) :
    (skip false lineStart indent blanks).rest = [] := by
  induction blanks generalizing lineStart indent with
  | nil => rfl
  | cons c blanks ih =>
      have hBlank := hBlanks c List.mem_cons_self
      have hMore : ∀ d ∈ blanks, Text.isBlank d = true :=
        fun d hMem => hBlanks d (List.mem_cons_of_mem c hMem)
      rw [skip, if_neg Bool.false_ne_true, if_pos hBlank]
      by_cases hFeed : c = '\n'
      · rw [if_pos hFeed]
        exact ih hMore true 0
      · rw [if_neg hFeed]
        exact ih hMore _ _

/- White space at the start of a line counts. -/
theorem skip_blanks
    {blanks : List Char}
    (hBlanks : ∀ c ∈ blanks, Text.isBlank c = true ∧ c ≠ '\n')
    {indent : Nat}
    {rest : List Char}
    (hRest :
      skip false true (indent + blanks.length) rest =
        ⟨indent + blanks.length, [], rest⟩) :
    skip false true indent (blanks ++ rest) =
      ⟨indent + blanks.length, blanks, rest⟩ := by
  induction blanks generalizing indent with
  | nil => exact hRest
  | cons c blanks ih =>
      rcases hBlanks c List.mem_cons_self with ⟨hBlank, hFeed⟩
      have hWidth :
          indent + (c :: blanks).length =
            indent + 1 + blanks.length := by
        simp only [List.length_cons]
        omega
      rw [hWidth] at hRest ⊢
      have hMore := ih
        (fun d hMem => hBlanks d (List.mem_cons_of_mem c hMem)) hRest
      simp [skip, hBlank, hFeed, hMore, cons]

/- Without a line feed there is no indentation inside a line. -/
theorem indent_skip_eq_zero
    {text : List Char}
    (hLine : '\n' ∉ text)
    (inComment : Bool) :
    (skip inComment false 0 text).indent = 0 := by
  induction text generalizing inComment with
  | nil => rfl
  | cons c text ih =>
      rcases List.ne_and_not_mem_of_not_mem_cons hLine with
        ⟨hFeed, hMore⟩
      have hNoFeed : c ≠ '\n' := fun hSame => hFeed hSame.symm
      unfold skip
      rw [if_neg hNoFeed, if_neg hNoFeed,
        if_neg Bool.false_ne_true]
      split_ifs
      · exact ih hMore false
      · exact ih hMore true
      · exact ih hMore false
      · exact ih hMore true
      · rfl

/- A comment goes on to the end of its line. -/
theorem skip_comment
    {body : List Char}
    (hBody : ∀ c ∈ body, c ≠ '\n' ∧ c ≠ '\r') :
    skip true false 0 body = ⟨0, body, []⟩ := by
  induction body with
  | nil => rfl
  | cons c body ih =>
      rcases hBody c List.mem_cons_self with ⟨hFeed, hReturn⟩
      have hMore := ih
        fun d hMem => hBody d (List.mem_cons_of_mem c hMem)
      simp [skip, hFeed, hReturn, hMore, cons]

end Offside.Gap

------------------------------------------------------------
-- Scanning
------------------------------------------------------------

namespace Offside.Lexeme

/- The lexeme after a gap. -/
def ofGap
    (gap : Gap) :
    Lexeme :=
  if gap.indent ≠ 0 then
    ⟨.indent gap.indent, gap.skipped, [], gap.rest⟩
  else
    match gap.rest with
    | [] => ⟨.finish, gap.skipped, [], []⟩
    | c :: cs =>
        if startsWord c then
          ⟨.word, gap.skipped, c :: cs.takeWhile continuesWord,
            cs.dropWhile continuesWord⟩
        else if isNumeral c then
          ⟨.number, gap.skipped, (c :: cs).takeWhile isNumeral,
            (c :: cs).dropWhile isNumeral⟩
        else ⟨.symbol, gap.skipped, [c], cs⟩

theorem scan_eq_ofGap
    (lineStart : Bool)
    (text : List Char) :
    scan lineStart text = ofGap (Gap.skip false lineStart 0 text) :=
  rfl

/- The lexeme does not depend on what was passed over. -/
theorem ofGap_skipped
    (gap : Gap)
    (skipped : List Char) :
    ofGap { gap with skipped := skipped } =
      { ofGap gap with gap := skipped } := by
  unfold ofGap
  dsimp only
  by_cases hIndent : gap.indent ≠ 0
  · rw [if_pos hIndent, if_pos hIndent]
  · rw [if_neg hIndent, if_neg hIndent]
    cases gap.rest with
    | nil => rfl
    | cons c cs =>
        dsimp only
        split_ifs <;> rfl

theorem gap_ofGap
    (gap : Gap) :
    (ofGap gap).gap = gap.skipped := by
  have hSame := congrArg Lexeme.gap (ofGap_skipped gap gap.skipped)
  exact hSame

/- The first character that does not belong to a run is of no such class. -/
theorem head?_dropWhile
    (p : Char → Bool)
    (cs : List Char) :
    ∀ c ∈ (cs.dropWhile p).head?, p c = false := by
  intro c hHead
  have hStop := List.head?_dropWhile_not p cs
  rw [Option.mem_def.mp hHead] at hStop
  simpa using hStop

/- What stands before a lexeme is white space and comments. -/
theorem isGap_scan
    (lineStart : Bool)
    (text : List Char) :
    IsGap ((scan lineStart text).chars ++ (scan lineStart text).rest)
      (scan lineStart text).gap := by
  have hGap := Gap.isGap_skip false lineStart 0 text
  have hSkipped := Gap.skipped_append_rest false lineStart 0 text
  have hScanned := scan_append lineStart text
  rw [scan_eq_ofGap, gap_ofGap] at hScanned ⊢
  have hAfter := List.append_cancel_left (hScanned.trans hSkipped.symm)
  rwa [hAfter]

/- A lexeme is of its class and as long as can be. -/
theorem isLexeme_scan
    (lineStart : Bool)
    (text : List Char) :
    IsLexeme (scan lineStart text).rest
      (scan lineStart text).shape (scan lineStart text).chars := by
  have hStart : ∀ c cs,
      (Gap.skip false lineStart 0 text).rest = c :: cs → _ :=
    fun c cs hRest => Gap.rest_skip hRest
  rw [scan_eq_ofGap]
  generalize Gap.skip false lineStart 0 text = gap at hStart
  unfold ofGap
  by_cases hIndent : gap.indent ≠ 0
  · rw [if_pos hIndent]
    exact .indent hIndent
  · rw [if_neg hIndent]
    cases hRest : gap.rest with
    | nil => exact .finish rfl
    | cons c cs =>
        rcases hStart c cs hRest with ⟨hBlank, hComment⟩
        dsimp only
        split_ifs with hWord hNumeral
        · exact .word hWord (fun d hMem => List.mem_takeWhile_imp hMem)
            (head?_dropWhile continuesWord cs)
        · refine .number ?_ (fun d hMem => List.mem_takeWhile_imp hMem)
            (head?_dropWhile isNumeral (c :: cs))
          simp [hNumeral]
        · exact .symbol hBlank (by simpa using hWord)
            (by simpa using hNumeral)
            (hComment (not_ne_iff.mp hIndent))

/- Only what is indented gives an indentation. -/
theorem shape_ofGap_ne_indent
    {gap : Gap}
    (hIndent : gap.indent = 0)
    (width : Nat) :
    (ofGap gap).shape ≠ .indent width := by
  unfold ofGap
  rw [if_neg (not_ne_iff.mpr hIndent)]
  cases gap.rest with
  | nil => simp
  | cons c cs =>
      dsimp only
      split_ifs <;> simp

/- No indentation stands inside a line. -/
theorem shape_scan_ne_indent
    {text : List Char}
    (hLine : '\n' ∉ text)
    (width : Nat) :
    (scan false text).shape ≠ .indent width := by
  rw [scan_eq_ofGap]
  exact shape_ofGap_ne_indent (Gap.indent_skip_eq_zero hLine false) width

end Offside.Lexeme

------------------------------------------------------------
-- Scanning Lines
------------------------------------------------------------

namespace Offside.Lexeme

variable {lineStart : Bool}
variable {a : List Char}

/- At the end of a text nothing is left of it. -/
theorem skip_of_finish
    (hFinish : (scan lineStart a).shape = .finish) :
    (Gap.skip false lineStart 0 a).rest = [] := by
  rw [scan_eq_ofGap] at hFinish
  generalize Gap.skip false lineStart 0 a = gap at hFinish ⊢
  unfold ofGap at hFinish
  split_ifs at hFinish
  cases hRest : gap.rest with
  | nil => rfl
  | cons c cs =>
      rw [hRest] at hFinish
      dsimp only at hFinish
      split_ifs at hFinish

/- What is all gap is part of the gap before the next line. -/
theorem scan_line_of_skip
    (hSkip : (Gap.skip false lineStart 0 a).rest = [])
    (b : List Char) :
    scan lineStart (a ++ '\n' :: b) =
      { scan true b with gap := a ++ '\n' :: (scan true b).gap } := by
  rw [scan_eq_ofGap, Gap.skip_line hSkip, ofGap_skipped,
    scan_eq_ofGap, gap_ofGap]

/-
  Where a text has no more lexemes, the line after it gives the
  next one, as it would by itself.
-/
theorem scan_line_of_finish
    (hFinish : (scan lineStart a).shape = .finish)
    (b : List Char) :
    scan lineStart (a ++ '\n' :: b) =
      { scan true b with gap := a ++ '\n' :: (scan true b).gap } :=
  scan_line_of_skip (skip_of_finish hFinish) b

/- A run ends at a line feed, if not before. -/
theorem takeWhile_dropWhile_line
    {p : Char → Bool}
    (hFeed : p '\n' = false)
    (cs b : List Char) :
    (cs ++ '\n' :: b).takeWhile p = cs.takeWhile p ∧
      (cs ++ '\n' :: b).dropWhile p = cs.dropWhile p ++ '\n' :: b := by
  induction cs with
  | nil => simp [hFeed]
  | cons c cs ih =>
      by_cases hClass : p c = true
      · simp [hClass, ih.1, ih.2]
      · simp [hClass]

theorem ofGap_line
    {gap : Gap}
    (hRest : gap.rest ≠ [])
    (b : List Char) :
    ofGap { gap with rest := gap.rest ++ '\n' :: b } =
      { ofGap gap with rest := (ofGap gap).rest ++ '\n' :: b } := by
  rcases List.exists_cons_of_ne_nil hRest with ⟨c, cs, hSome⟩
  rcases
      takeWhile_dropWhile_line (p := continuesWord) (by decide) cs b
    with ⟨hTakeWord, hDropWord⟩
  rcases
      takeWhile_dropWhile_line (p := isNumeral) (by decide) (c :: cs) b
    with ⟨hTakeNumber, hDropNumber⟩
  rw [List.cons_append] at hTakeNumber hDropNumber
  unfold ofGap
  dsimp only
  by_cases hIndent : gap.indent ≠ 0
  · rw [if_pos hIndent, if_pos hIndent]
  · rw [if_neg hIndent, if_neg hIndent, hSome, List.cons_append]
    dsimp only
    rw [hTakeWord, hDropWord, hTakeNumber, hDropNumber]
    split_ifs <;> rfl

/-
  Any other lexeme is the same with a line after the text, unless
  it is an indentation with nothing after it.
-/
theorem scan_line
    (hShape : (scan lineStart a).shape ≠ .finish)
    (hOpen :
      (scan lineStart a).rest = [] →
        ∀ width, (scan lineStart a).shape ≠ .indent width)
    (b : List Char) :
    scan lineStart (a ++ '\n' :: b) =
      { scan lineStart a with
        rest := (scan lineStart a).rest ++ '\n' :: b } := by
  have hRest : (Gap.skip false lineStart 0 a).rest ≠ [] := by
    intro hNone
    rw [scan_eq_ofGap] at hShape hOpen
    generalize Gap.skip false lineStart 0 a = gap
      at hShape hOpen hNone
    unfold ofGap at hShape hOpen
    by_cases hIndent : gap.indent ≠ 0
    · rw [if_pos hIndent] at hOpen
      exact hOpen hNone gap.indent rfl
    · rw [if_neg hIndent, hNone] at hShape
      exact hShape rfl
  rw [scan_eq_ofGap, Gap.skip_append hRest, ofGap_line hRest,
    ← scan_eq_ofGap]

end Offside.Lexeme
