import Mathlib
import Offside.Proofs.Layout.Result
import Offside.Token.Lexer

/-
  Lone conditions: those without `else`.  The indentation after
  the block of such a condition is taken by the condition, so
  that the line after it is no line of the block any more.

  Key definitions include:
    * `Offside.Line`
    * `Offside.Line.written`

  Main statement:
    * `Offside.Parser.parseForm_block_iff`: a block of plain
      lines and lone conditions is parsed as written exactly
      when no lone condition stands before its last line.
-/

------------------------------------------------------------
-- Lines
------------------------------------------------------------

namespace Offside

/-
  A line of a block: an expression, or a condition without
  `else` and the expressions in its block.
-/
inductive Line where
  | plain (e : Spelling)
  | lone (cond first : Spelling) (more : List Spelling)

/- The tokens of expressions, each on a line of that indentation. -/
def Spelling.indented
    (width : Int)
    (es : List Spelling) :
    List Token :=
  es.flatMap fun e => Token.indentation width :: e.tokens

@[simp] theorem Spelling.indented_nil
    (width : Int) :
    indented width [] = [] :=
  rfl

@[simp] theorem Spelling.indented_cons
    (width : Int)
    (e : Spelling)
    (es : List Spelling) :
    indented width (e :: es) =
      Token.indentation width :: (e.tokens ++ indented width es) :=
  rfl

namespace Line

/- Whether the line is an expression. -/
def IsPlain :
    Line →
    Prop
  | plain _ => True
  | lone .. => False

/-
  The tokens of a line at the indentation `width`; the block of
  a condition stands two deeper.
-/
def tokens
    (width : Int) :
    Line →
    List Token
  | plain e => e.tokens
  | lone cond first more =>
      Token.keyword .kwIf "if" :: cond.tokens ++
        Token.operator ":" ::
          Spelling.indented (width + 2) (first :: more)

/- The tree that a line stands for. -/
def node :
    Line →
    Node
  | plain e => e.node
  | lone cond first more =>
      .branch cond.node (.block (Spelling.nodes (first :: more)))
        (.block []) Location.origin

/- Whether the expressions of a line fit the table. -/
def Fits
    (table : Precedence) :
    Line →
    Prop
  | plain e => e.Fits table 0
  | lone cond first more =>
      cond.Fits table 0 ∧ Spelling.AllFit table (first :: more)

/- The tokens of lines, each after its indentation. -/
def written
    (width : Int)
    (lines : List Line) :
    List Token :=
  lines.flatMap fun l => Token.indentation width :: l.tokens width

@[simp] theorem written_nil
    (width : Int) :
    written width [] = [] :=
  rfl

@[simp] theorem written_cons
    (width : Int)
    (l : Line)
    (ls : List Line) :
    written width (l :: ls) =
      Token.indentation width :: (l.tokens width ++ written width ls) :=
  rfl

end Line

end Offside

------------------------------------------------------------
-- Plain Lines
------------------------------------------------------------

namespace Offside.Grammar

variable {table : Precedence}

/- An expression before the same indentation is one more line. -/
theorem lines_plain
    (hTable : table.Proper)
    {e : Spelling}
    (hFits : e.Fits table 0)
    {width : Int}
    {us : List Token}
    (hSome : us ≠ [])
    {level : Amount}
    {n : Nat}
    (hAllowed : 5 * e.tokens.length + 1 ≤ n) :
    lines table (n + 1) (.whole width)
        (.before level
          (e.tokens ++ Token.indentation width :: us)) =
      ((e.node :: ·) <$> lines table n (.whole width))
        (.before level us) := by
  have hIndent := Token.stops_indentation table width
  exact lines_next
    ((Spelling.parsed hTable e).expression hFits hAllowed
      hIndent.noCall hIndent.loose)
    hSome

/- Expressions on lines of their own are the lines of a block. -/
theorem lines_spellings
    (hTable : table.Proper)
    (first : Spelling)
    (more : List Spelling)
    (hFit : Spelling.AllFit table (first :: more))
    {width : Int}
    {t : Token}
    (hEnd : t.EndsBlock width)
    (hStops : t.Stops table)
    {rest : List Token}
    {level : Amount}
    {n : Nat}
    (hAllowed :
      5 * (first.tokens ++
        Spelling.indented width more).length + 2 ≤ n) :
    lines table n (.whole width)
        (.before level
          (first.tokens ++ Spelling.indented width more ++
            t :: rest)) =
      .ok (Spelling.nodes (first :: more)) ⟨t, rest, level⟩ := by
  obtain ⟨m, rfl⟩ : ∃ m, n = m + 1 := ⟨n - 1, by omega⟩
  induction more generalizing first m with
  | nil =>
      simp only [Spelling.indented_nil, List.append_nil] at hAllowed ⊢
      exact lines_end
        ((Spelling.parsed hTable first).expression hFit.1 (by omega)
          hStops.noCall hStops.loose) hEnd
  | cons second more ih =>
      simp only [Spelling.indented_cons, List.length_append,
        List.length_cons] at hAllowed
      obtain ⟨k, rfl⟩ : ∃ k, m = k + 1 := ⟨m - 1, by omega⟩
      have hTokens :
          first.tokens ++ Spelling.indented width (second :: more) ++
              t :: rest =
            first.tokens ++ Token.indentation width ::
              (second.tokens ++ Spelling.indented width more ++
                t :: rest) := by
        simp
      rw [hTokens, lines_plain hTable hFit.1 (by simp) (by omega),
        Steps.map_apply, ih second hFit.2 k
          (by simp only [List.length_append]; omega)]
      rfl

/- They make a block, whose end takes two off its indentation. -/
theorem block_spellings
    (hTable : table.Proper)
    (first : Spelling)
    (more : List Spelling)
    (hFit : Spelling.AllFit table (first :: more))
    {width : Int}
    {t : Token}
    (hEnd : t.EndsBlock width)
    (hStops : t.Stops table)
    {rest : List Token}
    {level : Amount}
    (hDeeper : level.less (.whole width) = true)
    {n : Nat}
    (hAllowed :
      5 * (Spelling.indented width (first :: more)).length ≤ n) :
    block table n
        (.before level
          (Spelling.indented width (first :: more) ++ t :: rest)) =
      .ok (.block (Spelling.nodes (first :: more)))
        ⟨t, rest, .whole (width - 2)⟩ := by
  simp only [Spelling.indented_cons, List.length_append,
    List.length_cons] at hAllowed
  obtain ⟨m, rfl⟩ : ∃ m, n = m + 1 := ⟨n - 1, by omega⟩
  have hLines :
      lines table m (.whole width)
          (.before (.whole width)
            (first.tokens ++ Spelling.indented width more ++
              t :: rest)) =
        .ok (Spelling.nodes (first :: more))
          ⟨t, rest, .whole width⟩ :=
    lines_spellings hTable first more hFit hEnd hStops
      (by simp only [List.length_append]; omega)
  rw [Spelling.indented_cons, List.cons_append]
  exact block_of_lines hDeeper (by simp) hLines

end Offside.Grammar

------------------------------------------------------------
-- Lone Conditions
------------------------------------------------------------

namespace Offside.Grammar

variable {table : Precedence}

/-
  The first block of a lone condition, up to whatever token
  ends it.
-/
theorem block_lone
    (hTable : table.Proper)
    {first : Spelling}
    {more : List Spelling}
    (hFit : Spelling.AllFit table (first :: more))
    {width : Int}
    {t : Token}
    (hEnd : t.EndsBlock (width + 2))
    (hStops : t.Stops table)
    {rest : List Token}
    {n : Nat}
    (hAllowed :
      5 * (Spelling.indented (width + 2) (first :: more)).length ≤ n) :
    block table n
        (.before (.whole width)
          (Spelling.indented (width + 2) (first :: more) ++
            t :: rest)) =
      .ok (.block (Spelling.nodes (first :: more)))
        ⟨t, rest, .whole width⟩ := by
  have hBlock :
      block table n
          (.before (.whole width)
            (Spelling.indented (width + 2) (first :: more) ++
              t :: rest)) =
        .ok (.block (Spelling.nodes (first :: more)))
          ⟨t, rest, .whole (width + 2 - 2)⟩ :=
    block_spellings hTable first more hFit hEnd hStops
      (by simp) hAllowed
  rwa [add_sub_cancel_right] at hBlock

/- A lone condition starts with its condition and a colon. -/
theorem expression_cond
    (hTable : table.Proper)
    (hColon : table.of (.text ":") < 0)
    {cond : Spelling}
    (hFits : cond.Fits table 0)
    {us : List Token}
    {level : Amount}
    {n : Nat}
    (hAllowed : 5 * cond.tokens.length + 1 ≤ n) :
    expression table n
        (.before level (cond.tokens ++ Token.operator ":" :: us)) =
      .ok cond.node ⟨Token.operator ":", us, level⟩ :=
  (Spelling.parsed hTable cond).expression hFits hAllowed
    (by decide) hColon

/- Before a token that is no indentation it ends there. -/
theorem primary_lone_last
    (hTable : table.Proper)
    (hColon : table.of (.text ":") < 0)
    {cond first : Spelling}
    {more : List Spelling}
    (hFits : (Line.lone cond first more).Fits table)
    {width : Int}
    {t : Token}
    (hIndent : t.kind ≠ .indent)
    (hElse : t.kind ≠ .kwElse)
    (hStops : t.Stops table)
    {rest : List Token}
    {n : Nat}
    (hAllowed :
      5 * ((Line.lone cond first more).tokens width).length ≤ n + 5) :
    primary table (n + 1)
        (.before (.whole width)
          ((Line.lone cond first more).tokens width ++ t :: rest)) =
      .ok (Line.lone cond first more).node
        ⟨t, rest, .whole width⟩ := by
  simp only [Line.tokens, List.length_append, List.length_cons]
    at hAllowed
  have hYes :
      block table n
          (.before (.whole width)
            (Spelling.indented (width + 2) (first :: more) ++
              t :: rest)) =
        .ok (.block (Spelling.nodes (first :: more)))
          ⟨t, rest, .whole width⟩ :=
    block_lone hTable hFits.2 (Token.endsBlock_of_kind hIndent _) hStops
      (by omega)
  have hTokens :
      (Line.lone cond first more).tokens width ++ t :: rest =
        Token.keyword .kwIf "if" ::
          (cond.tokens ++ Token.operator ":" ::
            (Spelling.indented (width + 2) (first :: more) ++
              t :: rest)) := by
    simp [Line.tokens]
  rw [hTokens, ParseState.before_cons, primary_branch rfl]
  exact Parse.branch_last (by simp)
    (expression_cond hTable hColon hFits.1 (by omega)) (by simp)
    hYes hIndent hElse

/-
  Before an indentation it takes that one too, and ends at the
  token after it.
-/
theorem primary_lone_indent
    (hTable : table.Proper)
    (hColon : table.of (.text ":") < 0)
    {cond first : Spelling}
    {more : List Spelling}
    (hFits : (Line.lone cond first more).Fits table)
    {width : Int}
    {u : Token}
    (hElse : u.kind ≠ .kwElse)
    {us : List Token}
    {n : Nat}
    (hAllowed :
      5 * ((Line.lone cond first more).tokens width).length ≤ n + 5) :
    primary table (n + 1)
        (.before (.whole width)
          ((Line.lone cond first more).tokens width ++
            Token.indentation width :: u :: us)) =
      .ok (Line.lone cond first more).node
        ⟨u, us, .whole width⟩ := by
  simp only [Line.tokens, List.length_append, List.length_cons]
    at hAllowed
  have hEnd : (Token.indentation width).EndsBlock (width + 2) :=
    Token.endsBlock_indentation (by omega)
  have hYes :
      block table n
          (.before (.whole width)
            (Spelling.indented (width + 2) (first :: more) ++
              Token.indentation width :: u :: us)) =
        .ok (.block (Spelling.nodes (first :: more)))
          ⟨Token.indentation width, u :: us, .whole width⟩ :=
    block_lone hTable hFits.2 hEnd
      (Token.stops_indentation table width) (by omega)
  have hTokens :
      (Line.lone cond first more).tokens width ++
          Token.indentation width :: u :: us =
        Token.keyword .kwIf "if" ::
          (cond.tokens ++ Token.operator ":" ::
            (Spelling.indented (width + 2) (first :: more) ++
              Token.indentation width :: u :: us)) := by
    simp [Line.tokens]
  rw [hTokens, ParseState.before_cons, primary_branch rfl]
  exact Parse.branch_indent (by simp)
    (expression_cond hTable hColon hFits.1 (by omega)) (by simp)
    hYes hElse

end Offside.Grammar

------------------------------------------------------------
-- Blocks That Are Parsed as Written
------------------------------------------------------------

namespace Offside.Grammar

variable {table : Precedence}

/- The last line of a block, before a token that ends all blocks. -/
theorem expression_line_last
    (hTable : table.Proper)
    (hColon : table.of (.text ":") < 0)
    (l : Line)
    (hFits : l.Fits table)
    {width : Int}
    {t : Token}
    (hIndent : t.kind ≠ .indent)
    (hElse : t.kind ≠ .kwElse)
    (hStops : t.Stops table)
    {rest : List Token}
    {n : Nat}
    (hAllowed : 5 * (l.tokens width).length + 1 ≤ n) :
    expression table n
        (.before (.whole width) (l.tokens width ++ t :: rest)) =
      .ok l.node ⟨t, rest, .whole width⟩ := by
  cases l with
  | plain e =>
      exact (Spelling.parsed hTable e).expression hFits hAllowed
        hStops.noCall hStops.loose
  | lone cond first more =>
      obtain ⟨m, rfl⟩ : ∃ m, n = m + 3 :=
        ⟨n - 3, by simp [Line.tokens] at hAllowed; omega⟩
      refine expression_primary_stop (by simp [Line.tokens, Token.keyword])
        (primary_lone_last hTable hColon hFits hIndent hElse hStops ?_)
        hStops.loose
      omega

/- With lone conditions only at its end, a block has all its lines. -/
theorem lines_written
    (hTable : table.Proper)
    (hColon : table.of (.text ":") < 0)
    (l : Line)
    (ls : List Line)
    (hFits : ∀ l' ∈ l :: ls, l'.Fits table)
    (hPlain : ∀ l' ∈ (l :: ls).dropLast, l'.IsPlain)
    {width : Int}
    {t : Token}
    (hIndent : t.kind ≠ .indent)
    (hElse : t.kind ≠ .kwElse)
    (hStops : t.Stops table)
    {rest : List Token}
    {n : Nat}
    (hAllowed :
      5 * (l.tokens width ++ Line.written width ls).length + 2 ≤ n) :
    lines table n (.whole width)
        (.before (.whole width)
          (l.tokens width ++ Line.written width ls ++ t :: rest)) =
      .ok ((l :: ls).map Line.node) ⟨t, rest, .whole width⟩ := by
  obtain ⟨m, rfl⟩ : ∃ m, n = m + 1 := ⟨n - 1, by omega⟩
  induction ls generalizing l m with
  | nil =>
      simp only [Line.written_nil, List.append_nil] at hAllowed ⊢
      exact lines_end
        (expression_line_last hTable hColon l (hFits l (by simp))
          hIndent hElse hStops (by omega))
        (Token.endsBlock_of_kind hIndent width)
  | cons l' ls ih =>
      cases l with
      | lone cond first more =>
          exact (hPlain (.lone cond first more) (by simp)).elim
      | plain e =>
          simp only [Line.written_cons, List.length_append,
            List.length_cons] at hAllowed
          obtain ⟨k, rfl⟩ : ∃ k, m = k + 1 := ⟨m - 1, by omega⟩
          have hTokens :
              (Line.plain e).tokens width ++
                  Line.written width (l' :: ls) ++ t :: rest =
                e.tokens ++ Token.indentation width ::
                  (l'.tokens width ++ Line.written width ls ++
                    t :: rest) := by
            simp [Line.tokens]
          have hLater : ∀ l ∈ (l' :: ls).dropLast, l.IsPlain :=
            fun l hMem => hPlain l (by simp [hMem])
          rw [hTokens,
            lines_plain hTable (hFits (.plain e) (by simp)) (by simp)
              (by simp only [Line.tokens] at hAllowed; omega),
            Steps.map_apply,
            ih l' (fun l hMem => hFits l (List.mem_cons_of_mem _ hMem))
              hLater k (by simp only [List.length_append]; omega)]
          rfl

end Offside.Grammar

------------------------------------------------------------
-- Blocks That Are Not
------------------------------------------------------------

namespace Offside.Line

/- A line begins neither with an indentation nor with `else`. -/
theorem head_tokens
    {table : Precedence}
    {l : Line}
    (hFits : l.Fits table)
    (width : Int)
    (ts : List Token) :
    ∃ u us, l.tokens width ++ ts = u :: us ∧
      u.kind ≠ .indent ∧ u.kind ≠ .kwElse := by
  cases l with
  | plain e =>
      rcases Spelling.head_tokens hFits ts with
        ⟨u, us, hHead, hKind, _⟩
      refine ⟨u, us, hHead, ?_, ?_⟩
      all_goals
        intro h
        simp [h] at hKind
  | lone cond first more =>
      exact ⟨_, _, rfl, by simp [Token.keyword],
        by simp [Token.keyword]⟩

end Offside.Line

namespace Offside.Grammar

variable {table : Precedence}

/-
  After a lone condition no line of the block follows: the next
  line is left out, or becomes the right operand of an operator
  whose left operand is the condition.
-/
theorem lines_lone_eq_nil
    (hTable : table.Proper)
    (hColon : table.of (.text ":") < 0)
    {cond first : Spelling}
    {more : List Spelling}
    (hFits : (Line.lone cond first more).Fits table)
    {width : Int}
    {u : Token}
    (hIndent : u.kind ≠ .indent)
    (hElse : u.kind ≠ .kwElse)
    {us : List Token}
    {s : ParseState}
    {n : Nat}
    (hAllowed :
      5 * ((Line.lone cond first more).tokens width).length + 2 ≤ n)
    {nodes : List Node}
    (hRun :
      lines table n (.whole width)
          (.before (.whole width)
            ((Line.lone cond first more).tokens width ++
              Token.indentation width :: u :: us)) =
        .ok ((Line.lone cond first more).node :: nodes) s) :
    nodes = [] := by
  obtain ⟨m, rfl⟩ : ∃ m, n = m + 4 :=
    ⟨n - 4, by simp [Line.tokens] at hAllowed; omega⟩
  rcases lines_head hRun with ⟨e, s₁, es, hLine, hNodes, hOnly⟩
  injection hNodes with hNode hRest
  subst hNode hRest
  have hPrimary :
      primary table (m + 1)
          (.before (.whole width)
            ((Line.lone cond first more).tokens width ++
              Token.indentation width :: u :: us)) =
        .ok (Line.lone cond first more).node
          ⟨u, us, .whole width⟩ :=
    primary_lone_indent hTable hColon hFits hElse (by omega)
  rw [expression_primary (by simp [Line.tokens, Token.keyword])
    hPrimary] at hLine
  by_cases hLoose : table.of u.value < 0
  · rw [binaryRest_stop hLoose] at hLine
    cases hLine
    exact hOnly hIndent
  · -- what follows the condition becomes its right operand
    rcases binaryRest_binds (not_lt.mp hLoose) hLine with
      ⟨rhs, s₂, hRest⟩
    rcases binaryRest_result hRest with hSame | ⟨_, _, _, _, hSame⟩
    all_goals cases hSame

/-
  A block that has all its lines has no lone condition before
  the last one.
-/
theorem plain_of_lines_written
    (hTable : table.Proper)
    (hColon : table.of (.text ":") < 0)
    (l : Line)
    (ls : List Line)
    (hFits : ∀ l' ∈ l :: ls, l'.Fits table)
    {width : Int}
    {ts : List Token}
    {s : ParseState}
    {n : Nat}
    (hAllowed :
      5 * (l.tokens width ++ Line.written width ls).length + 2 ≤ n)
    (hRun :
      lines table n (.whole width)
          (.before (.whole width)
            (l.tokens width ++ Line.written width ls ++ ts)) =
        .ok ((l :: ls).map Line.node) s) :
    ∀ l' ∈ (l :: ls).dropLast, l'.IsPlain := by
  induction ls generalizing l n with
  | nil => simp
  | cons l' ls ih =>
      simp only [Line.written_cons, List.length_append,
        List.length_cons] at hAllowed
      have hTail : ∀ l'' ∈ l' :: ls, l''.Fits table :=
        fun l'' hMem => hFits l'' (List.mem_cons_of_mem _ hMem)
      cases l with
      | plain e =>
          obtain ⟨m, rfl⟩ : ∃ m, n = m + 1 := ⟨n - 1, by omega⟩
          have hTokens :
              (Line.plain e).tokens width ++
                  Line.written width (l' :: ls) ++ ts =
                e.tokens ++ Token.indentation width ::
                  (l'.tokens width ++ Line.written width ls ++ ts) := by
            simp [Line.tokens]
          rcases
              Line.head_tokens (hTail l' (by simp)) width
                (Line.written width ls ++ ts) with
            ⟨u, us, hHead, _, _⟩
          rw [hTokens,
            lines_plain hTable (hFits (.plain e) (by simp))
              (by simp [hHead])
              (by simp only [Line.tokens] at hAllowed; omega)] at hRun
          rcases Steps.map_eq_ok hRun with ⟨nodes, hMore, hNodes⟩
          injection hNodes with _ hNodes
          rw [hNodes] at hMore
          have hLater := ih l' hTail
            (by simp only [List.length_append]; omega) hMore
          intro l'' hMem
          rcases List.mem_cons.mp hMem with rfl | hMem
          · trivial
          · exact hLater l'' hMem
      | lone cond first more =>
          rcases
              Line.head_tokens (hTail l' (by simp)) width
                (Line.written width ls ++ ts) with
            ⟨u, us, hHead, hIndent, hElse⟩
          have hTokens :
              (Line.lone cond first more).tokens width ++
                  Line.written width (l' :: ls) ++ ts =
                (Line.lone cond first more).tokens width ++
                  Token.indentation width :: u :: us := by
            simp [hHead]
          rw [hTokens] at hRun
          have hNone := lines_lone_eq_nil hTable hColon
            (hFits (.lone cond first more) (by simp)) hIndent hElse
            (by omega) hRun
          cases hNone

/- A block as written, from the token that opens it. -/
theorem block_written
    (hTable : table.Proper)
    (hColon : table.of (.text ":") < 0)
    (l : Line)
    (ls : List Line)
    (hFits : ∀ l' ∈ l :: ls, l'.Fits table)
    (hPlain : ∀ l' ∈ (l :: ls).dropLast, l'.IsPlain)
    {width : Int}
    {level : Amount}
    (hDeeper : level.less (.whole width) = true)
    {t : Token}
    (hIndent : t.kind ≠ .indent)
    (hElse : t.kind ≠ .kwElse)
    (hStops : t.Stops table)
    {rest : List Token}
    {n : Nat}
    (hAllowed : 5 * (Line.written width (l :: ls)).length ≤ n) :
    block table n
        (.before level (Line.written width (l :: ls) ++ t :: rest)) =
      .ok (.block ((l :: ls).map Line.node))
        ⟨t, rest, .whole (width - 2)⟩ := by
  simp only [Line.written_cons, List.length_cons] at hAllowed
  obtain ⟨m, rfl⟩ : ∃ m, n = m + 1 := ⟨n - 1, by omega⟩
  rw [Line.written_cons, List.cons_append]
  exact block_of_lines hDeeper (by simp)
    (lines_written hTable hColon l ls hFits hPlain hIndent hElse
      hStops (by omega))

theorem plain_of_block_written
    (hTable : table.Proper)
    (hColon : table.of (.text ":") < 0)
    (l : Line)
    (ls : List Line)
    (hFits : ∀ l' ∈ l :: ls, l'.Fits table)
    {width : Int}
    {level : Amount}
    (hDeeper : level.less (.whole width) = true)
    {t : Token}
    {rest : List Token}
    {s : ParseState}
    {n : Nat}
    (hAllowed : 5 * (Line.written width (l :: ls)).length ≤ n)
    (hRun :
      block table n
          (.before level (Line.written width (l :: ls) ++ t :: rest)) =
        .ok (.block ((l :: ls).map Line.node)) s) :
    ∀ l' ∈ (l :: ls).dropLast, l'.IsPlain := by
  simp only [Line.written_cons, List.length_cons] at hAllowed
  obtain ⟨m, rfl⟩ : ∃ m, n = m + 1 := ⟨n - 1, by omega⟩
  simp only [Line.written_cons, List.cons_append,
    ParseState.before_cons] at hRun
  rw [block_deeper rfl hDeeper (by simp)] at hRun
  rcases Steps.bind_eq_ok hRun with ⟨nodes, s₁, hLines, hRun⟩
  rcases Steps.bind_eq_ok hRun with ⟨_, _, _, hRun⟩
  cases hRun
  exact plain_of_lines_written hTable hColon l ls hFits
    (by omega) hLines

end Offside.Grammar

------------------------------------------------------------
-- Tokens of a Lexer
------------------------------------------------------------

namespace Offside

/- A value that the table does not have does not bind. -/
theorem Precedence.of_neg
    {table : Precedence}
    {operator : String}
    (hNone : ∀ entry ∈ table.entries, operator ≠ entry.1) :
    table.of (.text operator) < 0 := by
  have hLookup : table.entries.lookup operator = none := by
    rw [List.lookup_eq_none_iff]
    simpa using hNone
  simp [of, hLookup]

/- A lexeme that is a word starts as words do. -/
theorem Lexeme.scan_word
    {lineStart : Bool}
    {text : List Char}
    (hShape : (scan lineStart text).shape = .word) :
    ∃ c cs, (scan lineStart text).chars = c :: cs ∧
      startsWord c = true := by
  unfold scan at hShape ⊢
  dsimp only at hShape ⊢
  split at hShape
  · cases hShape
  · split at hShape
    · cases hShape
    · split at hShape
      · rename_i hWord
        simp_all
      · split at hShape <;> cases hShape

/- A word does not bind in the table of the language. -/
theorem Precedence.default_of_word
    {c : Char}
    {cs : List Char}
    (hWord : Lexeme.startsWord c = true) :
    default.of (.text (String.ofList (c :: cs))) < 0 := by
  apply of_neg
  intro entry hEntry hSame
  have hChars : entry.1.toList = c :: cs := by
    simp [← hSame]
  simp only [default, List.mem_cons, List.not_mem_nil,
    or_false] at hEntry
  rcases hEntry with rfl | rfl | rfl | rfl | rfl | rfl
  all_goals
    cases hChars
    revert hWord
    decide

/- Of the tokens of a lexer only operators bind. -/
theorem Token.stops_of_next
    {l : Lexer}
    {t : Token}
    (hLexed : l.next.1 = .ok t)
    (hKind : t.kind ≠ .operator) :
    t.Stops Precedence.default where
  noCall := by simp [isOperator, hKind]
  loose := by
    rw [Lexer.next] at hLexed
    simp only [Lexeme.content] at hLexed
    split at hLexed
    · cases hLexed
      simp [Precedence.of]
    · rename_i hShape
      rcases Lexeme.scan_word hShape with ⟨c, cs, hChars, hWord⟩
      cases hLexed
      rw [hChars]
      exact Precedence.default_of_word hWord
    · split at hLexed
      · cases hLexed
        simp [Precedence.of]
      · cases hLexed
    · cases hLexed
      contradiction
    · cases hLexed
      change Precedence.default.of (.text "") < 0
      decide

end Offside

------------------------------------------------------------
-- Blocks of a Parser
------------------------------------------------------------

namespace Offside.Parser

/-
  Before a block of plain lines and lone conditions, and a token
  that is neither an indentation nor `else` nor an operator, a
  parser gives a block with just these lines and stops at that
  token if and only if no line but the last one is a lone
  condition.
-/
theorem parseForm_block_iff
    (p : Parser)
    (line : Line)
    (lines : List Line)
    (width : Int)
    (ts rest : List Token)
    (t : Token)
    (hTable : p.table = Precedence.default)
    (hDeeper : p.level.less (.whole width) = true)
    (hFits : ∀ l ∈ line :: lines, l.Fits Precedence.default)
    (hWritten :
      ts.map Token.unlocated = Line.written width (line :: lines))
    (hTokens : p.tokens.current :: p.tokens.rest = ts ++ t :: rest)
    (hLexed : ∃ l : Lexer, l.next.1 = .ok t)
    (hIndent : t.kind ≠ .indent)
    (hElse : t.kind ≠ .kwElse)
    (hOperator : t.kind ≠ .operator) :
    (∃ node p',
      p.parseForm .block = (.ok node, p') ∧
      node.unlocated = .block ((line :: lines).map Line.node) ∧
      p'.tokens.current = t ∧
      p'.tokens.rest = rest) ↔
    ∀ l ∈ (line :: lines).dropLast, l.IsPlain := by
  rcases hLexed with ⟨l, hNext⟩
  have hColon : Precedence.default.of (.text ":") < 0 := by decide
  have hState : p.state = .before p.level (ts ++ t :: rest) := by
    rw [← hTokens]
    rfl
  have hAllowed :
      5 * (Line.written width (line :: lines)).length ≤
        Grammar.allowance p.tokens.rest.length := by
    have hSame := congrArg List.length hTokens
    simp only [List.length_cons, List.length_append] at hSame
    rw [← hWritten, List.length_map, Grammar.allowance]
    omega
  have hBlock := (Grammar.orderly Precedence.default
    (Grammar.allowance p.tokens.rest.length)).block
  have hUnlocated :
      (ts ++ t :: rest).map Token.unlocated =
        Line.written width (line :: lines) ++
          t.unlocated :: rest.map Token.unlocated := by
    rw [List.map_append, hWritten, List.map_cons]
  constructor
  · rintro ⟨node, p', hParse, hNode, _, _⟩
    obtain ⟨s, hRun⟩ :
        ∃ s,
          Grammar.block p.table
              (Grammar.allowance p.tokens.rest.length) p.state =
            .ok node s :=
      run_of_parseForm hParse
    have hSame := hBlock.unlocated (.before p.level (ts ++ t :: rest))
    rw [hTable, hState] at hRun
    rw [ParseState.unlocated_before, hUnlocated, hRun,
      Parse.unlocatedResult, hNode] at hSame
    exact Grammar.plain_of_block_written Precedence.proper_default
      hColon line lines hFits hDeeper hAllowed hSame
  · intro hPlain
    have hRun :
        Grammar.block Precedence.default
            (Grammar.allowance p.tokens.rest.length)
            (.before p.level
              ((ts ++ t :: rest).map Token.unlocated)) =
          .ok (.block ((line :: lines).map Line.node))
            ⟨t.unlocated, rest.map Token.unlocated,
              .whole (width - 2)⟩ := by
      rw [hUnlocated]
      have hStops := Token.stops_of_next hNext hOperator
      exact Grammar.block_written (t := t.unlocated)
        Precedence.proper_default hColon line lines hFits hPlain
        hDeeper hIndent hElse ⟨hStops.noCall, hStops.loose⟩ hAllowed
    rcases hBlock.lift hRun with ⟨node, hNode, hRun⟩
    rcases
        parseForm_ok .block hTokens (by rw [hTable]; exact hRun) with
      ⟨p', hParse, hCurrent, hRest, _⟩
    exact ⟨node, p', hParse, hNode, hCurrent, hRest⟩

/- The end of an empty text. -/
def finalToken : Token :=
  { kind := .endOfText, value := .text "", location := ⟨0, 1⟩ }

/- The parser before lines indented by two and the end of the text. -/
def beforeLines
    (lines : List Line) :
    Parser :=
  { table := Precedence.default
    level := .whole 0
    tokens :=
      ⟨Line.written 2 lines ++ [finalToken], 1,
        Token.indentation 2⟩ }

/- A line with one name, and a lone condition of two. -/
def sampleLines : Line × Line :=
  (.plain (.name (.text "c")),
    .lone (.name (.text "a")) (.name (.text "b")) [])

/-
  The condition before the name loses the name; the condition
  after it does not.
-/
theorem parseForm_block_iff_sample :
    (¬ ∃ node p',
      (beforeLines [sampleLines.2, sampleLines.1]).parseForm .block =
        (.ok node, p') ∧
      node.unlocated =
        .block ([sampleLines.2, sampleLines.1].map Line.node) ∧
      p'.tokens.current = finalToken ∧
      p'.tokens.rest = []) ∧
    ∃ node p',
      (beforeLines [sampleLines.1, sampleLines.2]).parseForm .block =
        (.ok node, p') ∧
      node.unlocated =
        .block ([sampleLines.1, sampleLines.2].map Line.node) ∧
      p'.tokens.current = finalToken ∧
      p'.tokens.rest = [] := by
  have hLexed : ∃ l : Lexer, l.next.1 = .ok finalToken :=
    ⟨Lexer.start [], by decide⟩
  have hFits : ∀ l, l = sampleLines.1 ∨ l = sampleLines.2 →
      l.Fits Precedence.default := by
    rintro l (rfl | rfl)
    · trivial
    · simp [sampleLines, Line.Fits, Spelling.Fits, Spelling.AllFit]
  constructor
  · rw [parseForm_block_iff (beforeLines [sampleLines.2, sampleLines.1])
      sampleLines.2 [sampleLines.1] 2
      (Line.written 2 [sampleLines.2, sampleLines.1]) [] finalToken rfl
      (by decide) (fun l hMem => hFits l (by simpa [or_comm] using hMem))
      (by decide) (by decide) hLexed (by decide) (by decide) (by decide)]
    intro hPlain
    exact hPlain sampleLines.2 (by simp)
  · rw [parseForm_block_iff (beforeLines [sampleLines.1, sampleLines.2])
      sampleLines.1 [sampleLines.2] 2
      (Line.written 2 [sampleLines.1, sampleLines.2]) [] finalToken rfl
      (by decide) (fun l hMem => hFits l (by simpa using hMem))
      (by decide) (by decide) hLexed (by decide) (by decide) (by decide)]
    intro l hMem
    rw [List.mem_singleton.mp hMem]
    trivial

end Offside.Parser
