import Mathlib
import Offside.Proofs.Expression.Climbing

/-
  Layout: how blocks, the lines of a block and the statements
  in them take the tokens of indentation.

  Key definitions include:
    * `Offside.Token.indentation`
    * `Offside.Token.EndsBlock`
    * `Offside.Token.Stops`

  Main statements:
    * `Offside.Grammar.block_deeper`: a deeper indentation opens
      a block and sets the level, and the end of the block takes
      two off what the lines have left of it.
    * `Offside.Grammar.lines_end`, `Offside.Grammar.lines_next`:
      where the lines of a block end, and where they go on.
    * `Offside.Parse.branch_else`, `Offside.Parse.branch_last`,
      `Offside.Parse.branch_indent`: which tokens a condition
      takes after its first block.
-/

------------------------------------------------------------
-- Comparing Indentations
------------------------------------------------------------

namespace Offside.Amount

@[simp] theorem less_whole
    (m n : Int) :
    (whole m).less (whole n) = decide (m < n) := by
  simp [less, place?, Binary64.Place.less]

/- Of two amounts in order, neither is the other. -/
theorem same_eq_false_of_less
    {a b : Amount}
    (hLess : a.less b = true) :
    b.same a = false := by
  unfold less at hLess
  unfold same
  cases hA : a.place? with
  | none => simp
  | some p =>
      cases hB : b.place? with
      | none => simp
      | some q =>
          rw [hA, hB] at hLess
          simp only at hLess
          simp [Binary64.Place.same, hLess]

@[simp] theorem minus_whole
    (m n : Int) :
    (whole m).minus n = whole (m - n) :=
  rfl

end Offside.Amount

namespace Offside.Token

/- An indentation of a width. -/
def indentation
    (width : Int) :
    Token :=
  { kind := .indent, value := .amount (.whole width) }

/- A keyword. -/
def keyword
    (kind : Kind)
    (word : String) :
    Token :=
  { kind := kind, value := .text word }

/-
  Whether a token ends the lines of a block at the indentation
  `width`: it is no indentation, or a smaller one.
-/
def EndsBlock
    (width : Int)
    (t : Token) :
    Prop :=
  t.kind = .indent →
    ∃ found, t.value = .amount (.whole found) ∧ found < width

/- A token that neither calls nor binds what stands before it. -/
structure Stops
    (table : Precedence)
    (t : Token) :
    Prop where
  noCall : t.isOperator "(" = false
  loose : table.of t.value < 0

theorem stops_indentation
    (table : Precedence)
    (width : Int) :
    (indentation width).Stops table where
  noCall := by simp [indentation, isOperator]
  loose := by simp [indentation, Precedence.of]

theorem EndsBlock.mono
    {width width' : Int}
    {t : Token}
    (hEnd : t.EndsBlock width)
    (hLe : width ≤ width') :
    t.EndsBlock width' := by
  intro hKind
  rcases hEnd hKind with ⟨found, hValue, hLess⟩
  exact ⟨found, hValue, hLess.trans_le hLe⟩

theorem endsBlock_indentation
    {width width' : Int}
    (hLess : width < width') :
    (indentation width).EndsBlock width' :=
  fun _ => ⟨width, rfl, hLess⟩

theorem endsBlock_of_kind
    {t : Token}
    (hKind : t.kind ≠ .indent)
    (width : Int) :
    t.EndsBlock width :=
  fun h => absurd h hKind

end Offside.Token

------------------------------------------------------------
-- Blocks and Lines
------------------------------------------------------------

namespace Offside.Grammar

variable {table : Precedence}
variable {n : Nat}

/- A deeper indentation opens a block. -/
theorem block_deeper
    {t : Token}
    {indent level : Amount}
    {ts : List Token}
    (hValue : t.value = .amount indent)
    (hDeeper : level.less indent = true)
    (hSome : ts ≠ []) :
    block table (n + 1) ⟨t, ts, level⟩ =
      (do
        let nodes ← lines table n indent
        modify fun s =>
          { s with level := s.level.minus Parse.levelWidth }
        return .block nodes : Parse Node)
        (.before indent ts) := by
  rcases List.exists_cons_of_ne_nil hSome with ⟨u, us, rfl⟩
  have hNew := Amount.same_eq_false_of_less hDeeper
  simp [block, Parse.block, Steps.bind_apply, hValue, hNew, hDeeper]

/- Its lines end at a token that is not theirs. -/
theorem block_of_lines
    {width left : Int}
    {level : Amount}
    (hDeeper : level.less (.whole width) = true)
    {ts rest : List Token}
    (hSome : ts ≠ [])
    {nodes : List Node}
    {t : Token}
    (hLines :
      lines table n (.whole width) (.before (.whole width) ts) =
        .ok nodes ⟨t, rest, .whole left⟩) :
    block table (n + 1)
        (.before level (Token.indentation width :: ts)) =
      .ok (.block nodes) ⟨t, rest, .whole (left - 2)⟩ := by
  rw [ParseState.before_cons, block_deeper rfl hDeeper hSome,
    Steps.bind_apply, hLines]
  rfl

/- The lines end after one that a block's end follows. -/
theorem lines_end
    {width : Int}
    {s s' : ParseState}
    {e : Node}
    (hLine : expression table n s = .ok e s')
    (hEnd : s'.current.EndsBlock width) :
    lines table (n + 1) (.whole width) s = .ok [e] s' := by
  by_cases hIndent : s'.current.kind = .indent
  · rcases hEnd hIndent with ⟨found, hValue, hLess⟩
    simp [lines, Parse.lines, Steps.bind_apply, hLine, hIndent,
      hValue, hLess]
  · simp [lines, Parse.lines, Steps.bind_apply, hLine, hIndent]

/- The lines go on after one that the same indentation follows. -/
theorem lines_next
    {width : Int}
    {s : ParseState}
    {e : Node}
    {ts : List Token}
    {level : Amount}
    (hLine :
      expression table n s =
        .ok e ⟨Token.indentation width, ts, level⟩)
    (hSome : ts ≠ []) :
    lines table (n + 1) (.whole width) s =
      ((e :: ·) <$> lines table n (.whole width))
        (.before level ts) := by
  rcases List.exists_cons_of_ne_nil hSome with ⟨u, us, rfl⟩
  simp [lines, Parse.lines, Steps.bind_apply, hLine,
    Token.indentation]

end Offside.Grammar

------------------------------------------------------------
-- Statements as Expressions
------------------------------------------------------------

namespace Offside.Grammar

variable {table : Precedence}
variable {n : Nat}

/- What starts with no operator is a primary expression and its rest. -/
theorem expression_primary
    {s s' : ParseState}
    {e : Node}
    (hKind : s.current.kind ≠ .operator)
    (hRun : primary table n s = .ok e s') :
    expression table (n + 2) s = binaryRest table (n + 1) 0 e s' := by
  simp [expression, Parse.expression, unary, Parse.unary,
    Steps.bind_apply, hKind, hRun]

/- It ends there when the next token does not bind. -/
theorem expression_primary_stop
    {s s' : ParseState}
    {e : Node}
    (hKind : s.current.kind ≠ .operator)
    (hRun : primary table n s = .ok e s')
    (hLoose : table.of s'.current.value < 0) :
    expression table (n + 2) s = .ok e s' := by
  rw [expression_primary hKind hRun, binaryRest_stop hLoose]

theorem primary_branch
    {s : ParseState}
    (hKind : s.current.kind = .kwIf) :
    primary table (n + 1) s =
      Parse.branch (expression table n) (block table n) s := by
  simp [primary, Parse.primary, Steps.bind_apply, hKind]

theorem primary_loop
    {s : ParseState}
    (hKind : s.current.kind = .kwFor) :
    primary table (n + 1) s = Parse.loop (expression table n) s := by
  simp [primary, Parse.primary, Steps.bind_apply, hKind]

theorem primary_returned
    {s : ParseState}
    (hKind : s.current.kind = .kwReturn) :
    primary table (n + 1) s =
      Parse.returned (expression table n) s := by
  simp [primary, Parse.primary, Steps.bind_apply, hKind]

end Offside.Grammar

------------------------------------------------------------
-- Conditions
------------------------------------------------------------

namespace Offside.Parse

variable {expression block : Parse Node}
variable {t : Token}
variable {ts us : List Token}
variable {level level' : Amount}
variable {cond yes no : Node}

/- What a condition does up to the end of its first block. -/
theorem branch_start
    (hSome : ts ≠ [])
    (hCond :
      expression (.before level ts) =
        .ok cond ⟨Token.operator ":", us, level⟩)
    (hMore : us ≠ [])
    {s : ParseState}
    (hYes : block (.before level us) = .ok yes s) :
    branch expression block ⟨t, ts, level⟩ =
      (do
        if ← atKind .indent then
          advance
        let no ← (do
          if ← atKind .kwElse then
            advance
            expectColon "else"
            advance
            block
          else return .block [])
        return .branch cond yes no t.location : Parse Node) s := by
  simp [branch, Steps.bind_apply, advance_before _ _ hSome, hCond,
    expectColon_apply, advance_before _ _ hMore, hYes]

/- With an indentation and `else`, the second block follows. -/
theorem branch_else
    (hSome : ts ≠ [])
    (hCond :
      expression (.before level ts) =
        .ok cond ⟨Token.operator ":", us, level⟩)
    (hMore : us ≠ [])
    {width : Int}
    {vs : List Token}
    (hYes :
      block (.before level us) =
        .ok yes ⟨Token.indentation width,
          Token.keyword .kwElse "else" :: Token.operator ":" :: vs,
          level'⟩)
    (hLast : vs ≠ [])
    {s : ParseState}
    (hNo : block (.before level' vs) = .ok no s) :
    branch expression block ⟨t, ts, level⟩ =
      .ok (.branch cond yes no t.location) s := by
  rw [branch_start hSome hCond hMore hYes]
  simp [Steps.bind_apply, Steps.map_apply, Token.indentation,
    Token.keyword, expectColon_apply, advance_before _ _ hLast, hNo]

/- Without them, the first block is the only one. -/
theorem branch_last
    (hSome : ts ≠ [])
    (hCond :
      expression (.before level ts) =
        .ok cond ⟨Token.operator ":", us, level⟩)
    (hMore : us ≠ [])
    {s : ParseState}
    (hYes : block (.before level us) = .ok yes s)
    (hIndent : s.current.kind ≠ .indent)
    (hElse : s.current.kind ≠ .kwElse) :
    branch expression block ⟨t, ts, level⟩ =
      .ok (.branch cond yes (.block []) t.location) s := by
  rw [branch_start hSome hCond hMore hYes]
  simp [Steps.bind_apply, hIndent, hElse]

/-
  An indentation after the first block is taken whether or not
  `else` follows it.
-/
theorem branch_indent
    (hSome : ts ≠ [])
    (hCond :
      expression (.before level ts) =
        .ok cond ⟨Token.operator ":", us, level⟩)
    (hMore : us ≠ [])
    {width : Int}
    {u : Token}
    {vs : List Token}
    (hYes :
      block (.before level us) =
        .ok yes ⟨Token.indentation width, u :: vs, level'⟩)
    (hElse : u.kind ≠ .kwElse) :
    branch expression block ⟨t, ts, level⟩ =
      .ok (.branch cond yes (.block []) t.location)
        ⟨u, vs, level'⟩ := by
  rw [branch_start hSome hCond hMore hYes]
  simp [Steps.bind_apply, Steps.map_apply, Token.indentation, hElse]

end Offside.Parse

------------------------------------------------------------
-- Loops and Returned Values
------------------------------------------------------------

namespace Offside.Parse

variable {expression : Parse Node}
variable {t : Token}
variable {level : Amount}

/- A counter, its first value, its condition, its step, its body. -/
theorem loop_apply
    {x : Value}
    {ts us vs ws : List Token}
    {first last step body : Node}
    {s : ParseState}
    (hTs : ts ≠ [])
    (hUs : us ≠ [])
    (hVs : vs ≠ [])
    (hWs : ws ≠ [])
    (hFirst :
      expression (.before level ts) =
        .ok first ⟨Token.operator ",", us, level⟩)
    (hLast :
      expression (.before level us) =
        .ok last ⟨Token.operator ",", vs, level⟩)
    (hStep :
      expression (.before level vs) =
        .ok step ⟨Token.keyword .kwIn "in", ws, level⟩)
    (hBody : expression (.before level ws) = .ok body s) :
    loop expression
        ⟨t, Token.identifier x :: Token.operator "=" :: ts, level⟩ =
      .ok (.loop x first last step (.block [body])) s := by
  simp [loop, Steps.bind_apply, Steps.map_apply, expectKind_apply,
    expectOperator_apply, Token.identifier, Token.keyword,
    advance_before _ _ hTs, advance_before _ _ hUs,
    advance_before _ _ hVs, advance_before _ _ hWs,
    hFirst, hLast, hStep, hBody]

/- The value that is given back follows the keyword. -/
theorem returned_apply
    {ts : List Token}
    {value : Node}
    {s : ParseState}
    (hSome : ts ≠ [])
    (hValue : expression (.before level ts) = .ok value s) :
    returned expression ⟨t, ts, level⟩ = .ok (.ret value) s := by
  simp [returned, Steps.bind_apply, Steps.map_apply,
    advance_before _ _ hSome, hValue]

end Offside.Parse
