import Mathlib
import Offside.Proofs.Layout.Block

/-
  Results: what is known of a run from the tree that it gives.

  Key definitions include:
    * `Offside.Node.IsBinary`

  Main statements:
    * `Offside.Grammar.binaryRest_result`: a climb gives back its
      left operand or puts an operator on top.
    * `Offside.Grammar.lines_head`: the first line of a block is
      an expression.
    * `Offside.Grammar.block_result`: a block that is not empty
      was opened by a deeper indentation.
    * `Offside.Parse.branch_yes`, `Offside.Parse.branch_no`: the
      blocks of a condition come from blocks.
-/

------------------------------------------------------------
-- Expressions
------------------------------------------------------------

namespace Offside.Node

/- Whether the node is an operator between two operands. -/
def IsBinary
    (node : Node) :
    Prop :=
  ∃ op lhs rhs location, node = .binary op lhs rhs location

end Offside.Node

namespace Offside.Grammar

variable {table : Precedence}

/- A token that binds makes the left operand part of a binary node. -/
theorem binaryRest_binds
    {n : Nat}
    {least : Int}
    {lhs e : Node}
    {s s' : ParseState}
    (hBinds : least ≤ table.of s.current.value)
    (hRun : binaryRest table (n + 1) least lhs s = .ok e s') :
    ∃ rhs t,
      binaryRest table n least
        (.binary s.current.value lhs rhs s.current.location) t =
      .ok e s' := by
  have hNot : ¬ table.of s.current.value < least :=
    not_lt.mpr hBinds
  rw [binaryRest, Parse.binaryRest, Steps.bind_apply,
    Parse.current_apply] at hRun
  simp only [hNot, if_false] at hRun
  rcases Steps.bind_eq_ok hRun with ⟨_, s₁, _, hRun⟩
  rcases Steps.bind_eq_ok hRun with ⟨operand, s₂, _, hRun⟩
  rcases Steps.bind_eq_ok hRun with ⟨rhs, s₃, _, hRun⟩
  exact ⟨rhs, s₃, hRun⟩

/- A climb gives back its left operand or puts an operator on top. -/
theorem binaryRest_result
    {n : Nat}
    {least : Int}
    {lhs e : Node}
    {s s' : ParseState}
    (hRun : binaryRest table n least lhs s = .ok e s') :
    e = lhs ∨ e.IsBinary := by
  induction n generalizing lhs s with
  | zero => cases hRun
  | succ n ih =>
      by_cases hLoose : table.of s.current.value < least
      · rw [binaryRest_stop hLoose] at hRun
        cases hRun
        exact .inl rfl
      · rcases binaryRest_binds (not_lt.mp hLoose) hRun with
          ⟨rhs, t, hRest⟩
        rcases ih hRest with rfl | hBinary
        · exact .inr ⟨_, _, _, _, rfl⟩
        · exact .inr hBinary

/-
  What starts with no operator and has none on top is a primary
  expression.
-/
theorem primary_of_expression
    {n : Nat}
    {s s' : ParseState}
    {e : Node}
    (hKind : s.current.kind ≠ .operator)
    (hTop : ¬e.IsBinary)
    (hRun : expression table (n + 2) s = .ok e s') :
    ∃ t, primary table n s = .ok e t := by
  rw [expression, Parse.expression] at hRun
  rcases Steps.bind_eq_ok hRun with ⟨lhs, t, hLhs, hRest⟩
  have hUnary : unary table (n + 1) s = primary table n s := by
    simp [unary, Parse.unary, Steps.bind_apply, hKind]
  rw [hUnary] at hLhs
  rcases binaryRest_result hRest with rfl | hBinary
  · exact ⟨t, hLhs⟩
  · exact absurd hBinary hTop

end Offside.Grammar

------------------------------------------------------------
-- Blocks and Lines
------------------------------------------------------------

namespace Offside.Grammar

variable {table : Precedence}

/- The first line of a block, and that it is the only one unless an
   indentation follows. -/
theorem lines_head
    {n : Nat}
    {indent : Amount}
    {s s' : ParseState}
    {nodes : List Node}
    (hRun : lines table (n + 1) indent s = .ok nodes s') :
    ∃ e t es,
      expression table n s = .ok e t ∧
      nodes = e :: es ∧
      (t.current.kind ≠ .indent → es = []) := by
  rw [lines, Parse.lines] at hRun
  rcases Steps.bind_eq_ok hRun with ⟨e, t, hLine, hRun⟩
  rw [Steps.bind_apply, Parse.current_apply] at hRun
  by_cases hIndent : t.current.kind = .indent
  · simp only [hIndent, ne_eq, not_true_eq_false, if_false] at hRun
    cases hValue : t.current.value with
    | text word =>
        rw [hValue] at hRun
        cases hRun
    | amount found =>
        simp only [hValue] at hRun
        by_cases hLess : found.less indent = true
        · simp only [hLess, if_true] at hRun
          cases hRun
          exact ⟨e, _, [], hLine, rfl, fun _ => rfl⟩
        · by_cases hMore : indent.less found = true
          · simp only [hLess, hMore, if_true] at hRun
            cases hRun
          · simp only [hLess, hMore] at hRun
            rcases Steps.bind_eq_ok hRun with ⟨_, _, _, hRun⟩
            rcases Steps.bind_eq_ok hRun with ⟨es, _, _, hRun⟩
            cases hRun
            exact ⟨e, t, es, hLine, rfl, fun h => absurd hIndent h⟩
  · simp only [hIndent, ne_eq, not_false_eq_true, if_true] at hRun
    cases hRun
    exact ⟨e, _, [], hLine, rfl, fun _ => rfl⟩

/-
  A block that is not empty was opened by a deeper indentation,
  and what is in it are its lines.
-/
theorem block_result
    {n : Nat}
    {width level : Int}
    {ts : List Token}
    (hSome : ts ≠ [])
    {nodes : List Node}
    (hNodes : nodes ≠ [])
    {s : ParseState}
    (hRun :
      block table (n + 1)
          (.before (.whole level) (Token.indentation width :: ts)) =
        .ok (.block nodes) s) :
    level < width ∧
      ∃ t,
        lines table n (.whole width) (.before (.whole width) ts) =
          .ok nodes t := by
  rw [ParseState.before_cons] at hRun
  by_cases hDeeper : level < width
  · refine ⟨hDeeper, ?_⟩
    rw [block_deeper rfl (by simpa using hDeeper) hSome] at hRun
    rcases Steps.bind_eq_ok hRun with ⟨found, t, hLines, hRun⟩
    rcases Steps.bind_eq_ok hRun with ⟨_, _, _, hRun⟩
    cases hRun
    exact ⟨t, hLines⟩
  · -- It is refused at the level itself, and empty above it.
    rcases List.exists_cons_of_ne_nil hSome with ⟨u, us, rfl⟩
    simp only [block, Parse.block, Steps.bind_apply,
      Parse.current_apply, Parse.advance_apply, Steps.get_apply,
      Token.indentation, Amount.less_whole, hDeeper, decide_false,
      Bool.false_eq_true, if_false] at hRun
    split_ifs at hRun
    · cases hRun
    · cases hRun
      exact absurd rfl hNodes

end Offside.Grammar

------------------------------------------------------------
-- Conditions
------------------------------------------------------------

namespace Offside.Parse

variable {expression block : Parse Node}
variable {t : Token}
variable {ts us : List Token}
variable {level level' : Amount}
variable {cond cond' yes no : Node}
variable {location : Location}
variable {s : ParseState}

/- The first block of a condition. -/
theorem branch_yes
    (hSome : ts ≠ [])
    (hCond :
      expression (.before level ts) =
        .ok cond ⟨Token.operator ":", us, level⟩)
    (hMore : us ≠ [])
    (hRun :
      branch expression block ⟨t, ts, level⟩ =
        .ok (.branch cond' yes no location) s) :
    ∃ s', block (.before level us) = .ok yes s' := by
  cases hYes : block (.before level us) with
  | error e s' =>
      simp [branch, Steps.bind_apply, advance_before _ _ hSome, hCond,
        expectColon_apply, advance_before _ _ hMore, hYes] at hRun
  | ok found s' =>
      rw [branch_start hSome hCond hMore hYes] at hRun
      rcases Steps.bind_eq_ok hRun with ⟨indented, _, _, hRun⟩
      dsimp only at hRun
      split_ifs at hRun
      · rcases Steps.bind_eq_ok hRun with ⟨_, _, _, hRun⟩
        rcases Steps.bind_eq_ok hRun with ⟨_, _, _, hRun⟩
        cases hRun
        exact ⟨s', rfl⟩
      · rcases Steps.bind_eq_ok hRun with ⟨_, _, _, hRun⟩
        cases hRun
        exact ⟨s', rfl⟩

/- The second one, after an indentation and `else`. -/
theorem branch_no
    (hSome : ts ≠ [])
    (hCond :
      expression (.before level ts) =
        .ok cond ⟨Token.operator ":", us, level⟩)
    (hMore : us ≠ [])
    {width : Int}
    {vs : List Token}
    (hYes :
      block (.before level us) =
        .ok yes ⟨Token.indentation width,
          Token.keyword .kwElse "else" :: Token.operator ":" :: vs,
          level'⟩)
    (hLast : vs ≠ [])
    {yes' : Node}
    (hRun :
      branch expression block ⟨t, ts, level⟩ =
        .ok (.branch cond' yes' no location) s) :
    block (.before level' vs) = .ok no s := by
  cases hNo : block (.before level' vs) with
  | error e s' =>
      rw [branch_start hSome hCond hMore hYes] at hRun
      simp [Steps.bind_apply, Steps.map_apply, Token.indentation,
        Token.keyword, expectColon_apply, advance_before _ _ hLast,
        hNo] at hRun
  | ok found s' =>
      rw [branch_else hSome hCond hMore hYes hLast hNo] at hRun
      cases hRun
      rfl

end Offside.Parse
