import Mathlib
import Offside.Proofs.Program.Concatenation

/-
  Expressions in parentheses: they are parsed to the same tree,
  with the same locations, as without the parentheses.

  Main statements:
    * `Offside.Token.parts_closing`: a parenthesis that closes can
      stand where a text ends.
    * `Offside.Grammar.expression_closed`: an expression that goes
      up to the end of a text is the same up to a parenthesis.
    * `Offside.Parser.parseForm_enclosed`: an expression, whatever
      its form, and the same one in parentheses.
-/

------------------------------------------------------------
-- Up to a Closing Parenthesis
------------------------------------------------------------

namespace Offside

/-
  A parenthesis that closes can stand at the end of a text.  It
  would be taken for an operator before an operand, but where an
  operand is looked for the end is refused.
-/
theorem Token.parts_closing
    {e t : Token}
    (hEnd : e.unlocated = Token.finish)
    (hClosing : t.isOperator ")" = true) :
    Token.Parts Precedence.default e t := by
  have hBoth : t.kind = .operator ∧ t.value = .text ")" := by
    simpa [Token.isOperator] using hClosing
  have hValue : e.value = .text "" := congrArg Token.value hEnd
  refine ⟨congrArg Token.kind hEnd, ?_, ?_, ?_, ?_, ?_⟩
  · rw [hValue]
    decide
  · rw [hBoth.2]
    decide
  · rw [hBoth.1]
    decide
  · rw [hBoth.1]
    decide
  · intro s _ hOther
    simp [Token.isOperator, hBoth.2, hOther.symm]

namespace Grammar

variable {ts : List Token}
variable {e closing : Token}
variable {level : Amount}
variable {node : Node}

/-
  An expression that goes up to the end of a text goes up to a
  parenthesis in its place, with the same tree and level.
-/
theorem expression_closed
    {n m : Nat}
    {s : ParseState}
    (hRead : ∀ t ∈ ts, t.Read)
    (hEnd : e.unlocated = Token.finish)
    (hClosing : closing.isOperator ")" = true)
    (hAllowed : n ≤ m)
    (hRun :
      expression Precedence.default n (.before level (ts ++ [e])) =
        .ok node s)
    (hStop : s.current.kind = .endOfText)
    (rest : List Token) :
    expression Precedence.default m
        (.before level (ts ++ closing :: rest)) =
      .ok node ⟨closing, rest, s.level⟩ := by
  have hParts := Token.parts_closing hEnd hClosing
  have hContinues :
      ParseState.Continues Eq e closing rest
        (.before level (ts ++ [e]))
        (.before level (ts ++ closing :: rest)) :=
    ParseState.continues_before (fun t hMem => (hRead t hMem).toInner)
      rfl
  rcases (follows_equal hParts hAllowed).expression hContinues hRun with
    ⟨s', hRun', hContinues'⟩
  cases hContinues' with
  | last hLevel =>
      rw [hRun', hLevel]
  | inner hInner _ =>
      -- Before the end there is no token that ends the text.
      exact absurd hStop (hInner _ List.mem_cons_self).kind

/- The same expression in parentheses, before a token that does not bind. -/
theorem expression_enclosed
    {table : Precedence}
    {n : Nat}
    {opening next : Token}
    {rest : List Token}
    {level' : Amount}
    (hOpening : opening.isOperator "(" = true)
    (hClosing : closing.isOperator ")" = true)
    (hSome : ts ≠ [])
    (hLoose : table.of next.value < 0)
    (hRun :
      expression table n (.before level ts) =
        .ok node ⟨closing, next :: rest, level'⟩) :
    expression table (n + 3) ⟨opening, ts, level⟩ =
      .ok node ⟨next, rest, level'⟩ := by
  have hOperand :
      unary table (n + 2) ⟨opening, ts, level⟩ =
        .ok node ⟨next, rest, level'⟩ :=
    unary_grouped hOpening hClosing hSome (List.cons_ne_nil next rest)
      hRun
  unfold expression Parse.expression
  rw [Steps.bind_ok hOperand]
  exact binaryRest_stop hLoose

end Grammar

end Offside

------------------------------------------------------------
-- Expressions in Parentheses
------------------------------------------------------------

namespace Offside.Parser

/-
  The tokens of a text, without the one at its end, are parsed as
  one expression of any form, from any level.  Then the same tokens
  in parentheses are parsed to the same tree, locations included:
  the parser comes to the end and leaves the same level.
-/
theorem parseForm_enclosed
    (scanner : Scanner)
    (hBuffer : scanner.input.direct = false)
    (text : String)
    (ts : List Token)
    (e opening closing finish : Token)
    (hLex : scanner.lexText text = .ok (ts ++ [e]))
    (hOpening : opening.isOperator "(" = true)
    (hClosing : closing.isOperator ")" = true)
    (hFinish : finish.unlocated = Token.finish)
    (p p' q : Parser)
    (hTable : p.table = Precedence.default)
    (hTokens : p.tokens.current :: p.tokens.rest = ts ++ [e])
    (node : Node)
    (hParse : p.parseForm .expression = (.ok node, p'))
    (hStop : p'.tokens.current.kind = .endOfText)
    (hTable' : q.table = Precedence.default)
    (hLevel : q.level = p.level)
    (hTokens' :
      q.tokens.current :: q.tokens.rest =
        opening :: (ts ++ [closing, finish])) :
    ∃ q',
      q.parseForm .expression = (.ok node, q') ∧
      q'.tokens.current = finish ∧
      q'.tokens.rest = [] ∧
      q'.level = p'.level := by
  rcases Scanner.read_of_lexText hBuffer hLex with ⟨hEnd, hRead⟩
  rcases run_of_parseForm hParse with ⟨s, hRun⟩
  have hResume : p' = p.resume s := by
    have hStep :
        Grammar.run (Form.production p.table .expression) p.state =
          .ok node s := hRun
    rw [parseForm, run_ok hStep] at hParse
    exact (Prod.mk.inj hParse).2.symm
  have hState : p.state = .before p.level (ts ++ [e]) := by
    rw [← hTokens]
    rfl
  have hLength : p.tokens.rest.length = ts.length := by
    have hSame := congrArg List.length hTokens
    simpa using hSame
  rw [hTable, hState, hLength] at hRun
  rw [hResume] at hStop ⊢
  have hInner :=
    Grammar.expression_closed hRead hEnd hClosing
      (Nat.le_add_right _ 7) hRun hStop [finish]
  have hLoose : Precedence.default.of finish.value < 0 := by
    have hValue : finish.value = .text "" :=
      congrArg Token.value hFinish
    rw [hValue]
    decide
  have hOuter :=
    Grammar.expression_enclosed hOpening hClosing (by simp) hLoose hInner
  have hAllowed :
      Grammar.allowance q.tokens.rest.length =
        Grammar.allowance ts.length + 7 + 3 := by
    have hSame := congrArg List.length hTokens'
    simp only [List.length_cons, List.length_append,
      List.length_nil] at hSame
    unfold Grammar.allowance
    omega
  have hAhead :
      q.tokens.current :: q.tokens.rest =
        opening :: (ts ++ [closing]) ++ [finish] := by
    simpa using hTokens'
  have hRun' :
      Form.production q.table .expression
          (Grammar.allowance q.tokens.rest.length)
          (.before q.level (opening :: (ts ++ [closing]) ++ [finish])) =
        .ok node ⟨finish, [], s.level⟩ := by
    rw [hTable', hAllowed, hLevel]
    simpa [Form.production] using hOuter
  rcases parseForm_ok .expression hAhead hRun' with
    ⟨q', hParse', hCurrent, hRest, _, hLevel', _⟩
  exact ⟨q', hParse', hCurrent, hRest, hLevel'⟩

/- The tokens of `if a:` and an indented line `f(b)`. -/
def branchTokens :
    List Token :=
  [⟨.kwIf, .text "if", ⟨0, 3⟩⟩,
    ⟨.identifier, .text "a", ⟨0, 5⟩⟩,
    ⟨.operator, .text ":", ⟨1, 0⟩⟩,
    ⟨.indent, .amount (.whole 3), ⟨1, 4⟩⟩,
    ⟨.identifier, .text "f", ⟨1, 5⟩⟩,
    ⟨.operator, .text "(", ⟨1, 6⟩⟩,
    ⟨.identifier, .text "b", ⟨1, 7⟩⟩,
    ⟨.operator, .text ")", ⟨1, 8⟩⟩]

/- The tree that they are parsed to. -/
def branchTree : Node :=
  .branch (.reference (.text "a") Node.floatType ⟨0, 5⟩)
    (.block
      [.call (.text "f")
        [.reference (.text "b") Node.floatType ⟨1, 7⟩] ⟨1, 5⟩])
    (.block []) ⟨0, 3⟩

/- A parser at the first of some tokens, at the level minus two. -/
def atFirst
    (ts : List Token) :
    Parser :=
  ⟨Precedence.default, .whole (-2), ⟨ts, 1, ts.headD Token.unset⟩⟩

theorem parseForm_enclosed_branch :
    ∃ e opening closing p' q',
      (Scanner.ofInput Input.empty).lexText "if a:\n   f(b)" =
        .ok (branchTokens ++ [e]) ∧
      (atFirst (branchTokens ++ [e])).parseForm .expression =
        (.ok branchTree, p') ∧
      p'.tokens.current = e ∧
      p'.level = .whole 1 ∧
      (atFirst
          (opening :: (branchTokens ++ [closing, e]))).parseForm
            .expression =
        (.ok branchTree, q') ∧
      q'.tokens.current = e ∧
      q'.level = .whole 1 := by
  have hLex :
      (Scanner.ofInput Input.empty).lexText "if a:\n   f(b)" =
        .ok (branchTokens ++ [⟨.endOfText, .text "", ⟨1, 9⟩⟩]) := by
    decide +kernel
  rcases
      parseForm_enclosed (Scanner.ofInput Input.empty) rfl _ branchTokens
        ⟨.endOfText, .text "", ⟨1, 9⟩⟩ ⟨.operator, .text "(", ⟨0, 0⟩⟩
        ⟨.operator, .text ")", ⟨2, 0⟩⟩ ⟨.endOfText, .text "", ⟨1, 9⟩⟩
        hLex (by decide) (by decide) (by decide)
        (atFirst (branchTokens ++ [⟨.endOfText, .text "", ⟨1, 9⟩⟩])) _
        (atFirst
          (⟨.operator, .text "(", ⟨0, 0⟩⟩ ::
            (branchTokens ++ [⟨.operator, .text ")", ⟨2, 0⟩⟩,
              ⟨.endOfText, .text "", ⟨1, 9⟩⟩])))
        rfl rfl branchTree rfl rfl rfl rfl rfl with
    ⟨q', hParse, hCurrent, _, hLevel⟩
  exact ⟨_, _, _, _, q', hLex, rfl, rfl, rfl, hParse, hCurrent, hLevel⟩

end Offside.Parser
