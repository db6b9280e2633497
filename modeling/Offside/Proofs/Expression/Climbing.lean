import Mathlib
import Offside.Proofs.Expression.Spelling

/-
  Precedence climbing: the parser gives each spelling that fits
  its table the tree that the spelling stands for.

  Main statements:
    * `Offside.Grammar.binaryRest_step`: one operator and its
      right operand, with the look-ahead taken out.
    * `Offside.Spelling.parsed`: every spelling that fits the
      table is parsed to its tree.
    * `Offside.Spelling.Parsed.expression`: as an expression it
      ends at the first token that does not bind.

  The allowance counts five for each token, as the grammar's
  own allowance does.
-/

------------------------------------------------------------
-- Operators After an Operand
------------------------------------------------------------

namespace Offside.Grammar

variable {table : Precedence}

/- A token that binds too loosely ends the climb. -/
theorem binaryRest_stop
    {n : Nat}
    {least : Int}
    {lhs : Node}
    {s : ParseState}
    (hLoose : table.of s.current.value < least) :
    binaryRest table (n + 1) least lhs s = .ok lhs s := by
  simp [binaryRest, Parse.binaryRest, Steps.bind_apply, hLoose]

/-
  One operator: its right operand climbs from the next higher
  precedence.  The parser looks at the token after the operand
  to save a call that would return at once; the result is the
  same without looking.
-/
theorem binaryRest_step
    {n : Nat}
    {least : Int}
    {lhs : Node}
    {op : Token}
    {ts : List Token}
    {level : Amount}
    (hTight : least ≤ table.of op.value)
    (hSome : ts ≠ []) :
    binaryRest table (n + 2) least lhs ⟨op, ts, level⟩ =
      (do
        let operand ← unary table (n + 1)
        let rhs ← binaryRest table (n + 1)
          (table.of op.value + 1) operand
        binaryRest table (n + 1) least
          (.binary op.value lhs rhs op.location))
        (.before level ts) := by
  have hNot : ¬ table.of op.value < least := not_lt.mpr hTight
  rw [binaryRest]
  simp only [Parse.binaryRest, Steps.bind_apply,
    Parse.current_apply, hNot, if_false,
    Parse.advance_before op level hSome]
  cases unary table (n + 1) (.before level ts) with
  | error e s => rfl
  | ok operand s =>
      by_cases hNext :
          table.of op.value < table.of s.current.value
      · simp only [hNext, if_true]
      · have hStop : table.of s.current.value <
            table.of op.value + 1 := by
          omega
        simp only [hNext, if_false, binaryRest_stop hStop,
          Steps.pure_apply]

end Offside.Grammar

------------------------------------------------------------
-- Sizes of Spellings
------------------------------------------------------------

namespace Offside.Spelling

/- How many operators the climb over a spelling passes. -/
def spine :
    Spelling →
    Nat
  | infixed _ lhs _ => spine lhs + 1
  | _ => 0

/- What fits beside a tighter operator fits beside a looser one. -/
theorem Fits.mono
    {table : Precedence}
    {least least' : Int}
    {e : Spelling}
    (hFits : e.Fits table least)
    (hLess : least' ≤ least) :
    e.Fits table least' := by
  cases e with
  | infixed op lhs rhs =>
      exact ⟨hFits.1, hLess.trans hFits.2.1, hFits.2.2⟩
  | _ => exact hFits

/- Each of these operators is a token, and so is an operand. -/
theorem spine_lt_length
    (e : Spelling) :
    e.spine < e.tokens.length := by
  induction e with
  | infixed op lhs rhs ihLhs ihRhs =>
      simp only [spine, tokens, List.length_append,
        List.length_cons]
      omega
  | _ =>
      simp [spine, tokens]

/-
  A spelling begins with a number, a name or an operator, and
  not with one that closes something.
-/
theorem head_tokens
    {table : Precedence}
    {least : Int}
    {e : Spelling}
    (hFits : e.Fits table least)
    (ts : List Token) :
    ∃ t us, e.tokens ++ ts = t :: us ∧
      t.kind ∈ [.floatLiteral, .identifier, .operator] ∧
      t.isOperator ")" = false := by
  induction e generalizing least ts with
  | number value =>
      exact ⟨_, _, rfl, by simp [Token.number],
        Token.isOperator_number _ _⟩
  | name x =>
      exact ⟨_, _, rfl, by simp [Token.identifier],
        Token.isOperator_identifier _ _⟩
  | call callee args =>
      exact ⟨_, _, rfl, by simp [Token.identifier],
        Token.isOperator_identifier _ _⟩
  | prefixed op operand =>
      have hOp : op ≠ .text ")" := hFits.1.2.1
      exact ⟨_, _, rfl, by simp, by simp [Token.isOperator, hOp]⟩
  | infixed op lhs rhs ihLhs ihRhs =>
      have hLhs : lhs.Fits table (table.of op) := hFits.2.2.1
      simpa [tokens] using ihLhs hLhs
        ({ kind := .operator, value := op } :: rhs.tokens ++ ts)
  | grouped inner =>
      exact ⟨_, _, rfl, by simp [Token.operator], by decide⟩

theorem head_tokensOfArgs
    {table : Precedence}
    {arg : Spelling}
    {args : List Spelling}
    (hFit : AllFit table (arg :: args))
    (ts : List Token) :
    ∃ t us, tokensOfArgs (arg :: args) ++ ts = t :: us ∧
      t.isOperator ")" = false := by
  cases args with
  | nil =>
      rcases head_tokens hFit.1 ts with ⟨t, us, hHead, _, hOpen⟩
      exact ⟨t, us, hHead, hOpen⟩
  | cons arg' args =>
      rcases
          head_tokens hFit.1
            (Token.operator "," :: tokensOfArgs (arg' :: args) ++ ts) with
        ⟨t, us, hHead, _, hOpen⟩
      exact ⟨t, us, by simpa [tokensOfArgs] using hHead, hOpen⟩

end Offside.Spelling

------------------------------------------------------------
-- Operands
------------------------------------------------------------

namespace Offside.Grammar

variable {table : Precedence}
variable {n : Nat}
variable {ts : List Token}
variable {level : Amount}

theorem unary_number
    (value : Value)
    (hSome : ts ≠ []) :
    unary table (n + 2) ⟨Token.number value, ts, level⟩ =
      .ok (.float value) (.before level ts) := by
  simp [unary, Parse.unary, primary, Parse.primary, Parse.literal,
    Steps.bind_apply, Steps.map_apply,
    Parse.advance_before _ _ hSome, Token.number]

/- A name without a parenthesis after it is a variable. -/
theorem unary_name
    (x : Value)
    (t : Token)
    (hNoCall : t.isOperator "(" = false) :
    unary table (n + 2) ⟨Token.identifier x, t :: ts, level⟩ =
      .ok (.reference x Node.floatType Location.origin)
        ⟨t, ts, level⟩ := by
  simp [unary, Parse.unary, primary, Parse.primary, Parse.named,
    Steps.bind_apply, Token.identifier, hNoCall, Parse.variableOf]

/- A name before an empty pair of parentheses is a call. -/
theorem unary_call_nil
    (callee : Value)
    (hSome : ts ≠ []) :
    unary table (n + 2)
        ⟨Token.identifier callee,
          Token.operator "(" :: Token.operator ")" :: ts, level⟩ =
      .ok (.call callee [] Location.origin) (.before level ts) := by
  simp [unary, Parse.unary, primary, Parse.primary, Parse.named,
    Steps.bind_apply, Steps.map_apply, Token.identifier,
    Parse.advance_before _ _ hSome]

/- A name before arguments in parentheses is a call. -/
theorem unary_call
    (callee : Value)
    {t : Token}
    {us : List Token}
    {args : List Node}
    (hArgs : t.isOperator ")" = false)
    (hSome : us ≠ [])
    (hRun :
      arguments table n ⟨t, ts, level⟩ =
        .ok args ⟨Token.operator ")", us, level⟩) :
    unary table (n + 2)
        ⟨Token.identifier callee,
          Token.operator "(" :: t :: ts, level⟩ =
      .ok (.call callee args Location.origin)
        (.before level us) := by
  simp [unary, Parse.unary, primary, Parse.primary, Parse.named,
    Steps.bind_apply, Steps.map_apply, Token.identifier, hArgs, hRun,
    Parse.advance_before _ _ hSome]

theorem unary_prefixed
    {op : Value}
    {e : Node}
    {s : ParseState}
    (hPrefix : Spelling.IsPrefix op)
    (hSome : ts ≠ [])
    (hRun : unary table n (.before level ts) = .ok e s) :
    unary table (n + 1)
        ⟨{ kind := .operator, value := op }, ts, level⟩ =
      .ok (.unary op e) s := by
  simp [unary, Parse.unary, Steps.bind_apply, Steps.map_apply,
    Token.isOperator, hPrefix.1, hPrefix.2.2,
    Parse.advance_before _ _ hSome, hRun]

/- Parentheses leave no trace in the tree. -/
theorem unary_grouped
    {opening closing : Token}
    {us : List Token}
    {e : Node}
    {level' : Amount}
    (hOpening : opening.isOperator "(" = true)
    (hClosing : closing.isOperator ")" = true)
    (hSome : ts ≠ [])
    (hMore : us ≠ [])
    (hRun :
      expression table n (.before level ts) =
        .ok e ⟨closing, us, level'⟩) :
    unary table (n + 2) ⟨opening, ts, level⟩ =
      .ok e (.before level' us) := by
  have hKind : opening.kind = .operator := by
    simp only [Token.isOperator, Bool.and_eq_true,
      decide_eq_true_eq] at hOpening
    exact hOpening.1
  have hClosed :
      Parse.expectOperator ")" .closingParenthesis
          ⟨closing, us, level'⟩ =
        .ok () ⟨closing, us, level'⟩ :=
    Parse.expectOperator_apply hClosing
  simp [unary, Parse.unary, primary, Parse.primary,
    Parse.parenthesized, Steps.bind_apply, Steps.map_apply, hKind,
    hOpening, Parse.advance_before _ _ hSome, hRun, hClosed,
    Parse.advance_before _ _ hMore]

end Offside.Grammar

------------------------------------------------------------
-- Expressions
------------------------------------------------------------

namespace Offside.Spelling

open Grammar (unary binaryRest expression arguments)

/-
  What the parser makes of a spelling, whatever token `t`
  follows it.  An operand is taken by itself.  A climb that
  starts with the spelling goes on after it with its tree on
  the left, as long as `t` does not bind the right operand of
  the spelling more tightly than the spelling's own operator.
-/
structure Parsed
    (table : Precedence)
    (e : Spelling) :
    Prop where
  operand : ∀ {least n t rest level},
    e.IsOperand →
    e.Fits table least →
    5 * e.tokens.length ≤ n →
    t.isOperator "(" = false →
    unary table n (.before level (e.tokens ++ t :: rest)) =
      .ok e.node ⟨t, rest, level⟩
  climb : ∀ {least n t rest level},
    e.Fits table least →
    5 * e.tokens.length ≤ n →
    t.isOperator "(" = false →
    (∀ op lhs rhs, e = .infixed op lhs rhs →
      table.of t.value ≤ table.of op) →
    (unary table n >>= binaryRest table n least)
        (.before level (e.tokens ++ t :: rest)) =
      binaryRest table (n - e.spine) least e.node ⟨t, rest, level⟩

namespace Parsed

variable {table : Precedence}
variable {e : Spelling}

/- An operand that is parsed by itself starts every climb. -/
theorem ofOperand
    (hSpine : e.spine = 0)
    (hRun : ∀ {least n t rest level},
      e.Fits table least →
      5 * e.tokens.length ≤ n →
      t.isOperator "(" = false →
      unary table n (.before level (e.tokens ++ t :: rest)) =
        .ok e.node ⟨t, rest, level⟩) :
    Parsed table e where
  operand _ := hRun
  climb hFits hAllowed hNoCall _ := by
    rw [Steps.bind_apply, hRun hFits hAllowed hNoCall, hSpine]
    rfl

/- An expression ends where the next token does not bind. -/
theorem expression
    (hParsed : Parsed table e)
    {n : Nat}
    {t : Token}
    {rest : List Token}
    {level : Amount}
    (hFits : e.Fits table 0)
    (hAllowed : 5 * e.tokens.length + 1 ≤ n)
    (hNoCall : t.isOperator "(" = false)
    (hLoose : table.of t.value < 0) :
    expression table n (.before level (e.tokens ++ t :: rest)) =
      .ok e.node ⟨t, rest, level⟩ := by
  obtain ⟨m, rfl⟩ : ∃ m, n = m + 1 := ⟨n - 1, by omega⟩
  have hTop : ∀ op lhs rhs, e = .infixed op lhs rhs →
      table.of t.value ≤ table.of op := by
    rintro op lhs rhs rfl
    have hOp : 0 ≤ table.of op := hFits.1
    omega
  have hSpine := e.spine_lt_length
  obtain ⟨k, hRest⟩ : ∃ k, m - e.spine = k + 1 :=
    ⟨m - e.spine - 1, by omega⟩
  calc Grammar.expression table (m + 1)
          (.before level (e.tokens ++ t :: rest))
      = binaryRest table (m - e.spine) 0 e.node ⟨t, rest, level⟩ :=
        hParsed.climb hFits (by omega) hNoCall hTop
    _ = .ok e.node ⟨t, rest, level⟩ := by
        rw [hRest]
        exact Grammar.binaryRest_stop hLoose

end Parsed

/- Arguments are parsed up to the closing parenthesis. -/
theorem arguments_tokens
    {table : Precedence}
    (hTable : table.Proper)
    (arg : Spelling)
    (args : List Spelling)
    (hParsed : ∀ e ∈ arg :: args, Parsed table e)
    (hFit : AllFit table (arg :: args))
    {n : Nat}
    {rest : List Token}
    {level : Amount}
    (hAllowed : 5 * (tokensOfArgs (arg :: args)).length + 2 ≤ n) :
    arguments table n
        (.before level
          (tokensOfArgs (arg :: args) ++ Token.operator ")" :: rest)) =
      .ok (nodes (arg :: args)) ⟨Token.operator ")", rest, level⟩ := by
  induction args generalizing arg n with
  | nil =>
      obtain ⟨m, rfl⟩ : ∃ m, n = m + 1 := ⟨n - 1, by omega⟩
      simp only [tokensOfArgs] at hAllowed
      have hArg :
          expression table m
              (.before level
                (arg.tokens ++ Token.operator ")" :: rest)) =
            .ok arg.node ⟨Token.operator ")", rest, level⟩ :=
        (hParsed arg (by simp)).expression hFit.1 (by omega)
          (by decide) hTable.closing
      simp only [arguments, Parse.arguments, tokensOfArgs,
        Steps.bind_apply, hArg]
      simp [nodes]
  | cons arg' args ih =>
      obtain ⟨m, rfl⟩ : ∃ m, n = m + 1 := ⟨n - 1, by omega⟩
      simp only [tokensOfArgs, List.length_append,
        List.length_cons] at hAllowed
      have hArg :
          expression table m
              (.before level
                (arg.tokens ++ Token.operator "," ::
                  (tokensOfArgs (arg' :: args) ++
                    Token.operator ")" :: rest))) =
            .ok arg.node
              ⟨Token.operator ",", tokensOfArgs (arg' :: args) ++
                Token.operator ")" :: rest, level⟩ :=
        (hParsed arg (by simp)).expression hFit.1 (by omega)
          (by decide) hTable.comma
      have hMore := ih arg'
        (fun e hMem => hParsed e (List.mem_cons_of_mem _ hMem))
        hFit.2 (n := m) (by omega)
      simp only [arguments, Parse.arguments, tokensOfArgs,
        Steps.bind_apply, List.append_assoc, List.cons_append, hArg]
      simp [Parse.expectOperator_apply, Steps.bind_apply,
        Steps.map_apply, nodes,
        Parse.advance_before, hMore]

/- A call is an operand, whatever its arguments are. -/
theorem Parsed.call
    {table : Precedence}
    (hTable : table.Proper)
    (callee : Value)
    {args : List Spelling}
    (hArgs : ∀ arg ∈ args, Parsed table arg) :
    Parsed table (.call callee args) := by
  refine .ofOperand rfl ?_
  intro least n t rest level hFits hAllowed hNoCall
  simp only [tokens, List.length_append, List.length_cons,
    List.length_nil] at hAllowed
  obtain ⟨m, rfl⟩ : ∃ m, n = m + 2 := ⟨n - 2, by omega⟩
  cases args with
  | nil => exact Grammar.unary_call_nil callee (by simp)
  | cons arg args =>
      rcases
          head_tokensOfArgs hFits
            (Token.operator ")" :: t :: rest) with
        ⟨u, us, hHead, hOpen⟩
      have hRun :
          arguments table m ⟨u, us, level⟩ =
            .ok (nodes (arg :: args))
              ⟨Token.operator ")", t :: rest, level⟩ := by
        rw [← ParseState.before_cons, ← hHead]
        exact arguments_tokens hTable arg args hArgs hFits (by omega)
      have hTokens :
          (Spelling.call callee (arg :: args)).tokens ++ t :: rest =
            Token.identifier callee ::
              Token.operator "(" :: u :: us := by
        simp [tokens, ← hHead]
      rw [hTokens]
      exact Grammar.unary_call callee hOpen (by simp) hRun

/-
  An operator between two operands: the climb takes the left one,
  and goes on after the right one with both under the operator.
-/
theorem Parsed.infixed
    {table : Precedence}
    (hTable : table.Proper)
    (op : Value)
    {lhs rhs : Spelling}
    (hLeft : Parsed table lhs)
    (hRight : Parsed table rhs) :
    Parsed table (.infixed op lhs rhs) := by
  refine ⟨fun hOperand => hOperand.elim, ?_⟩
  intro least n t rest level hFits hAllowed hNoCall hTop
  rcases hFits with ⟨hOp, hLeast, hLhs, hRhs⟩
  have hNext : table.of t.value ≤ table.of op :=
    hTop op lhs rhs rfl
  simp only [tokens, List.length_append, List.length_cons]
    at hAllowed
  have hLhsSpine := lhs.spine_lt_length
  have hRhsSpine := rhs.spine_lt_length
  obtain ⟨m, hRest⟩ : ∃ m, n - lhs.spine = m + 2 :=
    ⟨n - lhs.spine - 2, by omega⟩
  obtain ⟨k, hLast⟩ : ∃ k, m + 1 - rhs.spine = k + 1 :=
    ⟨m - rhs.spine, by omega⟩
  have hOpCall :
      ({ kind := .operator, value := op } : Token).isOperator "(" =
        false := by
    have hNe : op ≠ .text "(" := by
      rintro rfl
      exact absurd hTable.opening (not_lt.mpr hOp)
    simp [Token.isOperator, hNe]
  have hTokens :
      (Spelling.infixed op lhs rhs).tokens ++ t :: rest =
        lhs.tokens ++ { kind := .operator, value := op } ::
          (rhs.tokens ++ t :: rest) := by
    simp [tokens]
  -- The right operand stops before `t`, which binds no tighter.
  have hOperand :
      (unary table (m + 1) >>=
          binaryRest table (m + 1) (table.of op + 1))
        (.before level (rhs.tokens ++ t :: rest)) =
      .ok rhs.node ⟨t, rest, level⟩ := by
    rw [hRight.climb hRhs (by omega) hNoCall ?_, hLast]
    · exact Grammar.binaryRest_stop (by simp only; omega)
    · rintro op' lhs' rhs' rfl
      have hInner : table.of op + 1 ≤ table.of op' := hRhs.2.1
      omega
  rw [hTokens, hLeft.climb (hLhs.mono hLeast) (by omega) hOpCall ?_,
    hRest, Grammar.binaryRest_step hLeast (by simp), ← bind_assoc,
    Steps.bind_apply, hOperand]
  · have hSame : m + 1 = n - (Spelling.infixed op lhs rhs).spine := by
      simp only [spine]
      omega
    rw [← hSame]
    rfl
  · rintro op' lhs' rhs' rfl
    exact hLhs.2.1

/- The parser follows every spelling that fits its table. -/
theorem parsed
    {table : Precedence}
    (hTable : table.Proper)
    (e : Spelling) :
    Parsed table e := by
  induction e with
  | number value =>
      refine .ofOperand rfl ?_
      intro least n t rest level hFits hAllowed hNoCall
      obtain ⟨m, rfl⟩ : ∃ m, n = m + 2 :=
        ⟨n - 2, by simp [tokens] at hAllowed; omega⟩
      exact Grammar.unary_number value (by simp)
  | name x =>
      refine .ofOperand rfl ?_
      intro least n t rest level hFits hAllowed hNoCall
      obtain ⟨m, rfl⟩ : ∃ m, n = m + 2 :=
        ⟨n - 2, by simp [tokens] at hAllowed; omega⟩
      exact Grammar.unary_name x t hNoCall
  | call callee args ih => exact .call hTable callee ih
  | prefixed op operand ih =>
      refine .ofOperand rfl ?_
      intro least n t rest level hFits hAllowed hNoCall
      simp only [tokens, List.length_cons] at hAllowed
      obtain ⟨m, rfl⟩ : ∃ m, n = m + 1 := ⟨n - 1, by omega⟩
      rcases hFits with ⟨hPrefix, hOperand, hInner⟩
      exact Grammar.unary_prefixed hPrefix (by simp)
        (ih.operand hOperand hInner (by omega) hNoCall)
  | infixed op lhs rhs ihLhs ihRhs =>
      exact .infixed hTable op ihLhs ihRhs
  | grouped inner ih =>
      refine .ofOperand rfl ?_
      intro least n t rest level hFits hAllowed hNoCall
      simp only [tokens, List.length_append, List.length_cons,
        List.length_nil] at hAllowed
      obtain ⟨m, rfl⟩ : ∃ m, n = m + 2 := ⟨n - 2, by omega⟩
      have hTokens :
          (grouped inner).tokens ++ t :: rest =
            Token.operator "(" ::
              (inner.tokens ++ Token.operator ")" :: t :: rest) := by
        simp [tokens]
      rw [hTokens]
      exact Grammar.unary_grouped (by decide) (by decide) (by simp)
        (by simp) (ih.expression hFits (by omega) (by decide) hTable.closing)

end Offside.Spelling
