import Mathlib
import Offside.Parser.Basic
import Offside.Proofs.Steps

/-
  What the elementary steps of parsing do to a state.

  Key definitions include:
    * `Offside.ParseState.tokens`
    * `Offside.ParseState.before`

  The equations here run a production on a state whose tokens
  are known, one step at a time.
-/

------------------------------------------------------------
-- The Tokens of a State
------------------------------------------------------------

namespace Offside.ParseState

/- The current token and the ones after it. -/
def tokens
    (s : ParseState) :
    List Token :=
  s.current :: s.rest

/- The state before the given tokens, at a level. -/
def before
    (level : Amount) :
    List Token →
    ParseState
  | [] => ⟨Token.unset, [], level⟩
  | t :: ts => ⟨t, ts, level⟩

@[simp] theorem before_cons
    (level : Amount)
    (t : Token)
    (ts : List Token) :
    before level (t :: ts) = ⟨t, ts, level⟩ :=
  rfl

/- A state is the one before its tokens. -/
theorem before_tokens
    (s : ParseState) :
    before s.level s.tokens = s :=
  rfl

/- The tokens of the state before some tokens are these. -/
theorem tokens_before
    {level : Amount}
    {ts : List Token}
    (hSome : ts ≠ []) :
    (before level ts).tokens = ts := by
  cases ts with
  | nil => exact absurd rfl hSome
  | cons t ts => rfl

@[simp] theorem level_before
    (level : Amount)
    (ts : List Token) :
    (before level ts).level = level := by
  cases ts <;> rfl

end Offside.ParseState

------------------------------------------------------------
-- Running Steps
------------------------------------------------------------

namespace Offside.Parse

@[simp] theorem current_apply
    (s : ParseState) :
    current s = .ok s.current s :=
  rfl

@[simp] theorem setLevel_apply
    (level : Amount)
    (s : ParseState) :
    setLevel level s = .ok () { s with level := level } :=
  rfl

@[simp] theorem atOperator_apply
    (operator : String)
    (s : ParseState) :
    atOperator operator s = .ok (s.current.isOperator operator) s :=
  rfl

@[simp] theorem atKind_apply
    (kind : Kind)
    (s : ParseState) :
    atKind kind s = .ok (s.current.kind = kind) s :=
  rfl

@[simp] theorem advance_apply
    (t u : Token)
    (ts : List Token)
    (level : Amount) :
    advance ⟨t, u :: ts, level⟩ = .ok () ⟨u, ts, level⟩ :=
  rfl

/- Advancing passes one token when another one follows. -/
theorem advance_before
    (t : Token)
    {ts : List Token}
    (level : Amount)
    (hSome : ts ≠ []) :
    advance ⟨t, ts, level⟩ = .ok () (.before level ts) := by
  cases ts with
  | nil => exact absurd rfl hSome
  | cons u us => rfl

theorem expectOperator_apply
    {operator : String}
    {what : Expectation}
    {s : ParseState}
    (hOperator : s.current.isOperator operator = true) :
    expectOperator operator what s = .ok () s := by
  simp [expectOperator, Steps.bind_apply, hOperator]

theorem expectKind_apply
    {kind : Kind}
    {what : Expectation}
    {s : ParseState}
    (hKind : s.current.kind = kind) :
    expectKind kind what s = .ok () s := by
  simp [expectKind, Steps.bind_apply, hKind]

theorem expectColon_apply
    {keyword : String}
    {s : ParseState}
    (hColon : s.current.isOperator ":" = true) :
    expectColon keyword s = .ok () s := by
  simp [expectColon, Steps.bind_apply, hColon]

/- Where a token is found as expected, it is not taken yet. -/
theorem expectOperator_eq_ok
    {operator : String}
    {what : Expectation}
    {s t : ParseState}
    (hRun : expectOperator operator what s = .ok () t) :
    s.current.isOperator operator = true ∧ t = s := by
  by_cases hOperator : s.current.isOperator operator = true
  · rw [expectOperator_apply hOperator] at hRun
    cases hRun
    exact ⟨hOperator, rfl⟩
  · simp [expectOperator, Steps.bind_apply, hOperator] at hRun

theorem expectKind_eq_ok
    {kind : Kind}
    {what : Expectation}
    {s t : ParseState}
    (hRun : expectKind kind what s = .ok () t) :
    s.current.kind = kind ∧ t = s := by
  by_cases hKind : s.current.kind = kind
  · rw [expectKind_apply hKind] at hRun
    cases hRun
    exact ⟨hKind, rfl⟩
  · simp [expectKind, Steps.bind_apply, hKind] at hRun

theorem expectColon_eq_ok
    {keyword : String}
    {s t : ParseState}
    (hRun : expectColon keyword s = .ok () t) :
    s.current.isOperator ":" = true ∧ t = s := by
  by_cases hColon : s.current.isOperator ":" = true
  · rw [expectColon_apply hColon] at hRun
    cases hRun
    exact ⟨hColon, rfl⟩
  · simp [expectColon, Steps.bind_apply, hColon] at hRun

end Offside.Parse

------------------------------------------------------------
-- Parsers Between Productions
------------------------------------------------------------

namespace Offside.Parser

/- A step that succeeds from where the parser is. -/
theorem run_ok
    {α : Type}
    {p : Parser}
    {step : Parse α}
    {a : α}
    {s : ParseState}
    (hStep : step p.state = .ok a s) :
    p.run step = (.ok a, p.resume s) := by
  rw [run, hStep]

/-
  A form that a production takes off the tokens ahead is parsed:
  the parser then stands at the token after it.
-/
theorem parseForm_ok
    {p : Parser}
    (form : Form)
    {ts rest : List Token}
    {t : Token}
    {level : Amount}
    {node : Node}
    (hTokens : p.tokens.current :: p.tokens.rest = ts ++ t :: rest)
    (hRun :
      form.production p.table
          (Grammar.allowance p.tokens.rest.length)
          (.before p.level (ts ++ t :: rest)) =
        .ok node ⟨t, rest, level⟩) :
    ∃ p',
      p.parseForm form = (.ok node, p') ∧
      p'.tokens.current = t ∧
      p'.tokens.rest = rest ∧
      p'.tokens.tokens = p.tokens.tokens ∧
      p'.level = level ∧
      p'.table = p.table := by
  -- The tokens left are a suffix of all tokens.
  have hSuffix : rest <:+ p.tokens.tokens := by
    have hRest : rest <:+ p.tokens.rest := by
      cases ts with
      | nil =>
          injection hTokens with _ hRest
          rw [hRest]
      | cons u us =>
          injection hTokens with _ hRest
          rw [hRest]
          exact ⟨us ++ [t], by simp⟩
    exact hRest.trans (List.drop_suffix _ _)
  have hState : p.state = .before p.level (ts ++ t :: rest) := by
    rw [← hTokens]
    rfl
  refine ⟨p.resume ⟨t, rest, level⟩, ?_, rfl,
    (List.suffix_iff_eq_drop.mp hSuffix).symm, rfl, rfl, rfl⟩
  have hStep :
      Grammar.run (form.production p.table) p.state =
        .ok node ⟨t, rest, level⟩ := by
    rw [← hRun, ← hState]
    rfl
  exact run_ok hStep

/- A form that is parsed is what its production gives. -/
theorem run_of_parseForm
    {p p' : Parser}
    {form : Form}
    {node : Node}
    (hParse : p.parseForm form = (.ok node, p')) :
    ∃ s,
      form.production p.table
          (Grammar.allowance p.tokens.rest.length) p.state =
        .ok node s := by
  rw [parseForm, run] at hParse
  split at hParse
  · rename_i node' s hRun
    cases hParse
    exact ⟨s, hRun⟩
  · cases hParse

end Offside.Parser
