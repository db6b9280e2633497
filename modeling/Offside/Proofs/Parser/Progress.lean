import Mathlib
import Offside.Proofs.Parser.Location

/-
  Progress of parsing: how many tokens a production takes at
  least when it succeeds.

  Key definitions include:
    * `Offside.Parse.Takes`

  Main statements:
    * `Offside.Grammar.progress`: every expression, operand and
      block takes a token.
    * `Offside.Parse.Takes.item`: so does every item of a program.
-/

------------------------------------------------------------
-- Tokens Taken
------------------------------------------------------------

namespace Offside.Parse

variable {α β γ : Type}

/- Where the step succeeds, it has taken at least `n` tokens. -/
def Takes
    (n : Nat)
    (p : Parse α) :
    Prop :=
  ∀ s a t, p s = .ok a t → t.rest.length + n ≤ s.rest.length

/- A step that leaves a suffix of the tokens gives none back. -/
theorem Orderly.takes
    {f : α → β}
    {p : Parse α}
    {q : Parse β}
    (hOrderly : Orderly f p q) :
    Takes 0 p := by
  intro s a t hRun
  have hSuffix := (hOrderly.suffix s).length_le
  rw [hRun] at hSuffix
  simpa [stateOf, ParseState.tokens] using hSuffix

namespace Takes

theorem pure
    (a : α) :
    Takes 0 (pure a) :=
  (Orderly.pure id a).takes

theorem throw
    (n : Nat)
    (e : ParseError) :
    Takes n (throw e : Parse α) := by
  intro s a t hRun
  cases hRun

theorem bind
    {m n : Nat}
    {p : Parse α}
    {k : α → Parse β}
    (hStep : Takes m p)
    (hNext : ∀ a, Takes n (k a)) :
    Takes (m + n) (p >>= k) := by
  intro s b u hRun
  rcases Steps.bind_eq_ok hRun with ⟨a, t, hFirst, hSecond⟩
  have hTaken := hStep s a t hFirst
  have hMore := hNext a t b u hSecond
  omega

/- The token is taken by the first of two steps. -/
theorem first
    {p : Parse α}
    {k : α → Parse β}
    (hStep : Takes 1 p)
    (hNext : ∀ a, Takes 0 (k a)) :
    Takes 1 (p >>= k) :=
  hStep.bind hNext

/- The tokens are taken after the first of two steps. -/
theorem later
    {n : Nat}
    {p : Parse α}
    {k : α → Parse β}
    (hStep : Takes 0 p)
    (hNext : ∀ a, Takes n (k a)) :
    Takes n (p >>= k) := by
  rw [← Nat.zero_add n]
  exact hStep.bind hNext

theorem ite
    {n : Nat}
    {c : Prop}
    [Decidable c]
    {p q : Parse α}
    (hYes : Takes n p)
    (hNo : Takes n q) :
    Takes n (if c then p else q) := by
  split
  · exact hYes
  · exact hNo

theorem weaken
    {p : Parse α}
    (hStep : Takes 1 p) :
    Takes 0 p := by
  intro s a t hRun
  have hTaken := hStep s a t hRun
  omega

theorem advance :
    Takes 1 advance := by
  rintro ⟨t, ts, level⟩ a u hRun
  cases ts with
  | nil => cases hRun
  | cons v vs =>
      cases hRun
      rfl

theorem current :
    Takes 0 current :=
  Orderly.current.takes

theorem atOperator
    (operator : String) :
    Takes 0 (atOperator operator) :=
  (Orderly.atOperator operator).takes

theorem atKind
    (kind : Kind) :
    Takes 0 (atKind kind) :=
  (Orderly.atKind kind).takes

theorem expectOperator
    (operator : String)
    (what : Expectation) :
    Takes 0 (expectOperator operator what) :=
  (Orderly.expectOperator operator what).takes

theorem expectKind
    (kind : Kind)
    (what : Expectation) :
    Takes 0 (expectKind kind what) :=
  (Orderly.expectKind kind what).takes

theorem expectColon
    (keyword : String) :
    Takes 0 (expectColon keyword) :=
  (Orderly.expectColon keyword).takes

/- A state is looked at and changed without taking a token. -/
theorem state :
    Takes 0 (get : Parse ParseState) :=
  Orderly.state.takes

theorem modifyLevel
    (change : Amount → Amount) :
    Takes 0
      (modify fun s => { s with level := change s.level } :
        Parse Unit) :=
  (Orderly.modifyLevel change).takes

end Takes

end Offside.Parse

------------------------------------------------------------
-- Productions
------------------------------------------------------------

namespace Offside.Parse.Takes

variable {p q : Parse Node}
variable {ps : Parse (List Node)}
variable {entries : Parse (List (Value × Node))}

theorem literal :
    Takes 1 literal :=
  current.later fun _ => advance.first fun _ => pure _

theorem parenthesized
    (hInner : Takes 0 p) :
    Takes 1 (parenthesized p) :=
  advance.first fun _ => hInner.later fun _ =>
    (expectOperator _ _).later fun _ => advance.weaken.later fun _ =>
      pure _

theorem named
    (hArguments : Takes 0 ps) :
    Takes 1 (named ps) := by
  refine current.later fun _ => advance.first fun _ =>
    (atOperator _).later fun _ => ite ?_ (pure _)
  refine advance.weaken.later fun _ => later ?_ fun _ =>
    advance.weaken.later fun _ => pure _
  exact (atOperator _).later fun _ => ite (pure _) hArguments

theorem unary
    (hPrimary : Takes 1 p)
    (hOperand : Takes 0 q) :
    Takes 1 (unary p q) :=
  current.later fun _ => ite hPrimary
    (advance.first fun _ => hOperand.later fun _ => pure _)

theorem expression
    {rest : Int → Node → Parse Node}
    (hUnary : Takes 1 p)
    (hRest : ∀ least lhs, Takes 0 (rest least lhs)) :
    Takes 1 (expression p rest) :=
  hUnary.first fun lhs => hRest 0 lhs

theorem block
    {lines : Amount → Parse (List Node)}
    (hLines : ∀ indent, Takes 0 (lines indent)) :
    Takes 1 (block lines) := by
  refine current.later fun t => advance.first fun _ =>
    state.later fun s => ?_
  cases t.value with
  | text s => exact throw _ _
  | amount indent =>
      refine ite ((throw 0 _).later fun _ => ?_) ?_
      all_goals
        refine later ?_ fun _ =>
          (modifyLevel fun level => level.minus levelWidth).later
            fun _ => pure _
        exact ite
          ((modifyLevel fun _ => indent).later fun _ => hLines indent)
          (pure _)

theorem branch
    (hCondition : Takes 0 p)
    (hBlock : Takes 0 q) :
    Takes 1 (branch p q) := by
  refine current.later fun t => advance.first fun _ =>
    hCondition.later fun _ => (expectColon _).later fun _ =>
      advance.weaken.later fun _ => hBlock.later fun _ =>
        (atKind _).later fun _ => ?_
  refine ite (advance.weaken.later fun _ => ?_) ?_
  all_goals
    refine later ?_ fun _ => pure _
    exact (atKind _).later fun _ => ite
      (advance.weaken.later fun _ => (expectColon _).later fun _ =>
        advance.weaken.later fun _ => hBlock)
      (pure _)

theorem loop
    (hPart : Takes 0 p) :
    Takes 1 (loop p) := by
  refine advance.first fun _ => (expectKind _ _).later fun _ =>
    current.later fun _ => advance.weaken.later fun _ =>
      (expectOperator _ _).later fun _ =>
        advance.weaken.later fun _ => hPart.later fun _ =>
          (expectOperator _ _).later fun _ =>
            advance.weaken.later fun _ => hPart.later fun _ => ?_
  refine later ?_ fun _ => (expectKind _ _).later fun _ =>
    advance.weaken.later fun _ => hPart.later fun _ => pure _
  exact (atOperator _).later fun _ =>
    ite (advance.weaken.later fun _ => hPart) (pure _)

theorem declaration
    (hBody : Takes 0 p)
    (hEntries : Takes 0 entries) :
    Takes 1 (declaration p entries) :=
  advance.first fun _ => (expectKind _ _).later fun _ =>
    hEntries.later fun _ => (expectKind _ _).later fun _ =>
      advance.weaken.later fun _ => hBody.later fun _ => pure _

theorem returned
    (hValue : Takes 0 p) :
    Takes 1 (returned p) :=
  advance.first fun _ => hValue.later fun _ => pure _

theorem unknown
    (n : Nat) :
    Takes n unknown :=
  current.later fun _ => advance.weaken.later fun _ => throw n _

/- A primary expression takes its first token. -/
theorem primary
    {parts : Parts}
    (hParts : parts.AllOrderly)
    (hBlock : Takes 1 parts.block) :
    Takes 1 (primary parts) := by
  refine current.later fun t => ?_
  have hExpression := hParts.expression.takes
  cases t.kind
  case identifier => exact named hParts.arguments.takes
  case floatLiteral => exact literal
  case kwIf => exact branch hExpression hBlock.weaken
  case kwFor => exact loop hExpression
  case kwVar => exact declaration hExpression hParts.bindings.takes
  case kwReturn => exact returned hExpression
  case indent => exact hBlock
  case operator =>
      exact ite (parenthesized hExpression)
        (ite (advance.first fun _ => hParts.primary.takes)
          (unknown 1))
  all_goals exact unknown 1

theorem external :
    Takes 1 external :=
  advance.first fun _ => Orderly.externPrototype.takes

theorem function
    (hBlock : Takes 0 p) :
    Takes 1 (function p) :=
  advance.first fun _ => Orderly.functionPrototype.takes.later fun _ =>
    hBlock.later fun _ => pure _

end Offside.Parse.Takes

------------------------------------------------------------
-- The Grammar
------------------------------------------------------------

namespace Offside.Grammar

open Parse (Takes)

/- The productions that take a token, at one allowance. -/
structure AllTake
    (table : Precedence)
    (n : Nat) :
    Prop where
  primary : Takes 1 (primary table n)
  unary : Takes 1 (unary table n)
  expression : Takes 1 (expression table n)
  block : Takes 1 (block table n)

/-
  Operands, expressions and blocks take a token each.  The parts
  after the first token may take none, so that for them it is
  enough that no token is given back.
-/
theorem progress
    (table : Precedence)
    (n : Nat) :
    AllTake table n := by
  induction n with
  | zero =>
      constructor
      all_goals exact Takes.throw 1 _
  | succ n ih =>
      have hParts := orderly table n
      constructor
      case primary =>
        exact Takes.primary
          ⟨hParts.expression, hParts.arguments, hParts.bindings,
            hParts.block, hParts.primary⟩
          ih.block
      case unary => exact Takes.unary ih.primary ih.unary.weaken
      case expression =>
        exact Takes.expression ih.unary fun least lhs =>
          (hParts.binaryRest least lhs).takes
      case block =>
        exact Takes.block fun indent => (hParts.lines indent).takes

end Offside.Grammar

namespace Offside.Parse

/- An item of a program takes a token. -/
theorem Takes.item
    (table : Precedence)
    (n : Nat)
    (kind : Kind) :
    Takes 1
      (match kind with
      | .kwFunction => Parse.function (Grammar.block table n)
      | .kwExtern => Parse.external
      | _ => Grammar.expression table n) := by
  split
  · exact function (Grammar.progress table n).block.weaken
  · exact external
  · exact (Grammar.progress table n).expression

end Offside.Parse
