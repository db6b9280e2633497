import Mathlib
import Offside.Parser.Basic
import Offside.Proofs.Parser.Progress

/-
  Termination of parsing: five nested productions for each token
  are enough for every list of tokens and every table, and with
  more of them nothing changes.

  Key definitions include:
    * `Offside.Parse.Settles`
    * `Offside.Parser.parseWithin`

  Main statements:
    * `Offside.Grammar.settles`: how large an allowance each
      production needs for the tokens that are left.
    * `Offside.Parser.parse_ends`: a program is parsed or refused
      within an allowance that is linear in its tokens, and every
      form that is parsed takes a token.
-/

------------------------------------------------------------
-- Settled Steps
------------------------------------------------------------

namespace Offside.Parse

variable {α β : Type}

/-
  Two steps that do the same where at most `k` tokens are left,
  and do not run out of their allowance there.
-/
structure Settles
    (k : Nat)
    (p q : Parse α) :
    Prop where
  same : ∀ s, s.rest.length ≤ k → q s = p s
  allowed : ∀ s, s.rest.length ≤ k → ∀ t, p s ≠ .error .tooDeep t

namespace Settles

variable {k : Nat}

theorem mono
    {j : Nat}
    {p q : Parse α}
    (hSettles : Settles k p q)
    (hLess : j ≤ k) :
    Settles j p q where
  same s hRest := hSettles.same s (hRest.trans hLess)
  allowed s hRest := hSettles.allowed s (hRest.trans hLess)

theorem pure
    (a : α) :
    Settles k (pure a) (pure a) where
  same _ _ := rfl
  allowed _ _ _ hRun := by cases hRun

theorem throw
    {e : ParseError}
    (hOther : e ≠ .tooDeep) :
    Settles k (throw e : Parse α) (throw e) where
  same _ _ := rfl
  allowed _ _ _ hRun := by
    cases hRun
    exact hOther rfl

/- A step that fails, whatever would follow it. -/
theorem fail
    {e : ParseError}
    (hOther : e ≠ .tooDeep)
    (f g : α → Parse β) :
    Settles k (MonadExcept.throw e >>= f) (MonadExcept.throw e >>= g) where
  same _ _ := rfl
  allowed _ _ _ hRun := by
    cases hRun
    exact hOther rfl

theorem ite
    {c : Prop}
    [Decidable c]
    {p p' q q' : Parse α}
    (hYes : Settles k p q)
    (hNo : Settles k p' q') :
    Settles k (if c then p else p') (if c then q else q') := by
  split
  · exact hYes
  · exact hNo

/-
  What follows a step has to do with the tokens that the step
  leaves, where it succeeds.
-/
theorem bind_of
    {p q : Parse α}
    {f g : α → Parse β}
    (hStep : Settles k p q)
    (hNext : ∀ s a t, s.rest.length ≤ k → p s = .ok a t →
      Settles t.rest.length (f a) (g a)) :
    Settles k (p >>= f) (q >>= g) where
  same s hRest := by
    rw [Steps.bind_apply, Steps.bind_apply, hStep.same s hRest]
    cases hRun : p s with
    | error e t => rfl
    | ok a t => exact (hNext s a t hRest hRun).same t le_rfl
  allowed s hRest u hDeep := by
    rcases Steps.bind_eq_error hDeep with hFirst | ⟨a, t, hRun, hSecond⟩
    · exact hStep.allowed s hRest u hFirst
    · exact (hNext s a t hRest hRun).allowed t le_rfl u hSecond

theorem bind
    {p q : Parse α}
    {f g : α → Parse β}
    (hStep : Settles k p q)
    (hTakes : Takes 0 p)
    (hNext : ∀ a, Settles k (f a) (g a)) :
    Settles k (p >>= f) (q >>= g) :=
  hStep.bind_of fun s a t hRest hRun =>
    (hNext a).mono (by have := hTakes s a t hRun; omega)

/-
  After a step that takes a token, fewer are left.  With none
  left the step fails, and nothing is asked of what follows.
-/
theorem descend
    {p q : Parse α}
    {f g : α → Parse β}
    (hStep : Settles k p q)
    (hTakes : Takes 1 p)
    (hNext : ∀ j, j < k → ∀ a, Settles j (f a) (g a)) :
    Settles k (p >>= f) (q >>= g) :=
  hStep.bind_of fun s a t hRest hRun =>
    hNext _ (by have := hTakes s a t hRun; omega) a

/- A step that keeps the state and has nothing to do with allowances. -/
theorem look
    {p : Parse α}
    {f g : α → Parse β}
    (hLook : ∀ s, ∃ a, p s = .ok a s)
    (hNext : ∀ a, Settles k (f a) (g a)) :
    Settles k (p >>= f) (p >>= g) := by
  refine bind_of ⟨fun _ _ => rfl, ?_⟩ ?_
  · intro s _ t hDeep
    rcases hLook s with ⟨a, hRun⟩
    rw [hRun] at hDeep
    cases hDeep
  · intro s a t hRest hRun
    rcases hLook s with ⟨b, hSame⟩
    rw [hSame] at hRun
    cases hRun
    exact (hNext a).mono hRest

variable {f g : Unit → Parse β}

theorem current
    {f g : Token → Parse β}
    (hNext : ∀ t, Settles k (f t) (g t)) :
    Settles k (Parse.current >>= f) (Parse.current >>= g) :=
  look (fun _ => ⟨_, rfl⟩) hNext

theorem atOperator
    {operator : String}
    {f g : Bool → Parse β}
    (hNext : ∀ b, Settles k (f b) (g b)) :
    Settles k
      (Parse.atOperator operator >>= f)
      (Parse.atOperator operator >>= g) :=
  look (fun _ => ⟨_, rfl⟩) hNext

theorem atKind
    {kind : Kind}
    {f g : Bool → Parse β}
    (hNext : ∀ b, Settles k (f b) (g b)) :
    Settles k (Parse.atKind kind >>= f) (Parse.atKind kind >>= g) :=
  look (fun _ => ⟨_, rfl⟩) hNext

theorem state
    {f g : ParseState → Parse β}
    (hNext : ∀ s, Settles k (f s) (g s)) :
    Settles k (get >>= f) (get >>= g) :=
  look (fun s => ⟨s, rfl⟩) hNext

/- A token is taken; what follows has fewer. -/
theorem advance
    (hNext : ∀ j, j < k → Settles j (f ()) (g ())) :
    Settles k (Parse.advance >>= f) (Parse.advance >>= g) := by
  refine descend ⟨fun _ _ => rfl, ?_⟩ Takes.advance
    fun j hLess _ => hNext j hLess
  rintro ⟨t, ts, level⟩ _ u hDeep
  cases ts with
  | nil => cases hDeep
  | cons v vs => cases hDeep

theorem modifyLevel
    (change : Amount → Amount)
    (hNext : Settles k (f ()) (g ())) :
    Settles k
      ((modify fun s => { s with level := change s.level }) >>= f)
      ((modify fun s => { s with level := change s.level }) >>= g) :=
  bind ⟨fun _ _ => rfl, fun _ _ _ hDeep => by cases hDeep⟩
    (Takes.modifyLevel change) fun _ => hNext

/- A check of the current token, before what follows. -/
theorem check
    {c : ParseState → Bool}
    {e : ParseState → ParseError}
    {p : Parse Unit}
    (hCheck : ∀ s, p s = if c s then .ok () s else .error (e s) s)
    (hOther : ∀ s, e s ≠ .tooDeep)
    (hNext : Settles k (f ()) (g ())) :
    Settles k (p >>= f) (p >>= g) := by
  refine bind_of ⟨fun _ _ => rfl, ?_⟩ ?_
  · intro s _ t hDeep
    rw [hCheck] at hDeep
    split at hDeep
    · cases hDeep
    · injection hDeep with hSame
      exact hOther s hSame
  · intro s a t hRest hRun
    rw [hCheck] at hRun
    split at hRun
    · cases hRun
      exact hNext.mono hRest
    · cases hRun

theorem expectOperator
    {operator : String}
    {what : Expectation}
    (hNext : Settles k (f ()) (g ())) :
    Settles k
      (Parse.expectOperator operator what >>= f)
      (Parse.expectOperator operator what >>= g) := by
  refine check (c := fun s => s.current.isOperator operator)
    (e := fun _ => .expected what) ?_ (by simp) hNext
  intro s
  by_cases hOperator : s.current.isOperator operator = true
  · simp [Parse.expectOperator, Steps.bind_apply, hOperator]
  · simp [Parse.expectOperator, Steps.bind_apply, hOperator]

theorem expectKind
    {kind : Kind}
    {what : Expectation}
    (hNext : Settles k (f ()) (g ())) :
    Settles k
      (Parse.expectKind kind what >>= f)
      (Parse.expectKind kind what >>= g) := by
  refine check (c := fun s => s.current.kind = kind)
    (e := fun _ => .expected what) ?_ (by simp) hNext
  intro s
  by_cases hKind : s.current.kind = kind
  · simp [Parse.expectKind, Steps.bind_apply, hKind]
  · simp [Parse.expectKind, Steps.bind_apply, hKind]

theorem expectColon
    {keyword : String}
    (hNext : Settles k (f ()) (g ())) :
    Settles k
      (Parse.expectColon keyword >>= f)
      (Parse.expectColon keyword >>= g) := by
  refine check (c := fun s => s.current.isOperator ":")
    (e := fun s => .missingColon keyword s.current.text) ?_ (by simp)
    hNext
  intro s
  by_cases hColon : s.current.isOperator ":" = true
  · simp [Parse.expectColon, Steps.bind_apply, hColon]
  · simp [Parse.expectColon, Steps.bind_apply, hColon]

end Settles

end Offside.Parse

------------------------------------------------------------
-- Productions
------------------------------------------------------------

namespace Offside.Parse.Settles

variable {k : Nat}
variable {p p' q q' : Parse Node}
variable {ps ps' : Parse (List Node)}
variable {entries entries' : Parse (List (Value × Node))}

theorem literal :
    Settles k literal literal :=
  current fun _ => advance fun _ _ => pure _

theorem parenthesized
    (hInner : ∀ j, j < k → Settles j p p')
    (hTakes : Takes 0 p) :
    Settles k (parenthesized p) (parenthesized p') :=
  advance fun j hLess => (hInner j hLess).bind hTakes fun _ =>
    expectOperator (advance fun _ _ => pure _)

theorem arguments
    (hFirst : Settles k p p')
    (hTakes : Takes 0 p)
    (hMore : ∀ j, j < k → Settles j ps ps')
    (hTakes' : Takes 0 ps) :
    Settles k (arguments p ps) (arguments p' ps') :=
  hFirst.bind hTakes fun _ => atOperator fun _ => ite (pure _)
    (expectOperator (advance fun j hLess =>
      (hMore j hLess).bind hTakes' fun _ => pure _))

theorem named
    (hArguments : ∀ j, j < k → Settles j ps ps')
    (hTakes : Takes 0 ps) :
    Settles k (named ps) (named ps') := by
  refine current fun t => advance fun i hFirst => atOperator fun _ =>
    ite (advance fun j hSecond => bind ?_ ?_ fun _ =>
      advance fun _ _ => pure _) (pure _)
  · exact atOperator fun _ =>
      ite (pure _) (hArguments j (by omega))
  · exact (Takes.atOperator _).later fun _ =>
      Takes.ite (Takes.pure _) hTakes

theorem unary
    (hPrimary : Settles k p p')
    (hOperand : ∀ j, j < k → Settles j q q')
    (hTakes : Takes 0 q) :
    Settles k (unary p q) (unary p' q') :=
  current fun _ => ite hPrimary (advance fun j hLess =>
    (hOperand j hLess).bind hTakes fun _ => pure _)

theorem binaryRest
    (table : Precedence)
    {rest rest' : Int → Node → Parse Node}
    (hUnary : ∀ j, j < k → Settles j p p')
    (hTakes : Takes 0 p)
    (hRest : ∀ j, j < k → ∀ least lhs,
      Settles j (rest least lhs) (rest' least lhs))
    (hTakes' : ∀ least lhs, Takes 0 (rest least lhs))
    (least : Int)
    (lhs : Node) :
    Settles k
      (binaryRest table p rest least lhs)
      (binaryRest table p' rest' least lhs) := by
  refine current fun op => ite (pure lhs) (advance fun j hLess =>
    (hUnary j hLess).bind hTakes fun operand => bind ?_ ?_ fun rhs =>
      hRest j hLess least _)
  · exact current fun _ => ite (hRest j hLess _ operand) (pure operand)
  · exact Takes.current.later fun _ =>
      Takes.ite (hTakes' _ _) (Takes.pure _)

/- What follows the operand has fewer tokens than the operand. -/
theorem expression
    {rest rest' : Int → Node → Parse Node}
    (hUnary : Settles k p p')
    (hTakes : Takes 1 p)
    (hRest : ∀ j, j < k → ∀ least lhs,
      Settles j (rest least lhs) (rest' least lhs)) :
    Settles k (expression p rest) (expression p' rest') :=
  hUnary.descend hTakes fun j hLess lhs => hRest j hLess 0 lhs

theorem lines
    {more more' : Amount → Parse (List Node)}
    (hFirst : Settles k p p')
    (hTakes : Takes 0 p)
    (hMore : ∀ j, j < k → ∀ indent,
      Settles j (more indent) (more' indent))
    (hTakes' : ∀ indent, Takes 0 (more indent))
    (indent : Amount) :
    Settles k (lines p more indent) (lines p' more' indent) := by
  refine hFirst.bind hTakes fun e => current fun t => ite (pure [e]) ?_
  cases t.value with
  | text s => exact throw nofun
  | amount found =>
      exact ite (pure [e]) (ite (fail (by simp) _ _)
        (advance fun j hLess =>
          (hMore j hLess indent).bind (hTakes' indent) fun _ => pure _))

theorem block
    {lines lines' : Amount → Parse (List Node)}
    (hLines : ∀ j, j < k → ∀ indent,
      Settles j (lines indent) (lines' indent))
    (hTakes : ∀ indent, Takes 0 (lines indent)) :
    Settles k (block lines) (block lines') := by
  refine current fun t => advance fun j hLess => state fun s => ?_
  cases t.value with
  | text s => exact throw nofun
  | amount indent =>
      refine ite (fail (by simp) _ _) (bind ?_ ?_ fun nodes =>
        modifyLevel (fun level => level.minus levelWidth) (pure _))
      · exact ite (modifyLevel (fun _ => indent)
          (hLines j hLess indent)) (pure [])
      · exact Takes.ite
          ((Takes.modifyLevel fun _ => indent).later fun _ =>
            hTakes indent)
          (Takes.pure [])

theorem branch
    (hCondition : ∀ j, j < k → Settles j p p')
    (hTakes : Takes 0 p)
    (hBlock : ∀ j, j < k → Settles j q q')
    (hTakes' : Takes 0 q) :
    Settles k (branch p q) (branch p' q') := by
  refine current fun t => advance fun i hFirst =>
    (hCondition i hFirst).bind hTakes fun cond => expectColon
      (advance fun j hSecond =>
        (hBlock j (by omega)).bind hTakes' fun yes => atKind fun _ => ?_)
  have hElse : ∀ n, n < k → Settles n
      (do
        let no ← (do
          if ← Parse.atKind .kwElse then
            Parse.advance
            Parse.expectColon "else"
            Parse.advance
            q
          else return .block [])
        return Node.branch cond yes no t.location)
      (do
        let no ← (do
          if ← Parse.atKind .kwElse then
            Parse.advance
            Parse.expectColon "else"
            Parse.advance
            q'
          else return .block [])
        return Node.branch cond yes no t.location) := by
    intro n hLess
    refine bind ?_ ?_ fun _ => pure _
    · exact atKind fun _ => ite (advance fun _ _ => expectColon
        (advance fun j' hMore => hBlock j' (by omega))) (pure _)
    · exact (Takes.atKind _).later fun _ => Takes.ite
        (Takes.advance.weaken.later fun _ =>
          (Takes.expectColon _).later fun _ =>
            Takes.advance.weaken.later fun _ => hTakes')
        (Takes.pure _)
  exact ite (advance fun n hLess => hElse n (by omega))
    (hElse j (by omega))

theorem loop
    (hPart : ∀ j, j < k → Settles j p p')
    (hTakes : Takes 0 p) :
    Settles k (loop p) (loop p') := by
  refine advance fun a hA => expectKind (current fun counter =>
    advance fun b hB => expectOperator (advance fun c hC =>
      (hPart c (by omega)).bind hTakes fun first => expectOperator
        (advance fun d hD => (hPart d (by omega)).bind hTakes
          fun last => bind ?_ ?_ fun step => expectKind
            (advance fun e hE => (hPart e (by omega)).bind hTakes
              fun body => pure _))))
  · exact atOperator fun _ =>
      ite (advance fun e hE => hPart e (by omega)) (pure _)
  · exact (Takes.atOperator _).later fun _ => Takes.ite
      (Takes.advance.weaken.later fun _ => hTakes) (Takes.pure _)

theorem bindings
    (hValue : ∀ j, j < k → Settles j p p')
    (hTakes : Takes 0 p)
    (hMore : ∀ j, j < k → Settles j entries entries')
    (hTakes' : Takes 0 entries) :
    Settles k (bindings p entries) (bindings p' entries') := by
  refine current fun name => advance fun i hFirst =>
    bind ?_ ?_ fun value => atOperator fun _ => ite
      (advance fun j hSecond => expectKind
        ((hMore j (by omega)).bind hTakes' fun others => pure _))
      (pure _)
  · exact atOperator fun _ =>
      ite (advance fun j hSecond => hValue j (by omega)) (pure _)
  · exact (Takes.atOperator _).later fun _ => Takes.ite
      (Takes.advance.weaken.later fun _ => hTakes) (Takes.pure _)

theorem declaration
    (hBody : ∀ j, j < k → Settles j p p')
    (hTakes : Takes 0 p)
    (hEntries : ∀ j, j < k → Settles j entries entries')
    (hTakes' : Takes 0 entries) :
    Settles k (declaration p entries) (declaration p' entries') :=
  advance fun i hFirst => expectKind
    ((hEntries i hFirst).bind hTakes' fun _ => expectKind
      (advance fun j hSecond =>
        (hBody j (by omega)).bind hTakes fun _ => pure _))

theorem returned
    (hValue : ∀ j, j < k → Settles j p p')
    (hTakes : Takes 0 p) :
    Settles k (returned p) (returned p') :=
  advance fun j hLess => (hValue j hLess).bind hTakes fun _ => pure _

theorem unknown :
    Settles k unknown unknown :=
  current fun _ => advance fun _ _ => throw nofun

/-
  A primary expression.  A block is the only part it comes to
  without having taken a token.
-/
theorem primary
    {parts parts' : Parts}
    (hOrderly : parts.AllOrderly)
    (hExpression : ∀ j, j < k →
      Settles j parts.expression parts'.expression)
    (hArguments : ∀ j, j < k →
      Settles j parts.arguments parts'.arguments)
    (hBindings : ∀ j, j < k →
      Settles j parts.bindings parts'.bindings)
    (hBlock : Settles k parts.block parts'.block)
    (hPrimary : ∀ j, j < k →
      Settles j parts.primary parts'.primary) :
    Settles k (primary parts) (primary parts') := by
  refine current fun t => ?_
  have hTakes := hOrderly.expression.takes
  cases t.kind
  case identifier => exact named hArguments hOrderly.arguments.takes
  case floatLiteral => exact literal
  case kwIf =>
    exact branch hExpression hTakes (fun j hLess => hBlock.mono hLess.le)
      hOrderly.block.takes
  case kwFor => exact loop hExpression hTakes
  case kwVar =>
    exact declaration hExpression hTakes hBindings
      hOrderly.bindings.takes
  case kwReturn => exact returned hExpression hTakes
  case indent => exact hBlock
  case operator =>
    exact ite (parenthesized hExpression hTakes)
      (ite (advance hPrimary) unknown)
  all_goals exact unknown

theorem parametersFrom_ne_tooDeep
    (s t : ParseState)
    (ts : List Token) :
    parametersFrom s ts ≠ .error .tooDeep t := by
  intro hRun
  fun_induction parametersFrom s ts with
  | case5 s u v ts _ _ e s' hMore ih =>
      cases hRun
      exact ih hMore
  | case1 | case2 | case3 | case4 | case6 | case7 => cases hRun

theorem externPrototype :
    Settles k externPrototype externPrototype := by
  refine current fun name => expectKind (advance fun _ _ =>
    expectOperator (bind ⟨fun _ _ => rfl, ?_⟩ ?_ fun args =>
      expectOperator (advance fun _ _ => pure _)))
  · intro s _ t
    exact parametersFrom_ne_tooDeep s t s.rest
  · exact Orderly.parameters.takes

theorem functionPrototype :
    Settles k functionPrototype functionPrototype :=
  externPrototype.bind Orderly.externPrototype.takes fun _ =>
    expectOperator (advance fun _ _ => pure _)

theorem function
    (hBlock : ∀ j, j < k → Settles j p p')
    (hTakes : Takes 0 p) :
    Settles k (function p) (function p') :=
  advance fun j hLess =>
    functionPrototype.bind Orderly.functionPrototype.takes fun _ =>
      (hBlock j hLess).bind hTakes fun _ => pure _

theorem external :
    Settles k external external :=
  advance fun _ _ => externPrototype

end Offside.Parse.Settles

------------------------------------------------------------
-- The Grammar
------------------------------------------------------------

namespace Offside.Grammar

open Parse (Settles Takes)

/-
  The allowance that each production needs where `k` tokens are
  left.  From a block to its lines, their first expression, its
  operand and a block again there are five productions and one
  token.
-/
structure AllSettle
    (table : Precedence)
    (n m : Nat) :
    Prop where
  block : ∀ k, 5 * k + 1 ≤ n → Settles k (block table n) (block table m)
  primary :
    ∀ k, 5 * k + 2 ≤ n → Settles k (primary table n) (primary table m)
  unary : ∀ k, 5 * k + 3 ≤ n → Settles k (unary table n) (unary table m)
  expression :
    ∀ k, 5 * k + 4 ≤ n →
      Settles k (expression table n) (expression table m)
  lines :
    ∀ k indent, 5 * k + 5 ≤ n →
      Settles k (lines table n indent) (lines table m indent)
  arguments :
    ∀ k, 5 * k + 5 ≤ n → Settles k (arguments table n) (arguments table m)
  bindings :
    ∀ k, 5 * k + 1 ≤ n → Settles k (bindings table n) (bindings table m)
  binaryRest :
    ∀ k least lhs, 5 * k + 1 ≤ n →
      Settles k (binaryRest table n least lhs) (binaryRest table m least lhs)

/- A larger allowance than is needed changes nothing. -/
theorem settles
    (table : Precedence)
    {n m : Nat}
    (hAllowed : n ≤ m) :
    AllSettle table n m := by
  induction n generalizing m with
  | zero =>
      constructor
      case binaryRest => exact fun k _ _ hNeed => absurd hNeed (by omega)
      case lines => exact fun k _ hNeed => absurd hNeed (by omega)
      all_goals exact fun k hNeed => absurd hNeed (by omega)
  | succ n ih =>
      rcases Nat.exists_eq_add_of_lt hAllowed with ⟨d, rfl⟩
      have hBelow := ih (Nat.le_add_right n d)
      have hOrderly := orderly table n
      have hTakes := progress table n
      constructor
      case block =>
        intro k hNeed
        exact Settles.block
          (fun j hLess indent => hBelow.lines j indent (by omega))
          fun indent => (hOrderly.lines indent).takes
      case primary =>
        intro k hNeed
        exact Settles.primary
          ⟨hOrderly.expression, hOrderly.arguments, hOrderly.bindings,
            hOrderly.block, hOrderly.primary⟩
          (fun j hLess => hBelow.expression j (by omega))
          (fun j hLess => hBelow.arguments j (by omega))
          (fun j hLess => hBelow.bindings j (by omega))
          (hBelow.block k (by omega))
          fun j hLess => hBelow.primary j (by omega)
      case unary =>
        intro k hNeed
        exact Settles.unary (hBelow.primary k (by omega))
          (fun j hLess => hBelow.unary j (by omega)) hTakes.unary.weaken
      case expression =>
        intro k hNeed
        exact Settles.expression (hBelow.unary k (by omega)) hTakes.unary
          fun j hLess least lhs => hBelow.binaryRest j least lhs (by omega)
      case lines =>
        intro k indent hNeed
        exact Settles.lines (hBelow.expression k (by omega))
          hOrderly.expression.takes
          (fun j hLess indent => hBelow.lines j indent (by omega))
          (fun indent => (hOrderly.lines indent).takes) indent
      case arguments =>
        intro k hNeed
        exact Settles.arguments (hBelow.expression k (by omega))
          hOrderly.expression.takes
          (fun j hLess => hBelow.arguments j (by omega))
          hOrderly.arguments.takes
      case bindings =>
        intro k hNeed
        exact Settles.bindings
          (fun j hLess => hBelow.expression j (by omega))
          hOrderly.expression.takes
          (fun j hLess => hBelow.bindings j (by omega))
          hOrderly.bindings.takes
      case binaryRest =>
        intro k least lhs hNeed
        exact Settles.binaryRest table
          (fun j hLess => hBelow.unary j (by omega)) hTakes.unary.weaken
          (fun j hLess least lhs =>
            hBelow.binaryRest j least lhs (by omega))
          (fun least lhs => (hOrderly.binaryRest least lhs).takes)
          least lhs

/- The items of a program: each of them takes a token. -/
theorem items_settles
    (table : Precedence)
    {n m k : Nat}
    (hNeed : 5 * k + 5 ≤ n)
    (hAllowed : n ≤ m) :
    Settles k (items table n) (items table m) := by
  induction n generalizing m k with
  | zero => exact absurd hNeed (by omega)
  | succ n ih =>
      rcases Nat.exists_eq_add_of_lt hAllowed with ⟨d, rfl⟩
      have hLess := Nat.le_add_right n d
      have hBelow := settles table hLess
      have hOthers : ∀ j, j < k →
          Settles j (items table n) (items table (n + d)) :=
        fun j hFewer => ih (by omega) hLess
      refine Settles.current fun t => Settles.ite (Settles.pure _)
        (Settles.ite (Settles.advance hOthers) ?_)
      refine Settles.descend ?_ (Takes.item table n t.kind)
        fun j hFewer item => (hOthers j hFewer).bind
          (orderly_items table n).takes fun others => Settles.pure _
      split
      · exact Settles.function
          (fun j hFewer => hBelow.block j (by omega))
          (progress table n).block.weaken
      · exact Settles.external
      · exact hBelow.expression k (by omega)

/- A production that is run with the allowance of the tokens left. -/
theorem run_settles
    {α : Type}
    {production : Nat → Parse α}
    {n k : Nat}
    (hSettles : ∀ j, j ≤ k →
      Settles j (production (allowance j)) (production n)) :
    Settles k (run production) (production n) where
  same s hRest := (hSettles s.rest.length hRest).same s le_rfl
  allowed s hRest := (hSettles s.rest.length hRest).allowed s le_rfl

theorem allowance_mono
    {j k : Nat}
    (hLess : j ≤ k) :
    allowance j ≤ allowance k := by
  unfold allowance
  omega

end Offside.Grammar

namespace Offside.Form

open Parse (Settles Takes)

/- Every form is settled by the allowance of the tokens left. -/
theorem production_settles
    (table : Precedence)
    (form : Form)
    {n m k : Nat}
    (hNeed : Grammar.allowance k ≤ n)
    (hAllowed : n ≤ m) :
    Settles k (form.production table n) (form.production table m) := by
  have hAll := Grammar.settles table hAllowed
  have hOrderly := Grammar.orderly table n
  unfold Grammar.allowance at hNeed
  have hExpression : ∀ j, j < k →
      Settles j (Grammar.expression table n)
        (Grammar.expression table m) :=
    fun j hLess => hAll.expression j (by omega)
  have hBlock : ∀ j, j < k →
      Settles j (Grammar.block table n) (Grammar.block table m) :=
    fun j hLess => hAll.block j (by omega)
  have hTakes := hOrderly.expression.takes
  cases form
  case function => exact Settles.function hBlock hOrderly.block.takes
  case external => exact Settles.external
  case primary => exact hAll.primary k (by omega)
  case block => exact hAll.block k (by omega)
  case expression => exact hAll.expression k (by omega)
  case branch =>
    exact Settles.branch hExpression hTakes hBlock hOrderly.block.takes
  case literal => exact Settles.literal
  case parenthesized => exact Settles.parenthesized hExpression hTakes
  case named =>
    exact Settles.named (fun j hLess => hAll.arguments j (by omega))
      hOrderly.arguments.takes
  case loop => exact Settles.loop hExpression hTakes
  case declaration =>
    exact Settles.declaration hExpression hTakes
      (fun j hLess => hAll.bindings j (by omega))
      hOrderly.bindings.takes
  case unary => exact hAll.unary k (by omega)
  case functionPrototype => exact Settles.functionPrototype
  case externPrototype => exact Settles.externPrototype
  case returned => exact Settles.returned hExpression hTakes

/- The forms that begin an item, a line or an operand. -/
def leading :
    List Form :=
  [function, external, primary, block, expression, unary]

/- Each of these takes a token. -/
theorem production_takes
    {form : Form}
    (hLeading : form ∈ leading)
    (table : Precedence)
    (n : Nat) :
    Takes 1 (form.production table n) := by
  have hTakes := Grammar.progress table n
  simp only [leading, List.mem_cons, List.not_mem_nil, or_false] at hLeading
  rcases hLeading with rfl | rfl | rfl | rfl | rfl | rfl
  · exact Takes.function hTakes.block.weaken
  · exact Takes.external
  · exact hTakes.primary
  · exact hTakes.block
  · exact hTakes.expression
  · exact hTakes.unary

/- Each of these leaves a suffix of the tokens. -/
theorem production_suffix
    {form : Form}
    (hLeading : form ∈ leading)
    (table : Precedence)
    (n : Nat)
    (s : ParseState) :
    (Parse.stateOf (form.production table n s)).tokens <:+ s.tokens := by
  have hOrderly := Grammar.orderly table n
  simp only [leading, List.mem_cons, List.not_mem_nil, or_false] at hLeading
  rcases hLeading with rfl | rfl | rfl | rfl | rfl | rfl
  · exact (Parse.Orderly.function hOrderly.block).suffix s
  · exact Parse.Orderly.external.suffix s
  · exact hOrderly.primary.suffix s
  · exact hOrderly.block.suffix s
  · exact hOrderly.expression.suffix s
  · exact hOrderly.unary.suffix s

end Offside.Form

------------------------------------------------------------
-- Parsers
------------------------------------------------------------

namespace Offside.Parser

/- A program with at most `n` nested productions. -/
def programWithin
    (table : Precedence)
    (name : String)
    (n : Nat) :
    Parse Node := do
  Parse.advance
  if ← Parse.atKind .unset then
    Parse.advance
  let nodes ← Grammar.items table n
  return .program name nodes

/- Parses a program with at most `n` nested productions. -/
def parseWithin
    (p : Parser)
    (tokens : TokenList)
    (name : String)
    (n : Nat) :
    Except ParseError Node × Parser :=
  let p := { p.reset with tokens := tokens }
  p.run (programWithin p.table name n)

/- The allowance of a program is enough for it. -/
theorem program_settles
    (table : Precedence)
    (name : String)
    {n k : Nat}
    (hNeed : Grammar.allowance k ≤ n) :
    Parse.Settles k (program table name)
      (programWithin table name n) := by
  have hItems : Parse.Settles k (Grammar.run (Grammar.items table))
      (Grammar.items table n) := by
    refine Grammar.run_settles fun j hLess => ?_
    apply Grammar.items_settles table
    · unfold Grammar.allowance
      omega
    · exact (Grammar.allowance_mono hLess).trans hNeed
  have hTakes : Parse.Takes 0 (Grammar.run (Grammar.items table)) :=
    fun s => (Grammar.orderly_items table _).takes s
  refine Parse.Settles.advance fun i hFirst => Parse.Settles.atKind
    fun _ => Parse.Settles.ite (Parse.Settles.advance fun j hSecond => ?_) ?_
  · exact (hItems.mono (by omega)).bind hTakes fun _ =>
      Parse.Settles.pure _
  · exact (hItems.mono hFirst.le).bind hTakes fun _ =>
      Parse.Settles.pure _

theorem run_eq_of_settles
    {α : Type}
    (p : Parser)
    {step step' : Parse α}
    (hSettles : Parse.Settles p.tokens.rest.length step step') :
    p.run step' = p.run step ∧ (p.run step).1 ≠ .error .tooDeep := by
  have hSame := hSettles.same p.state le_rfl
  have hAllowed := hSettles.allowed p.state le_rfl
  unfold run
  rw [hSame]
  refine ⟨rfl, ?_⟩
  cases hRun : step p.state with
  | ok a s => simp
  | error e s =>
      intro hDeep
      injection hDeep with hError
      rw [hError] at hRun
      exact hAllowed s hRun

/- A parser before the tokens of a program. -/
def started
    (p : Parser)
    (ts : List Token) :
    Parser :=
  { p.reset with tokens := TokenList.ofTokens ts }

/-
  A program whose first token is set is parsed as its items are,
  with any allowance that suffices.
-/
theorem parse_eq_items
    (p : Parser)
    {t : Token}
    (hBegun : t.kind ≠ .unset)
    (ts : List Token)
    (name : String)
    {n : Nat}
    (hEnough : Grammar.allowance (ts.length + 1) ≤ n) :
    p.parse (TokenList.ofTokens (t :: ts)) name =
      match Grammar.items p.table n (.before (.whole 0) (t :: ts)) with
      | .ok nodes s =>
          (.ok (.program name nodes), (p.started (t :: ts)).resume s)
      | .error e s => (.error e, (p.started (t :: ts)).resume s) := by
  have hSettles : Parse.Settles (p.started (t :: ts)).tokens.rest.length
      (program p.table name) (programWithin p.table name n) :=
    program_settles p.table name hEnough
  have hProgram : programWithin p.table name n
      (p.started (t :: ts)).state =
        (.program name <$> Grammar.items p.table n)
          (.before (.whole 0) (t :: ts)) := by
    have hState : (p.started (t :: ts)).state =
        ⟨Token.unset, t :: ts, .whole 0⟩ := rfl
    rw [hState]
    simp [programWithin, Steps.bind_apply, Steps.map_apply, hBegun]
  have hParse : p.parse (TokenList.ofTokens (t :: ts)) name =
      (p.started (t :: ts)).run (program p.table name) := rfl
  rw [hParse, ← (run_eq_of_settles _ hSettles).1, run, hProgram,
    Steps.map_apply]
  cases Grammar.items p.table n (.before (.whole 0) (t :: ts)) <;> rfl

theorem parse_eq_ok_iff
    (p : Parser)
    (name : String)
    {n : Nat}
    {ts : List Token}
    (hSome : ts ≠ [])
    (hBegun : ∀ t ∈ ts, t.kind ≠ .unset)
    (hEnough : Grammar.allowance ts.length ≤ n)
    (tree : Node)
    (p' : Parser) :
    p.parse (TokenList.ofTokens ts) name = (.ok tree, p') ↔
      ∃ nodes s,
        Grammar.items p.table n (.before (.whole 0) ts) =
          .ok nodes s ∧
        tree = .program name nodes ∧
        p' = (p.started ts).resume s := by
  rcases List.exists_cons_of_ne_nil hSome with ⟨t, us, rfl⟩
  rw [parse_eq_items p (hBegun t List.mem_cons_self) us name hEnough]
  cases Grammar.items p.table n (.before (.whole 0) (t :: us)) with
  | error error s => simp
  | ok nodes s =>
      constructor
      · intro hSame
        cases hSame
        exact ⟨nodes, s, rfl, rfl, rfl⟩
      · rintro ⟨nodes', s', hSame, rfl, rfl⟩
        cases hSame
        rfl

theorem parse_eq_error_iff
    (p : Parser)
    (name : String)
    {n : Nat}
    {ts : List Token}
    (hSome : ts ≠ [])
    (hBegun : ∀ t ∈ ts, t.kind ≠ .unset)
    (hEnough : Grammar.allowance ts.length ≤ n)
    (error : ParseError)
    (p' : Parser) :
    p.parse (TokenList.ofTokens ts) name = (.error error, p') ↔
      ∃ s,
        Grammar.items p.table n (.before (.whole 0) ts) =
          .error error s ∧
        p' = (p.started ts).resume s := by
  rcases List.exists_cons_of_ne_nil hSome with ⟨t, us, rfl⟩
  rw [parse_eq_items p (hBegun t List.mem_cons_self) us name hEnough]
  cases Grammar.items p.table n (.before (.whole 0) (t :: us)) with
  | ok nodes s => simp
  | error error' s =>
      constructor
      · intro hSame
        cases hSame
        exact ⟨s, rfl, rfl⟩
      · rintro ⟨s', hSame, rfl⟩
        cases hSame
        rfl

theorem run_eq_ok_iff
    {α : Type}
    {p p' : Parser}
    {step : Parse α}
    {a : α} :
    p.run step = (.ok a, p') ↔
      ∃ s, step p.state = .ok a s ∧ p' = p.resume s := by
  unfold run
  cases step p.state with
  | ok b s => simp [eq_comm]
  | error e s => simp

/- A parser resumes at the tokens that a production has left. -/
theorem rest_resume
    {p : Parser}
    {s : ParseState}
    (hSuffix : s.rest <:+ p.tokens.tokens) :
    (p.resume s).tokens.rest = s.rest :=
  (List.suffix_iff_eq_drop.mp hSuffix).symm

/-
  The cursor after a step that takes a token and leaves a suffix:
  it is further on, not past the end, and the current token is
  the one before it.
-/
theorem resume_cursor
    (p : Parser)
    {s : ParseState}
    (hTaken : s.rest.length + 1 ≤ p.tokens.rest.length)
    (hSuffix : s.tokens <:+ p.state.tokens) :
    p.tokens.position < (p.resume s).tokens.position ∧
    (p.resume s).tokens.position ≤ p.tokens.tokens.length ∧
    p.tokens.tokens[(p.resume s).tokens.position - 1]? =
      some (p.resume s).tokens.current := by
  have hLength : p.tokens.rest.length =
      p.tokens.tokens.length - p.tokens.position := by
    simp [TokenList.rest]
  have hPosition : (p.resume s).tokens.position =
      p.tokens.tokens.length - s.rest.length := rfl
  -- More than the current token is taken, so that what is left is
  -- part of the list itself.
  have hRest : s.tokens <:+ p.tokens.rest := by
    have hState : p.state.tokens =
        p.tokens.current :: p.tokens.rest := rfl
    rw [hState] at hSuffix
    rcases List.suffix_cons_iff.mp hSuffix with hAll | hLater
    · have hCount := congrArg List.length hAll
      simp only [ParseState.tokens, List.length_cons] at hCount
      omega
    · exact hLater
  rcases hRest.trans (List.drop_suffix _ _) with ⟨before, hTokens⟩
  refine ⟨by omega, by omega, ?_⟩
  have hBefore : (p.resume s).tokens.position - 1 = before.length := by
    have hCount := congrArg List.length hTokens
    simp only [ParseState.tokens, List.length_append,
      List.length_cons] at hCount
    omega
  rw [hBefore, ← hTokens, List.getElem?_append_right le_rfl, Nat.sub_self]
  rfl

/-
  For every list of tokens and every table a program is parsed or
  refused.  More nested productions than five for each token, and
  eight, never make a difference.  A form that begins an item, a
  line or an operand takes at least one token when it is parsed,
  and leaves the list as it is, with the cursor in it after the
  current token.
-/
theorem parse_ends
    (p : Parser)
    (tokens : TokenList)
    (name : String) :
    ((∃ node, (p.parse tokens name).1 = .ok node) ∨
      ∃ e, e ≠ .tooDeep ∧ (p.parse tokens name).1 = .error e) ∧
    (∀ n, 5 * tokens.tokens.length + 8 ≤ n →
      p.parseWithin tokens name n = p.parse tokens name) ∧
    (∀ form n, 5 * p.tokens.tokens.length + 8 ≤ n →
      p.run (form.production p.table n) = p.parseForm form ∧
      (p.parseForm form).1 ≠ .error .tooDeep) ∧
    ∀ form ∈ Form.leading, ∀ node p',
      p.parseForm form = (.ok node, p') →
        p.tokens.position < p'.tokens.position ∧
        p'.tokens.position ≤ p.tokens.tokens.length ∧
        p'.tokens.tokens = p.tokens.tokens ∧
        p'.tokens.tokens[p'.tokens.position - 1]? =
          some p'.tokens.current := by
  let q : Parser := { p.reset with tokens := tokens }
  have hProgram : ∀ n, 5 * tokens.tokens.length + 8 ≤ n →
      p.parseWithin tokens name n = p.parse tokens name ∧
      (p.parse tokens name).1 ≠ .error .tooDeep := by
    intro n hNeed
    refine run_eq_of_settles q (program_settles q.table name ?_)
    have hLength : q.tokens.rest.length ≤ tokens.tokens.length := by
      simp [q, TokenList.rest]
    unfold Grammar.allowance
    omega
  refine ⟨?_, fun n hNeed => (hProgram n hNeed).1, ?_, ?_⟩
  · have hNever := (hProgram _ le_rfl).2
    cases hResult : (p.parse tokens name).1 with
    | ok node => exact .inl ⟨node, rfl⟩
    | error e =>
        refine .inr ⟨e, ?_, rfl⟩
        rintro rfl
        exact hNever hResult
  · intro form n hNeed
    have hLength : p.tokens.rest.length ≤ p.tokens.tokens.length := by
      simp [TokenList.rest]
    have hEnough :
        Grammar.allowance p.tokens.rest.length ≤ n := by
      unfold Grammar.allowance
      omega
    refine run_eq_of_settles p (Grammar.run_settles fun j hLess => ?_)
    exact Form.production_settles p.table form le_rfl
      ((Grammar.allowance_mono hLess).trans hEnough)
  · intro form hLeading node p' hParse
    rcases run_of_parseForm hParse with ⟨s, hRun⟩
    have hTaken := Form.production_takes hLeading p.table _ _ _ _ hRun
    have hSuffix := Form.production_suffix hLeading p.table
      (Grammar.allowance p.tokens.rest.length) p.state
    rw [hRun] at hSuffix
    have hResume : p' = p.resume s := by
      have hStep : Grammar.run (form.production p.table) p.state =
          .ok node s := hRun
      rw [parseForm, run_ok hStep] at hParse
      exact (Prod.mk.inj hParse).2.symm
    rw [hResume]
    rcases resume_cursor p hTaken hSuffix with ⟨hMoved, hInside, hLast⟩
    exact ⟨hMoved, hInside, rfl, hLast⟩

/-
  A parser at the first of three tokens without an end, with a
  table in which even the empty text binds.
-/
def sampleOpen :
    Parser :=
  ⟨⟨[("", 3), ("+", -1), ("*", 7)]⟩, .whole 0,
    ⟨[⟨.identifier, .text "a", Location.origin⟩,
      ⟨.operator, .text "*", Location.origin⟩,
      ⟨.floatLiteral, .amount (.whole 2), Location.origin⟩,
      ⟨.operator, .text "+", Location.origin⟩], 1,
      ⟨.identifier, .text "a", Location.origin⟩⟩⟩

theorem parse_ends_sample :
    sampleOpen.parseWithin sampleOpen.tokens "main" 100 =
      sampleOpen.parse sampleOpen.tokens "main" ∧
    ∃ node p',
      sampleOpen.parseForm .expression = (.ok node, p') ∧
      1 < p'.tokens.position ∧
      p'.tokens.tokens[p'.tokens.position - 1]? =
        some p'.tokens.current := by
  rcases parse_ends sampleOpen sampleOpen.tokens "main" with
    ⟨_, hWithin, _, hForms⟩
  have hMoves := hForms .expression (by decide) _ _ rfl
  exact ⟨hWithin 100 (by decide), _, _, rfl, hMoves.1, hMoves.2.2.2⟩

end Offside.Parser
