import Mathlib
import Offside.Proofs.Parser.Location

/-
  Locality of parsing: a production looks at the tokens it takes
  and at the one it comes to, and at no others.

  Key definitions include:
    * `Offside.ParseState.followedBy`
    * `Offside.Parse.Local`

  Main statements:
    * `Offside.Grammar.isLocal`: every production is local.
    * `Offside.Parse.Local.ok_of_followed`,
      `Offside.Parse.Local.error_of_followed`: the tokens that a
      run has not come to can be replaced by any others.
-/

------------------------------------------------------------
-- Local Steps
------------------------------------------------------------

namespace Offside

/- The state with more tokens after the ones it has. -/
def ParseState.followedBy
    (s : ParseState)
    (more : List Token) :
    ParseState :=
  { s with rest := s.rest ++ more }

namespace Parse

variable {α β : Type}

/-
  A step that does the same when more tokens follow, unless it
  has asked for them.  Then it takes at least one of them.
-/
structure Local
    (p : Parse α) :
    Prop where
  ok : ∀ {s a t} more, p s = .ok a t →
    p (s.followedBy more) = .ok a (t.followedBy more)
  error : ∀ {s e t} more, e ≠ .endOfTokens → p s = .error e t →
    p (s.followedBy more) = .error e (t.followedBy more)
  past : ∀ {s t more}, more ≠ [] → p s = .error .endOfTokens t →
    (stateOf (p (s.followedBy more))).rest.length < more.length
  shrinks : ∀ s, (stateOf (p s)).rest.length ≤ s.rest.length

namespace Local

variable {p : Parse α}

theorem pure
    (a : α) :
    Local (pure a) where
  ok more hRun := by
    cases hRun
    rfl
  error more _ hRun := by cases hRun
  past _ hRun := by cases hRun
  shrinks _ := le_rfl

theorem throw
    {e : ParseError}
    (hOther : e ≠ .endOfTokens) :
    Local (throw e : Parse α) where
  ok more hRun := by cases hRun
  error more _ hRun := by
    cases hRun
    rfl
  past _ hRun := by
    cases hRun
    exact absurd rfl hOther
  shrinks _ := le_rfl

theorem bind
    {k : α → Parse β}
    (hStep : Local p)
    (hNext : ∀ a, Local (k a)) :
    Local (p >>= k) where
  ok more hRun := by
    rcases Steps.bind_eq_ok hRun with ⟨a, t, hFirst, hSecond⟩
    rw [Steps.bind_ok (hStep.ok more hFirst)]
    exact (hNext a).ok more hSecond
  error more hOther hRun := by
    rcases Steps.bind_eq_error hRun with hFirst | ⟨a, t, hFirst, hSecond⟩
    · rw [Steps.bind_apply, hStep.error more hOther hFirst]
    · rw [Steps.bind_ok (hStep.ok more hFirst)]
      exact (hNext a).error more hOther hSecond
  past {s _ more} hSome hRun := by
    rcases Steps.bind_eq_error hRun with hFirst | ⟨a, t, hFirst, hSecond⟩
    · -- The first step has taken one of them; the second gives none back.
      have hTaken := hStep.past hSome hFirst
      rw [Steps.bind_apply]
      cases hLonger : p (s.followedBy more) with
      | error e u =>
          rw [hLonger] at hTaken
          exact hTaken
      | ok a u =>
          rw [hLonger] at hTaken
          exact ((hNext a).shrinks u).trans_lt hTaken
    · rw [Steps.bind_ok (hStep.ok more hFirst)]
      exact (hNext a).past hSome hSecond
  shrinks s := by
    have hFirst := hStep.shrinks s
    rw [Steps.bind_apply]
    cases hRun : p s with
    | error e t =>
        rw [hRun] at hFirst
        exact hFirst
    | ok a t =>
        rw [hRun] at hFirst
        exact ((hNext a).shrinks t).trans hFirst

theorem ite
    {c : Prop}
    [Decidable c]
    {q : Parse α}
    (hYes : Local p)
    (hNo : Local q) :
    Local (if c then p else q) := by
  split
  · exact hYes
  · exact hNo

/- A step that only looks at the current token. -/
theorem look
    {f : Token → α}
    (hLook : ∀ s, p s = .ok (f s.current) s) :
    Local p where
  ok {s a t} more hRun := by
    rw [hLook] at hRun ⊢
    cases hRun
    rfl
  error {s e t} more _ hRun := by
    rw [hLook] at hRun
    cases hRun
  past {s t more} _ hRun := by
    rw [hLook] at hRun
    cases hRun
  shrinks s := by
    rw [hLook]
    exact le_rfl

theorem current :
    Local current :=
  look (f := id) fun _ => rfl

theorem atOperator
    (operator : String) :
    Local (atOperator operator) :=
  look (f := fun t => t.isOperator operator) fun _ => rfl

theorem atKind
    (kind : Kind) :
    Local (atKind kind) :=
  look (f := fun t => decide (t.kind = kind)) fun _ => rfl

theorem expectOperator
    (operator : String)
    (what : Expectation) :
    Local (expectOperator operator what) :=
  (atOperator operator).bind fun _ => ite (pure ()) (throw nofun)

theorem expectKind
    (kind : Kind)
    (what : Expectation) :
    Local (expectKind kind what) :=
  (atKind kind).bind fun _ => ite (pure ()) (throw nofun)

theorem expectColon
    (keyword : String) :
    Local (expectColon keyword) :=
  current.bind fun _ => ite (pure ()) (throw nofun)

/- The one step that asks for a token. -/
theorem advance :
    Local advance where
  ok {s a t} more hRun := by
    rcases s with ⟨c, ts, level⟩
    cases ts with
    | nil => cases hRun
    | cons u us =>
        cases hRun
        rfl
  error {s e t} more hOther hRun := by
    rcases s with ⟨c, ts, level⟩
    cases ts with
    | nil =>
        cases hRun
        exact absurd rfl hOther
    | cons u us => cases hRun
  past {s t more} hSome hRun := by
    rcases s with ⟨c, ts, level⟩
    cases ts with
    | nil =>
        cases more with
        | nil => exact absurd rfl hSome
        | cons u us => exact Nat.lt_succ_self us.length
    | cons u us => cases hRun
  shrinks s := by
    rcases s with ⟨c, ts, level⟩
    cases ts with
    | nil => exact le_rfl
    | cons u us => exact Nat.le_succ us.length

theorem modifyLevel
    (change : Amount → Amount) :
    Local (modify fun s => { s with level := change s.level }) where
  ok more hRun := by
    cases hRun
    rfl
  error more _ hRun := by cases hRun
  past _ hRun := by cases hRun
  shrinks _ := le_rfl

/- Of a state that is looked at only the level may count. -/
theorem state
    {k : ParseState → Parse β}
    (hLevel : ∀ {s t : ParseState}, s.level = t.level → k s = k t)
    (hNext : ∀ s, Local (k s)) :
    Local (get >>= k) where
  ok {s b t} more hRun := by
    rw [Steps.bind_ok (Steps.get_apply s)] at hRun
    rw [Steps.bind_ok (Steps.get_apply (s.followedBy more)),
      hLevel (show (s.followedBy more).level = s.level from rfl)]
    exact (hNext s).ok more hRun
  error {s e t} more hOther hRun := by
    rw [Steps.bind_ok (Steps.get_apply s)] at hRun
    rw [Steps.bind_ok (Steps.get_apply (s.followedBy more)),
      hLevel (show (s.followedBy more).level = s.level from rfl)]
    exact (hNext s).error more hOther hRun
  past {s t more} hSome hRun := by
    rw [Steps.bind_ok (Steps.get_apply s)] at hRun
    rw [Steps.bind_ok (Steps.get_apply (s.followedBy more)),
      hLevel (show (s.followedBy more).level = s.level from rfl)]
    exact (hNext s).past hSome hRun
  shrinks s := by
    rw [Steps.bind_ok (Steps.get_apply s)]
    exact (hNext s).shrinks s

end Local

end Parse

end Offside

------------------------------------------------------------
-- Productions
------------------------------------------------------------

namespace Offside.Parse.Local

variable {p q : Parse Node}
variable {ps : Parse (List Node)}
variable {entries : Parse (List (Value × Node))}

theorem literal :
    Local literal :=
  current.bind fun _ => advance.bind fun _ => pure _

theorem parenthesized
    (hInner : Local p) :
    Local (parenthesized p) :=
  advance.bind fun _ => hInner.bind fun _ =>
    (expectOperator _ _).bind fun _ => advance.bind fun _ => pure _

theorem arguments
    (hFirst : Local p)
    (hMore : Local ps) :
    Local (arguments p ps) :=
  hFirst.bind fun _ => (atOperator _).bind fun _ => ite (pure _)
    ((expectOperator _ _).bind fun _ => advance.bind fun _ =>
      hMore.bind fun _ => pure _)

theorem named
    (hArguments : Local ps) :
    Local (named ps) := by
  refine current.bind fun t => advance.bind fun _ =>
    (atOperator _).bind fun _ => ite ?_ (pure _)
  refine advance.bind fun _ => bind ?_ fun _ =>
    advance.bind fun _ => pure _
  exact (atOperator _).bind fun _ => ite (pure _) hArguments

theorem unary
    (hPrimary : Local p)
    (hOperand : Local q) :
    Local (unary p q) :=
  current.bind fun _ => ite hPrimary
    (advance.bind fun _ => hOperand.bind fun _ => pure _)

theorem binaryRest
    (table : Precedence)
    (hUnary : Local p)
    {rest : Int → Node → Parse Node}
    (hRest : ∀ least lhs, Local (rest least lhs))
    (least : Int)
    (lhs : Node) :
    Local (binaryRest table p rest least lhs) := by
  refine current.bind fun op => ite (pure lhs) ?_
  refine advance.bind fun _ => hUnary.bind fun operand =>
    bind ?_ fun rhs => hRest least _
  exact current.bind fun _ => ite (hRest _ operand) (pure operand)

theorem expression
    (hUnary : Local p)
    {rest : Int → Node → Parse Node}
    (hRest : ∀ least lhs, Local (rest least lhs)) :
    Local (expression p rest) :=
  hUnary.bind fun lhs => hRest 0 lhs

theorem lines
    (hFirst : Local p)
    {more : Amount → Parse (List Node)}
    (hMore : ∀ indent, Local (more indent))
    (indent : Amount) :
    Local (lines p more indent) := by
  refine hFirst.bind fun e => current.bind fun t => ite (pure [e]) ?_
  cases t.value with
  | text s => exact throw nofun
  | amount found =>
      have hNext : Local (do
          Parse.advance
          let es ← more indent
          return e :: es) :=
        advance.bind fun _ => (hMore indent).bind fun _ => pure _
      exact ite (pure [e]) (ite ((throw (by simp)).bind fun _ => hNext) hNext)

theorem block
    {lines : Amount → Parse (List Node)}
    (hLines : ∀ indent, Local (lines indent)) :
    Local (block lines) := by
  refine current.bind fun t => advance.bind fun _ => state ?_ fun s => ?_
  · intro s u hSame
    simp only [hSame]
  · cases t.value with
    | text s => exact throw nofun
    | amount indent =>
        have hNodes : Local (do
            let nodes ← (do
              if s.level.less indent then
                setLevel indent
                lines indent
              else return [])
            modify fun s => { s with level := s.level.minus levelWidth }
            return Node.block nodes) := by
          refine bind ?_ fun nodes =>
            (modifyLevel fun level => level.minus levelWidth).bind
              fun _ => pure _
          exact ite ((modifyLevel fun _ => indent).bind fun _ =>
            hLines indent) (pure [])
        exact ite ((throw (by simp)).bind fun _ => hNodes) hNodes

theorem branch
    (hCondition : Local p)
    (hBlock : Local q) :
    Local (branch p q) := by
  refine current.bind fun t => advance.bind fun _ =>
    hCondition.bind fun cond => (expectColon _).bind fun _ =>
      advance.bind fun _ => hBlock.bind fun yes =>
        (atKind _).bind fun _ => ?_
  refine ite (advance.bind fun _ => ?_) ?_
  all_goals
    refine bind ?_ fun _ => pure _
    exact (atKind _).bind fun _ => ite
      (advance.bind fun _ => (expectColon _).bind fun _ =>
        advance.bind fun _ => hBlock)
      (pure _)

theorem loop
    (hPart : Local p) :
    Local (loop p) := by
  refine advance.bind fun _ => (expectKind _ _).bind fun _ =>
    current.bind fun counter => advance.bind fun _ =>
      (expectOperator _ _).bind fun _ => advance.bind fun _ =>
        hPart.bind fun first => (expectOperator _ _).bind fun _ =>
          advance.bind fun _ => hPart.bind fun last => ?_
  refine bind ?_ fun step => (expectKind _ _).bind fun _ =>
    advance.bind fun _ => hPart.bind fun body => pure _
  exact (atOperator _).bind fun _ =>
    ite (advance.bind fun _ => hPart) (pure _)

theorem bindings
    (hValue : Local p)
    (hMore : Local entries) :
    Local (bindings p entries) := by
  refine current.bind fun name => advance.bind fun _ =>
    bind ?_ fun value => (atOperator _).bind fun _ => ite ?_ (pure _)
  · exact (atOperator _).bind fun _ =>
      ite (advance.bind fun _ => hValue) (pure _)
  · exact advance.bind fun _ => (expectKind _ _).bind fun _ =>
      hMore.bind fun others => pure _

theorem declaration
    (hBody : Local p)
    (hEntries : Local entries) :
    Local (declaration p entries) :=
  advance.bind fun _ => (expectKind _ _).bind fun _ =>
    hEntries.bind fun _ => (expectKind _ _).bind fun _ =>
      advance.bind fun _ => hBody.bind fun _ => pure _

theorem returned
    (hValue : Local p) :
    Local (returned p) :=
  advance.bind fun _ => hValue.bind fun _ => pure _

theorem unknown :
    Local unknown :=
  current.bind fun _ => advance.bind fun _ => throw nofun

theorem primary
    {parts : Parts}
    (hExpression : Local parts.expression)
    (hArguments : Local parts.arguments)
    (hEntries : Local parts.bindings)
    (hBlock : Local parts.block)
    (hPrimary : Local parts.primary) :
    Local (primary parts) := by
  refine current.bind fun t => ?_
  cases t.kind
  case identifier => exact named hArguments
  case floatLiteral => exact literal
  case kwIf => exact branch hExpression hBlock
  case kwFor => exact loop hExpression
  case kwVar => exact declaration hExpression hEntries
  case kwReturn => exact returned hExpression
  case indent => exact hBlock
  case operator =>
    exact ite (parenthesized hExpression)
      (ite (advance.bind fun _ => hPrimary) unknown)
  all_goals exact unknown

/-
  Parameters are taken in one go.  The state they start from
  counts for its level only.
-/
theorem parametersFrom_followedBy
    {s t : ParseState}
    {ts : List Token}
    {nodes : List Node}
    (hRun : parametersFrom s ts = .ok nodes t)
    (more : List Token) :
    ∀ s', s'.level = s.level →
      parametersFrom s' (ts ++ more) = .ok nodes (t.followedBy more) := by
  fun_induction parametersFrom s ts generalizing nodes t with
  | case3 s u hOther =>
      intro s' hLevel
      cases hRun
      cases more with
      | nil => simp [parametersFrom, hOther, ParseState.followedBy, hLevel]
      | cons v vs =>
          simp [parametersFrom, hOther, ParseState.followedBy, hLevel]
  | case4 s u v ts hName hComma nodes s'' hMore ih =>
      intro s' hLevel
      cases hRun
      have hRest := ih hMore { s' with current := v } hLevel
      simp [parametersFrom, hName, hComma, hRest]
  | case6 s u v ts hName hComma =>
      intro s' hLevel
      cases hRun
      simp [parametersFrom, hName, hComma, ParseState.followedBy, hLevel]
  | case7 s u v ts hOther =>
      intro s' hLevel
      cases hRun
      simp [parametersFrom, hOther, ParseState.followedBy, hLevel]
  | case1 | case2 | case5 => cases hRun

theorem parametersFrom_error
    {s t : ParseState}
    {ts : List Token}
    {e : ParseError}
    (hRun : parametersFrom s ts = .error e t) :
    e = .endOfTokens := by
  fun_induction parametersFrom s ts with
  | case5 s u v ts hName hComma e s'' hMore ih =>
      cases hRun
      exact ih hMore
  | case1 | case2 =>
      cases hRun
      rfl
  | case3 | case4 | case6 | case7 => cases hRun

theorem parametersFrom_shrinks
    (s : ParseState)
    (ts : List Token) :
    (stateOf (parametersFrom s ts)).rest.length ≤ ts.length := by
  have hSuffix := (parametersFrom_suffix s ts).length_le
  simpa [ParseState.tokens] using hSuffix

/- At least one token is taken if there is one. -/
theorem parametersFrom_takes
    (s : ParseState)
    (t : Token)
    (ts : List Token) :
    (stateOf (parametersFrom s (t :: ts))).rest.length ≤ ts.length := by
  cases ts with
  | nil =>
      unfold parametersFrom
      split <;> exact le_rfl
  | cons u us =>
      have hMore := parametersFrom_shrinks { s with current := u } us
      unfold parametersFrom
      split
      · split
        · split
          all_goals
            rename_i hRest
            rw [hRest] at hMore
            exact hMore.trans (Nat.le_succ us.length)
        · exact Nat.le_succ us.length
      · exact le_rfl

theorem parametersFrom_past
    {s t : ParseState}
    {ts more : List Token}
    (hSome : more ≠ [])
    (hRun : parametersFrom s ts = .error .endOfTokens t) :
    ∀ s', (stateOf (parametersFrom s' (ts ++ more))).rest.length <
      more.length := by
  rcases List.exists_cons_of_ne_nil hSome with ⟨v, vs, rfl⟩
  fun_induction parametersFrom s ts with
  | case1 s =>
      intro s'
      exact Nat.lt_succ_of_le (parametersFrom_takes s' v vs)
  | case2 s u hName =>
      intro s'
      have hMore := parametersFrom_shrinks { s' with current := v } vs
      simp only [List.cons_append, List.nil_append, parametersFrom, hName,
        if_true]
      split
      · split
        all_goals
          rename_i hRest
          rw [hRest] at hMore
          exact Nat.lt_succ_of_le hMore
      · exact Nat.lt_succ_self vs.length
  | case5 s u w ts hName hComma e s'' hMore ih =>
      intro s'
      cases hRun
      have hLater := ih hMore { s' with current := w }
      simp only [List.cons_append, parametersFrom, hName, hComma, if_true]
      split
      all_goals
        rename_i hRest
        rw [hRest] at hLater
        exact hLater
  | case3 | case4 | case6 | case7 => cases hRun

theorem parameters :
    Local parameters where
  ok more hRun := parametersFrom_followedBy hRun more _ rfl
  error _ hOther hRun := absurd (parametersFrom_error hRun) hOther
  past hSome hRun := parametersFrom_past hSome hRun _
  shrinks s := parametersFrom_shrinks s s.rest

theorem externPrototype :
    Local externPrototype :=
  current.bind fun _ => (expectKind _ _).bind fun _ =>
    advance.bind fun _ => (expectOperator _ _).bind fun _ =>
      parameters.bind fun _ => (expectOperator _ _).bind fun _ =>
        advance.bind fun _ => pure _

theorem functionPrototype :
    Local functionPrototype :=
  externPrototype.bind fun _ => (expectOperator _ _).bind fun _ =>
    advance.bind fun _ => pure _

theorem function
    (hBlock : Local p) :
    Local (function p) :=
  advance.bind fun _ => functionPrototype.bind fun _ =>
    hBlock.bind fun _ => pure _

theorem external :
    Local external :=
  advance.bind fun _ => externPrototype

end Offside.Parse.Local

------------------------------------------------------------
-- The Grammar
------------------------------------------------------------

namespace Offside.Grammar

open Parse (Local)

/- All productions that are nested in one another, at one allowance. -/
structure AllLocal
    (table : Precedence)
    (n : Nat) :
    Prop where
  primary : Local (primary table n)
  unary : Local (unary table n)
  binaryRest : ∀ least lhs, Local (binaryRest table n least lhs)
  expression : Local (expression table n)
  arguments : Local (arguments table n)
  bindings : Local (bindings table n)
  lines : ∀ indent, Local (lines table n indent)
  block : Local (block table n)

theorem isLocal
    (table : Precedence)
    (n : Nat) :
    AllLocal table n := by
  induction n with
  | zero =>
      constructor
      case binaryRest => exact fun _ _ => Local.throw nofun
      case lines => exact fun _ => Local.throw nofun
      all_goals exact Local.throw nofun
  | succ n ih =>
      constructor
      case primary =>
        exact Local.primary ih.expression ih.arguments ih.bindings
          ih.block ih.primary
      case unary => exact Local.unary ih.primary ih.unary
      case binaryRest =>
        exact Local.binaryRest table ih.unary ih.binaryRest
      case expression => exact Local.expression ih.unary ih.binaryRest
      case arguments => exact Local.arguments ih.expression ih.arguments
      case bindings => exact Local.bindings ih.expression ih.bindings
      case lines => exact Local.lines ih.expression ih.lines
      case block => exact Local.block ih.lines

/- An item of a program. -/
theorem isLocal_item
    (table : Precedence)
    (n : Nat)
    (kind : Kind) :
    Local
      (match kind with
      | .kwFunction => Parse.function (block table n)
      | .kwExtern => Parse.external
      | _ => expression table n) := by
  split
  · exact Local.function (isLocal table n).block
  · exact Local.external
  · exact (isLocal table n).expression

theorem isLocal_items
    (table : Precedence)
    (n : Nat) :
    Local (items table n) := by
  induction n with
  | zero => exact Local.throw nofun
  | succ n ih =>
      exact Local.current.bind fun t => Local.ite (Local.pure [])
        (Local.ite (Local.advance.bind fun _ => ih)
          ((isLocal_item table n t.kind).bind fun _ =>
            ih.bind fun _ => Local.pure _))

end Offside.Grammar

------------------------------------------------------------
-- Other Tokens in the Place of Those Ahead
------------------------------------------------------------

namespace Offside.Parse.Local

variable {α : Type}
variable {p : Parse α}

/-
  A run that succeeds before it has come to the tokens `xs`
  succeeds in the same way with any others in their place.
-/
theorem ok_of_followed
    (hLocal : Local p)
    {s t : ParseState}
    {xs : List Token}
    {a : α}
    (hRun : p (s.followedBy xs) = .ok a t)
    (hBefore : xs.length ≤ t.rest.length) :
    ∃ u : ParseState, t = u.followedBy xs ∧
      ∀ ys, p (s.followedBy ys) = .ok a (u.followedBy ys) := by
  cases hShort : p s with
  | ok b u =>
      have hSame := hLocal.ok xs hShort
      rw [hRun] at hSame
      cases hSame
      exact ⟨u, rfl, fun ys => hLocal.ok ys hShort⟩
  | error e u =>
      by_cases hPast : e = .endOfTokens
      · subst hPast
        by_cases hSome : xs = []
        · subst hSome
          simp only [ParseState.followedBy, List.append_nil] at hRun
          rw [hRun] at hShort
          cases hShort
        · have hTaken := hLocal.past hSome hShort
          rw [hRun] at hTaken
          exact absurd hBefore (Nat.not_le_of_lt hTaken)
      · have hSame := hLocal.error xs hPast hShort
        rw [hRun] at hSame
        cases hSame

/- The same of a run that fails, and does not ask for a token. -/
theorem error_of_followed
    (hLocal : Local p)
    {s t : ParseState}
    {xs : List Token}
    {e : ParseError}
    (hRun : p (s.followedBy xs) = .error e t)
    (hBefore : xs.length ≤ t.rest.length)
    (hOther : e ≠ .endOfTokens) :
    ∃ u : ParseState, t = u.followedBy xs ∧
      ∀ ys, p (s.followedBy ys) = .error e (u.followedBy ys) := by
  cases hShort : p s with
  | ok b u =>
      have hSame := hLocal.ok xs hShort
      rw [hRun] at hSame
      cases hSame
  | error e' u =>
      by_cases hPast : e' = .endOfTokens
      · subst hPast
        by_cases hSome : xs = []
        · subst hSome
          simp only [ParseState.followedBy, List.append_nil] at hRun
          rw [hRun] at hShort
          cases hShort
          exact absurd rfl hOther
        · have hTaken := hLocal.past hSome hShort
          rw [hRun] at hTaken
          exact absurd hBefore (Nat.not_le_of_lt hTaken)
      · have hSame := hLocal.error xs hPast hShort
        rw [hRun] at hSame
        cases hSame
        exact ⟨u, rfl, fun ys => hLocal.error ys hPast hShort⟩

end Offside.Parse.Local

------------------------------------------------------------
-- Tokens Taken from the Front
------------------------------------------------------------

namespace Offside.Parse

variable {α β : Type}

/- A step that takes tokens from the front, and looks at no others. -/
structure Frontal
    (p : Parse α) :
    Prop where
  isLocal : Local p
  suffix : ∀ s, (stateOf (p s)).tokens <:+ s.tokens

namespace Frontal

variable {p : Parse α}

theorem pure
    (a : α) :
    Frontal (pure a) :=
  ⟨Local.pure a, fun _ => List.suffix_rfl⟩

theorem throw
    {e : ParseError}
    (hOther : e ≠ .endOfTokens) :
    Frontal (throw e : Parse α) :=
  ⟨Local.throw hOther, fun _ => List.suffix_rfl⟩

theorem bind
    {k : α → Parse β}
    (hStep : Frontal p)
    (hNext : ∀ a, Frontal (k a)) :
    Frontal (p >>= k) where
  isLocal := hStep.isLocal.bind fun a => (hNext a).isLocal
  suffix s := by
    have hFirst := hStep.suffix s
    rw [Steps.bind_apply]
    cases hRun : p s with
    | error e t =>
        rw [hRun] at hFirst
        exact hFirst
    | ok a t =>
        rw [hRun] at hFirst
        exact ((hNext a).suffix t).trans hFirst

/- A run that succeeds has no more tokens than before. -/
theorem shrinks
    (hStep : Frontal p)
    {s t : ParseState}
    {a : α}
    (hRun : p s = .ok a t) :
    t.rest.length ≤ s.rest.length := by
  have hFewer := hStep.isLocal.shrinks s
  rwa [hRun] at hFewer

/- What it leaves is determined by how many tokens that are. -/
theorem eq_of_length
    (hStep : Frontal p)
    {s t : ParseState}
    (before : List Token)
    {u : Token}
    {us : List Token}
    {a : α}
    (hTokens : s.tokens = before ++ u :: us)
    (hRun : p s = .ok a t)
    (hLength : t.rest.length = us.length) :
    t = ⟨u, us, t.level⟩ := by
  have hSuffix : t.tokens <:+ before ++ u :: us := by
    have hLeft := hStep.suffix s
    rwa [hRun, hTokens] at hLeft
  have hLengths : t.tokens.length = (u :: us).length :=
    congrArg (· + 1) hLength
  -- both are what is left of one list, and equally long
  have hSame : t.tokens = u :: us :=
    (List.suffix_of_suffix_length_le hSuffix (List.suffix_append before _)
      hLengths.le).eq_of_length hLengths
  injection hSame with hFirst hRest
  rw [← hFirst, ← hRest]

end Frontal

end Offside.Parse

namespace Offside.Grammar

open Parse (Frontal)

/- An item of a program takes tokens from the front. -/
theorem frontal_item
    (table : Precedence)
    (n : Nat)
    (kind : Kind) :
    Frontal
      (match kind with
      | .kwFunction => Parse.function (block table n)
      | .kwExtern => Parse.external
      | _ => expression table n) := by
  have hOrderly := orderly table n
  split
  · exact ⟨Parse.Local.function (isLocal table n).block,
      (Parse.Orderly.function hOrderly.block).suffix⟩
  · exact ⟨Parse.Local.external, Parse.Orderly.external.suffix⟩
  · exact ⟨(isLocal table n).expression, hOrderly.expression.suffix⟩

end Offside.Grammar
