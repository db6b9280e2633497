import Mathlib
import Offside.Proofs.Parser.Step

/-
  Locations do not matter to parsing: they are copied into the
  tree and never looked at.

  Key definitions include:
    * `Offside.Node.unlocated`
    * `Offside.Parse.Orderly`

  Main statements:
    * `Offside.Grammar.orderly`: on tokens without locations
      every production gives the same tree without locations,
      and it always leaves a suffix of the tokens it was given.
    * `Offside.Parse.Orderly.lift`: what is known of a run
      without locations holds of the run with them.
-/

------------------------------------------------------------
-- Forgetting Locations
------------------------------------------------------------

namespace Offside

/- The token without its location. -/
def Token.unlocated
    (t : Token) :
    Token :=
  { t with location := Location.origin }

@[simp] theorem Token.kind_unlocated
    (t : Token) :
    t.unlocated.kind = t.kind :=
  rfl

@[simp] theorem Token.value_unlocated
    (t : Token) :
    t.unlocated.value = t.value :=
  rfl

namespace Node

mutual

/- The tree without locations and lines. -/
def unlocated :
    Node →
    Node
  | absent => absent
  | plain _ => plain Location.origin
  | float value => float value
  | reference name type _ => reference name type Location.origin
  | unary op operand => unary op (unlocated operand)
  | binary op lhs rhs _ =>
      binary op (unlocated lhs) (unlocated rhs) Location.origin
  | call callee args _ =>
      call callee (unlocatedAll args) Location.origin
  | branch cond yes no _ =>
      branch (unlocated cond) (unlocated yes) (unlocated no)
        Location.origin
  | loop counter first last step body =>
      loop counter (unlocated first) (unlocated last)
        (unlocated step) (unlocated body)
  | declare names type body =>
      declare (unlocatedNamed names) type (unlocated body)
  | prototype name type args _ =>
      prototype name type (unlocatedAll args) 0
  | function proto body =>
      function (unlocated proto) (unlocated body)
  | ret value => ret (unlocated value)
  | program name nodes => program name (unlocatedAll nodes)
  | block nodes => block (unlocatedAll nodes)

/- Several trees without locations. -/
def unlocatedAll :
    List Node →
    List Node
  | [] => []
  | node :: nodes => unlocated node :: unlocatedAll nodes

/- Named trees without locations. -/
def unlocatedNamed :
    List (Value × Node) →
    List (Value × Node)
  | [] => []
  | (name, node) :: names =>
      (name, unlocated node) :: unlocatedNamed names

end

end Node

/- The state without the locations of its tokens. -/
def ParseState.unlocated
    (s : ParseState) :
    ParseState :=
  ⟨s.current.unlocated, s.rest.map Token.unlocated, s.level⟩

theorem ParseState.unlocated_before
    (level : Amount)
    (ts : List Token) :
    (before level ts).unlocated =
      before level (ts.map Token.unlocated) := by
  cases ts <;> rfl

end Offside

------------------------------------------------------------
-- Orderly Steps
------------------------------------------------------------

namespace Offside.Parse

variable {α β γ δ : Type}

/- A result without locations. -/
def unlocatedResult
    (f : α → β) :
    EStateM.Result ParseError ParseState α →
    EStateM.Result ParseError ParseState β
  | .ok a s => .ok (f a) s.unlocated
  | .error e s => .error e s.unlocated

/- The state that a result leaves behind. -/
def stateOf :
    EStateM.Result ParseError ParseState α →
    ParseState
  | .ok _ s => s
  | .error _ s => s

/-
  A step `p` whose counterpart without locations is `q`: from a
  state without locations `q` gives what `p` gives, without
  locations; and `p` leaves a suffix of its tokens.
-/
structure Orderly
    (f : α → β)
    (p : Parse α)
    (q : Parse β) :
    Prop where
  unlocated :
    ∀ s, q s.unlocated = unlocatedResult f (p s)
  suffix :
    ∀ s, (stateOf (p s)).tokens <:+ s.tokens

namespace Orderly

theorem pure
    (f : α → β)
    (a : α) :
    Orderly f (pure a) (pure (f a)) where
  unlocated _ := rfl
  suffix _ := List.suffix_rfl

theorem throw
    (f : α → β)
    (e : ParseError) :
    Orderly f (throw e) (throw e) where
  unlocated _ := rfl
  suffix _ := List.suffix_rfl

theorem bind
    {f : α → β}
    {g : γ → δ}
    {p : Parse α}
    {q : Parse β}
    {k : α → Parse γ}
    {l : β → Parse δ}
    (hStep : Orderly f p q)
    (hNext : ∀ a, Orderly g (k a) (l (f a))) :
    Orderly g (p >>= k) (q >>= l) where
  unlocated s := by
    rw [Steps.bind_apply, Steps.bind_apply, hStep.unlocated]
    cases p s with
    | ok a t => exact (hNext a).unlocated t
    | error e t => rfl
  suffix s := by
    have hSuffix := hStep.suffix s
    rw [Steps.bind_apply]
    cases h : p s with
    | ok a t =>
        rw [h] at hSuffix
        exact ((hNext a).suffix t).trans hSuffix
    | error e t =>
        rw [h] at hSuffix
        exact hSuffix

theorem ite
    {f : α → β}
    {c : Prop}
    [Decidable c]
    {p p' : Parse α}
    {q q' : Parse β}
    (hYes : Orderly f p q)
    (hNo : Orderly f p' q') :
    Orderly f (if c then p else p') (if c then q else q') := by
  split
  · exact hYes
  · exact hNo

theorem current :
    Orderly Token.unlocated current current where
  unlocated _ := rfl
  suffix _ := List.suffix_rfl

theorem advance :
    Orderly id advance advance where
  unlocated s := by
    rcases s with ⟨t, ts, level⟩
    cases ts <;> rfl
  suffix s := by
    rcases s with ⟨t, ts, level⟩
    cases ts with
    | nil => exact List.suffix_rfl
    | cons u us => exact List.suffix_cons t (u :: us)

theorem atOperator
    (operator : String) :
    Orderly id (atOperator operator) (atOperator operator) where
  unlocated _ := rfl
  suffix _ := List.suffix_rfl

theorem atKind
    (kind : Kind) :
    Orderly id (atKind kind) (atKind kind) where
  unlocated _ := rfl
  suffix _ := List.suffix_rfl

/- A change of the level alone. -/
theorem modifyLevel
    (change : Amount → Amount) :
    Orderly id
      (modify fun s => { s with level := change s.level })
      (modify fun s => { s with level := change s.level }) where
  unlocated _ := rfl
  suffix _ := List.suffix_rfl

theorem state :
    Orderly ParseState.unlocated get get where
  unlocated _ := rfl
  suffix _ := List.suffix_rfl

theorem expectOperator
    (operator : String)
    (what : Expectation) :
    Orderly id
      (expectOperator operator what)
      (expectOperator operator what) :=
  (atOperator operator).bind fun _ =>
    ite (pure id ()) (throw id _)

theorem expectKind
    (kind : Kind)
    (what : Expectation) :
    Orderly id (expectKind kind what) (expectKind kind what) :=
  (atKind kind).bind fun _ => ite (pure id ()) (throw id _)

theorem expectColon
    (keyword : String) :
    Orderly id (expectColon keyword) (expectColon keyword) :=
  current.bind fun _ => ite (pure id ()) (throw id _)

end Orderly

end Offside.Parse

------------------------------------------------------------
-- Productions
------------------------------------------------------------

namespace Offside.Node

theorem unlocatedAll_eq_map
    (nodes : List Node) :
    unlocatedAll nodes = nodes.map unlocated := by
  induction nodes with
  | nil => rfl
  | cons node nodes ih => simp [unlocatedAll, ih]

/- A named tree without locations. -/
def unlocatedEntry
    (entry : Value × Node) :
    Value × Node :=
  (entry.1, entry.2.unlocated)

theorem unlocatedNamed_eq_map
    (names : List (Value × Node)) :
    unlocatedNamed names = names.map unlocatedEntry := by
  induction names with
  | nil => rfl
  | cons entry names ih =>
      simp [unlocatedNamed, unlocatedEntry, ih]

end Offside.Node

namespace Offside.Parse.Orderly

open Node (unlocatedEntry)

variable {p q : Parse Node}
variable {ps : Parse (List Node)}

theorem literal :
    Orderly Node.unlocated literal literal :=
  current.bind fun t => advance.bind fun _ =>
    pure Node.unlocated (.float t.value)

theorem parenthesized
    (hInner : Orderly Node.unlocated p p) :
    Orderly Node.unlocated (parenthesized p) (parenthesized p) :=
  advance.bind fun _ => hInner.bind fun e =>
    (expectOperator _ _).bind fun _ => advance.bind fun _ =>
      pure Node.unlocated e

theorem arguments
    (hFirst : Orderly Node.unlocated p p)
    (hMore : Orderly (List.map Node.unlocated) ps ps) :
    Orderly (List.map Node.unlocated)
      (arguments p ps) (arguments p ps) :=
  hFirst.bind fun e => (atOperator _).bind fun _ =>
    ite (pure (List.map Node.unlocated) [e])
      ((expectOperator _ _).bind fun _ => advance.bind fun _ =>
        hMore.bind fun es => pure (List.map Node.unlocated) (e :: es))

theorem named
    (hArguments : Orderly (List.map Node.unlocated) ps ps) :
    Orderly Node.unlocated (named ps) (named ps) := by
  refine current.bind fun t => advance.bind fun _ =>
    (atOperator _).bind fun _ => ite ?_ ?_
  · refine advance.bind fun _ =>
      bind (f := List.map Node.unlocated) ?_ fun args => ?_
    · exact (atOperator _).bind fun _ =>
        ite (pure (List.map Node.unlocated) []) hArguments
    · refine advance.bind fun _ => ?_
      rw [← Node.unlocatedAll_eq_map]
      exact pure Node.unlocated (.call t.value args t.location)
  · exact pure Node.unlocated (variableOf t)

theorem unary
    (hPrimary : Orderly Node.unlocated p p)
    (hOperand : Orderly Node.unlocated q q) :
    Orderly Node.unlocated (unary p q) (unary p q) :=
  current.bind fun t => ite hPrimary
    (advance.bind fun _ => hOperand.bind fun e =>
      pure Node.unlocated (.unary t.value e))

theorem binaryRest
    (table : Precedence)
    {rest : Int → Node → Parse Node}
    (hUnary : Orderly Node.unlocated p p)
    (hRest : ∀ least lhs,
      Orderly Node.unlocated
        (rest least lhs) (rest least lhs.unlocated))
    (least : Int)
    (lhs : Node) :
    Orderly Node.unlocated
      (binaryRest table p rest least lhs)
      (binaryRest table p rest least lhs.unlocated) := by
  refine current.bind fun op => ite (pure Node.unlocated lhs) ?_
  refine advance.bind fun _ => hUnary.bind fun operand => ?_
  refine bind (f := Node.unlocated) ?_ fun rhs => ?_
  · exact current.bind fun _ => ite (hRest _ operand)
      (pure Node.unlocated operand)
  · exact hRest least (.binary op.value lhs rhs op.location)

theorem expression
    {rest : Int → Node → Parse Node}
    (hUnary : Orderly Node.unlocated p p)
    (hRest : ∀ least lhs,
      Orderly Node.unlocated
        (rest least lhs) (rest least lhs.unlocated)) :
    Orderly Node.unlocated (expression p rest) (expression p rest) :=
  hUnary.bind fun lhs => hRest 0 lhs

end Offside.Parse.Orderly

------------------------------------------------------------
-- Blocks and Statements
------------------------------------------------------------

namespace Offside.Parse.Orderly

open Node (unlocatedEntry)

variable {p q : Parse Node}
variable {ps : Parse (List Node)}

theorem lines
    {more : Amount → Parse (List Node)}
    (hFirst : Orderly Node.unlocated p p)
    (hMore : ∀ indent,
      Orderly (List.map Node.unlocated) (more indent) (more indent))
    (indent : Amount) :
    Orderly (List.map Node.unlocated)
      (lines p more indent) (lines p more indent) := by
  refine hFirst.bind fun e => current.bind fun t => ?_
  refine ite (pure (List.map Node.unlocated) [e]) ?_
  rw [Token.value_unlocated]
  cases t.value with
  | text s => exact throw _ _
  | amount found =>
      refine ite (pure (List.map Node.unlocated) [e]) (ite ?_ ?_)
      · exact (throw id _).bind fun _ => advance.bind fun _ =>
          (hMore indent).bind fun es =>
            pure (List.map Node.unlocated) (e :: es)
      · exact advance.bind fun _ => (hMore indent).bind fun es =>
          pure (List.map Node.unlocated) (e :: es)

theorem block
    {lines : Amount → Parse (List Node)}
    (hLines : ∀ indent,
      Orderly (List.map Node.unlocated)
        (lines indent) (lines indent)) :
    Orderly Node.unlocated (block lines) (block lines) := by
  refine current.bind fun t => advance.bind fun _ =>
    state.bind fun s => ?_
  rw [Token.value_unlocated]
  cases t.value with
  | text s => exact throw _ _
  | amount indent =>
      -- The check that the block is new comes before all else.
      refine ite ((throw id _).bind fun _ => ?_) ?_
      all_goals
        refine bind (f := List.map Node.unlocated) ?_ fun nodes =>
          (modifyLevel fun level => level.minus levelWidth).bind
            fun _ => ?_
        · exact ite
            ((modifyLevel fun _ => indent).bind fun _ =>
              hLines indent)
            (pure (List.map Node.unlocated) [])
        · rw [← Node.unlocatedAll_eq_map]
          exact pure Node.unlocated (.block nodes)

theorem branch
    (hCondition : Orderly Node.unlocated p p)
    (hBlock : Orderly Node.unlocated q q) :
    Orderly Node.unlocated (branch p q) (branch p q) := by
  refine current.bind fun t => advance.bind fun _ =>
    hCondition.bind fun cond => (expectColon _).bind fun _ =>
      advance.bind fun _ => hBlock.bind fun yes =>
        (atKind _).bind fun _ => ?_
  have hElse :
      Orderly Node.unlocated
        (do
          if ← Parse.atKind .kwElse then
            Parse.advance
            Parse.expectColon "else"
            Parse.advance
            q
          else return .block [])
        (do
          if ← Parse.atKind .kwElse then
            Parse.advance
            Parse.expectColon "else"
            Parse.advance
            q
          else return .block []) :=
    (atKind _).bind fun _ => ite
      (advance.bind fun _ => (expectColon _).bind fun _ =>
        advance.bind fun _ => hBlock)
      (pure Node.unlocated (.block []))
  refine ite (advance.bind fun _ => ?_) ?_
  all_goals
    exact hElse.bind fun no =>
      pure Node.unlocated (.branch cond yes no t.location)

theorem loop
    (hPart : Orderly Node.unlocated p p) :
    Orderly Node.unlocated (loop p) (loop p) := by
  refine advance.bind fun _ => (expectKind _ _).bind fun _ =>
    current.bind fun counter => advance.bind fun _ =>
      (expectOperator _ _).bind fun _ => advance.bind fun _ =>
        hPart.bind fun first => (expectOperator _ _).bind fun _ =>
          advance.bind fun _ => hPart.bind fun last => ?_
  refine bind (f := Node.unlocated) ?_ fun step =>
    (expectKind _ _).bind fun _ => advance.bind fun _ =>
      hPart.bind fun body => ?_
  · exact (atOperator _).bind fun _ =>
      ite (advance.bind fun _ => hPart) (pure Node.unlocated Node.one)
  · exact pure Node.unlocated
      (.loop counter.value first last step (.block [body]))

theorem bindings
    {entries : Parse (List (Value × Node))}
    (hValue : Orderly Node.unlocated p p)
    (hMore : Orderly (List.map unlocatedEntry) entries entries) :
    Orderly (List.map unlocatedEntry)
      (bindings p entries) (bindings p entries) := by
  refine current.bind fun name => advance.bind fun _ => ?_
  refine bind (f := Node.unlocated) ?_ fun value =>
    (atOperator _).bind fun _ => ite ?_ ?_
  · exact (atOperator _).bind fun _ =>
      ite (advance.bind fun _ => hValue)
        (pure Node.unlocated Node.zero)
  · exact advance.bind fun _ => (expectKind _ _).bind fun _ =>
      hMore.bind fun others =>
        pure (List.map unlocatedEntry)
          ((name.value, value) :: others)
  · exact pure (List.map unlocatedEntry) [(name.value, value)]

theorem declaration
    {entries : Parse (List (Value × Node))}
    (hBody : Orderly Node.unlocated p p)
    (hEntries : Orderly (List.map unlocatedEntry) entries entries) :
    Orderly Node.unlocated
      (declaration p entries) (declaration p entries) := by
  refine advance.bind fun _ => (expectKind _ _).bind fun _ =>
    hEntries.bind fun names => (expectKind _ _).bind fun _ =>
      advance.bind fun _ => hBody.bind fun body => ?_
  rw [← Node.unlocatedNamed_eq_map]
  exact pure Node.unlocated (.declare names Node.floatType body)

theorem returned
    (hValue : Orderly Node.unlocated p p) :
    Orderly Node.unlocated (returned p) (returned p) :=
  advance.bind fun _ => hValue.bind fun value =>
    pure Node.unlocated (.ret value)

theorem unknown :
    Orderly Node.unlocated unknown unknown :=
  current.bind fun t => advance.bind fun _ =>
    throw Node.unlocated (.unknownToken t.name)

end Offside.Parse.Orderly

namespace Offside.Parse

open Node (unlocatedEntry)

/- Parts that are orderly, each on its own. -/
structure Parts.AllOrderly
    (parts : Parts) :
    Prop where
  expression : Orderly Node.unlocated parts.expression parts.expression
  arguments :
    Orderly (List.map Node.unlocated) parts.arguments parts.arguments
  bindings :
    Orderly (List.map unlocatedEntry) parts.bindings parts.bindings
  block : Orderly Node.unlocated parts.block parts.block
  primary : Orderly Node.unlocated parts.primary parts.primary

theorem Orderly.primary
    {parts : Parts}
    (hParts : parts.AllOrderly) :
    Orderly Node.unlocated (primary parts) (primary parts) := by
  refine Orderly.current.bind fun t => ?_
  rw [Token.kind_unlocated]
  cases t.kind
  case identifier => exact Orderly.named hParts.arguments
  case floatLiteral => exact Orderly.literal
  case kwIf => exact Orderly.branch hParts.expression hParts.block
  case kwFor => exact Orderly.loop hParts.expression
  case kwVar =>
      exact Orderly.declaration hParts.expression hParts.bindings
  case kwReturn => exact Orderly.returned hParts.expression
  case indent => exact hParts.block
  case operator =>
      exact Orderly.ite (Orderly.parenthesized hParts.expression)
        (Orderly.ite
          (Orderly.advance.bind fun _ => hParts.primary)
          Orderly.unknown)
  all_goals exact Orderly.unknown

end Offside.Parse

------------------------------------------------------------
-- Prototypes and Programs
------------------------------------------------------------

namespace Offside.Parse

variable {p q : Parse Node}

/- Whether a token is an operator does not depend on its place. -/
@[simp] theorem isOperator_unlocated
    (t : Token)
    (operator : String) :
    t.unlocated.isOperator operator = t.isOperator operator :=
  rfl

theorem parametersFrom_unlocated
    (s : ParseState)
    (ts : List Token) :
    parametersFrom s.unlocated (ts.map Token.unlocated) =
      unlocatedResult (List.map Node.unlocated)
        (parametersFrom s ts) := by
  fun_induction parametersFrom s ts with
  | case1 s => rfl
  | case2 s t hName =>
      simp only [List.map, parametersFrom, Token.kind_unlocated,
        hName, if_true]
      rfl
  | case3 s t hOther =>
      simp only [List.map, parametersFrom, Token.kind_unlocated,
        hOther, if_false]
      rfl
  | case4 s t u ts hName hComma nodes s' hMore ih =>
      rw [hMore] at ih
      have ih' :
          parametersFrom { s.unlocated with current := u.unlocated }
              (ts.map Token.unlocated) =
            .ok (nodes.map Node.unlocated) s'.unlocated :=
        ih
      simp only [List.map, parametersFrom, Token.kind_unlocated,
        isOperator_unlocated, hName, hComma, if_true, ih']
      rfl
  | case5 s t u ts hName hComma e s' hMore ih =>
      rw [hMore] at ih
      have ih' :
          parametersFrom { s.unlocated with current := u.unlocated }
              (ts.map Token.unlocated) =
            .error e s'.unlocated :=
        ih
      simp only [List.map, parametersFrom, Token.kind_unlocated,
        isOperator_unlocated, hName, hComma, if_true, ih']
      rfl
  | case6 s t u ts hName hLast =>
      simp only [List.map, parametersFrom, Token.kind_unlocated,
        isOperator_unlocated, hName, hLast, if_true]
      rfl
  | case7 s t u ts hOther =>
      simp only [List.map, parametersFrom, Token.kind_unlocated,
        hOther, if_false]
      rfl

theorem parametersFrom_suffix
    (s : ParseState)
    (ts : List Token) :
    (stateOf (parametersFrom s ts)).tokens <:+ s.current :: ts := by
  fun_induction parametersFrom s ts with
  | case1 s => exact List.suffix_rfl
  | case2 s t hName => exact List.suffix_cons _ _
  | case3 s t hOther => exact List.suffix_cons _ _
  | case4 s t u ts hName hComma nodes s' hMore ih =>
      rw [hMore] at ih
      exact (ih.trans (List.suffix_cons t _)).trans
        (List.suffix_cons _ _)
  | case5 s t u ts hName hComma e s' hMore ih =>
      rw [hMore] at ih
      exact (ih.trans (List.suffix_cons t _)).trans
        (List.suffix_cons _ _)
  | case6 s t u ts hName hLast =>
      exact (List.suffix_cons t (u :: ts)).trans
        (List.suffix_cons _ _)
  | case7 s t u ts hOther => exact List.suffix_cons _ _

namespace Orderly

theorem parameters :
    Orderly (List.map Node.unlocated) parameters parameters where
  unlocated s := parametersFrom_unlocated s s.rest
  suffix s := parametersFrom_suffix s s.rest

theorem externPrototype :
    Orderly Node.unlocated externPrototype externPrototype := by
  refine current.bind fun name => (expectKind _ _).bind fun _ =>
    advance.bind fun _ => (expectOperator _ _).bind fun _ =>
      parameters.bind fun args => (expectOperator _ _).bind fun _ =>
        advance.bind fun _ => ?_
  rw [← Node.unlocatedAll_eq_map]
  exact pure Node.unlocated
    (.prototype name.value Node.floatType args name.location.line)

theorem functionPrototype :
    Orderly Node.unlocated functionPrototype functionPrototype :=
  externPrototype.bind fun proto =>
    (expectOperator _ _).bind fun _ => advance.bind fun _ =>
      pure Node.unlocated proto

theorem function
    (hBlock : Orderly Node.unlocated p p) :
    Orderly Node.unlocated (function p) (function p) :=
  advance.bind fun _ => functionPrototype.bind fun proto =>
    hBlock.bind fun body => pure Node.unlocated (.function proto body)

theorem external :
    Orderly Node.unlocated external external :=
  advance.bind fun _ => externPrototype

theorem items
    {more : Parse (List Node)}
    (hExpression : Orderly Node.unlocated p p)
    (hBlock : Orderly Node.unlocated q q)
    (hMore : Orderly (List.map Node.unlocated) more more) :
    Orderly (List.map Node.unlocated)
      (items p q more) (items p q more) := by
  refine current.bind fun t =>
    ite (pure (List.map Node.unlocated) [])
      (ite (advance.bind fun _ => hMore) ?_)
  refine bind (f := Node.unlocated) ?_ fun item =>
    hMore.bind fun others =>
      pure (List.map Node.unlocated) (item :: others)
  rw [Token.kind_unlocated]
  split
  · exact function hBlock
  · exact external
  · exact hExpression

end Orderly

end Offside.Parse

------------------------------------------------------------
-- The Grammar
------------------------------------------------------------

namespace Offside.Grammar

open Parse (Orderly)
open Node (unlocatedEntry)

/- All productions that are nested in one another, at one allowance. -/
structure AllOrderly
    (table : Precedence)
    (n : Nat) :
    Prop where
  primary : Orderly Node.unlocated (primary table n) (primary table n)
  unary : Orderly Node.unlocated (unary table n) (unary table n)
  binaryRest : ∀ least lhs,
    Orderly Node.unlocated
      (binaryRest table n least lhs)
      (binaryRest table n least lhs.unlocated)
  expression :
    Orderly Node.unlocated (expression table n) (expression table n)
  arguments :
    Orderly (List.map Node.unlocated)
      (arguments table n) (arguments table n)
  bindings :
    Orderly (List.map unlocatedEntry)
      (bindings table n) (bindings table n)
  lines : ∀ indent,
    Orderly (List.map Node.unlocated)
      (lines table n indent) (lines table n indent)
  block : Orderly Node.unlocated (block table n) (block table n)

/-
  Every production is orderly.  The induction is on the
  allowance, because each production is given parts of the one
  below.
-/
theorem orderly
    (table : Precedence)
    (n : Nat) :
    AllOrderly table n := by
  induction n with
  | zero =>
      constructor
      case binaryRest => exact fun _ _ => Orderly.throw _ _
      case lines => exact fun _ => Orderly.throw _ _
      all_goals exact Orderly.throw _ _
  | succ n ih =>
      constructor
      case primary =>
        exact Orderly.primary
          ⟨ih.expression, ih.arguments, ih.bindings, ih.block,
            ih.primary⟩
      case unary => exact Orderly.unary ih.primary ih.unary
      case binaryRest =>
        exact Orderly.binaryRest table ih.unary ih.binaryRest
      case expression =>
        exact Orderly.expression ih.unary ih.binaryRest
      case arguments =>
        exact Orderly.arguments ih.expression ih.arguments
      case bindings =>
        exact Orderly.bindings ih.expression ih.bindings
      case lines => exact Orderly.lines ih.expression ih.lines
      case block => exact Orderly.block ih.lines

theorem orderly_items
    (table : Precedence)
    (n : Nat) :
    Orderly (List.map Node.unlocated)
      (items table n) (items table n) := by
  induction n with
  | zero => exact Orderly.throw _ _
  | succ n ih =>
      exact Orderly.items (orderly table n).expression
        (orderly table n).block ih

end Offside.Grammar

------------------------------------------------------------
-- Lifting
------------------------------------------------------------

namespace Offside.Parse.Orderly

variable {α : Type}
variable {f : α → α}
variable {p : Parse α}

/-
  A run on tokens without locations that stops at `t` tells how
  the run with locations ends: with the same result up to
  locations, and before the same tokens.
-/
theorem lift
    (hOrderly : Orderly f p p)
    {consumed rest : List Token}
    {t : Token}
    {level level' : Amount}
    {a : α}
    (hRun :
      p (.before level
          ((consumed ++ t :: rest).map Token.unlocated)) =
        .ok a ⟨t.unlocated, rest.map Token.unlocated, level'⟩) :
    ∃ b, f b = a ∧
      p (.before level (consumed ++ t :: rest)) =
        .ok b ⟨t, rest, level'⟩ := by
  have hSame :=
    hOrderly.unlocated (.before level (consumed ++ t :: rest))
  have hSuffix :=
    hOrderly.suffix (.before level (consumed ++ t :: rest))
  rw [ParseState.unlocated_before, hRun] at hSame
  rw [ParseState.tokens_before (by simp)] at hSuffix
  cases hResult : p (.before level (consumed ++ t :: rest)) with
  | error e s =>
      rw [hResult] at hSame
      simp [unlocatedResult] at hSame
  | ok b s =>
      rw [hResult] at hSame hSuffix
      injection hSame with hValue hState
      refine ⟨b, hValue.symm, ?_⟩
      have hLength : s.rest.length = rest.length := by
        have hRest := congrArg ParseState.rest hState
        simpa [ParseState.unlocated] using
          (congrArg List.length hRest).symm
      have hLevel : s.level = level' :=
        (congrArg ParseState.level hState).symm
      -- Two suffixes of the same length are the same.
      have hTokens : s.tokens = t :: rest := by
        refine (List.suffix_of_suffix_length_le hSuffix
          (List.suffix_append consumed (t :: rest)) ?_).eq_of_length ?_
        all_goals simp [stateOf, ParseState.tokens, hLength]
      rw [← ParseState.before_tokens s, hTokens, hLevel]
      rfl

end Offside.Parse.Orderly
