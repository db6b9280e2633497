import Mathlib
import Offside.Parser.Basic
import Offside.Proofs.Parser.Location

/-
  The shape of what is parsed: a property of nodes that the
  forms of the language have when their parts do holds of every
  expression that any tokens are parsed to.

  Key definitions include:
    * `Offside.Parse.Gives`
    * `Offside.Precedence.Shapes`
    * `Offside.Node.IsSignature`
    * `Offside.Node.IsItem`

  Main statements:
    * `Offside.Grammar.gives`: the grammar gives only nodes with
      such a property.
    * `Offside.Parser.parse_isItem`: what the items of a program
      are.
    * `Offside.Grammar.form_gives`: a form on its own is one too.
-/

------------------------------------------------------------
-- What a Parser Gives
------------------------------------------------------------

namespace Offside.Parse

variable {α β : Type}

/- Where the step succeeds, its result has the property. -/
def Gives
    (P : α → Prop)
    (p : Parse α) :
    Prop :=
  ∀ s a t, p s = .ok a t → P a

namespace Gives

variable {P : α → Prop}
variable {Q : β → Prop}

theorem pure
    {a : α}
    (hResult : P a) :
    Gives P (Pure.pure a) := by
  intro s b t hRun
  cases hRun
  exact hResult

theorem throw
    (e : ParseError) :
    Gives P (MonadExcept.throw e) := by
  intro s a t hRun
  cases hRun

theorem bind
    {p : Parse α}
    {k : α → Parse β}
    (hStep : Gives P p)
    (hNext : ∀ a, P a → Gives Q (k a)) :
    Gives Q (p >>= k) := by
  intro s b u hRun
  rcases Steps.bind_eq_ok hRun with ⟨a, t, hFirst, hSecond⟩
  exact hNext a (hStep s a t hFirst) t b u hSecond

theorem mono
    {Q : α → Prop}
    {p : Parse α}
    (hStep : Gives P p)
    (hMore : ∀ a, P a → Q a) :
    Gives Q p :=
  fun s a t hRun => hMore a (hStep s a t hRun)

/- Nothing is asked of the first of two steps. -/
theorem after
    {p : Parse α}
    {k : α → Parse β}
    (hNext : ∀ a, Gives Q (k a)) :
    Gives Q (p >>= k) := by
  intro s b u hRun
  rcases Steps.bind_eq_ok hRun with ⟨a, t, _, hSecond⟩
  exact hNext a t b u hSecond

theorem ite
    {c : Prop}
    [Decidable c]
    {p q : Parse α}
    (hYes : c → Gives P p)
    (hNo : ¬c → Gives P q) :
    Gives P (if c then p else q) := by
  split
  · rename_i hCond
    exact hYes hCond
  · rename_i hCond
    exact hNo hCond

end Gives

end Offside.Parse

------------------------------------------------------------
-- Shapes
------------------------------------------------------------

namespace Offside

/-
  A property of expressions and one of blocks that hold of each
  form of the language when they hold of its parts.  A block is
  an expression too.
-/
structure Precedence.Shapes
    (table : Precedence)
    (P B : Node → Prop) :
    Prop where
  float : ∀ value, P (.float value)
  reference :
    ∀ name location, P (.reference name Node.floatType location)
  unary :
    ∀ {op operand}, op ≠ .text "(" → op ≠ .text "," → P operand →
      P (.unary op operand)
  binary :
    ∀ {op lhs rhs} location, 0 ≤ table.of op → P lhs → P rhs →
      P (.binary op lhs rhs location)
  call :
    ∀ callee {args} location, (∀ arg ∈ args, P arg) →
      P (.call callee args location)
  branch :
    ∀ {cond yes no} location, P cond → B yes → B no →
      P (.branch cond yes no location)
  loop :
    ∀ counter {first last step body}, P first → P last → P step →
      P body → P (.loop counter first last step (.block [body]))
  declare :
    ∀ {names body}, names ≠ [] → (∀ entry ∈ names, P entry.2) →
      P body → P (.declare names Node.floatType body)
  ret : ∀ {value}, P value → P (.ret value)
  block : ∀ {nodes}, (∀ node ∈ nodes, P node) → B (.block nodes)
  inner : ∀ {node}, B node → P node

namespace Parse.Gives

variable {table : Precedence}
variable {P B : Node → Prop}
variable (hShapes : table.Shapes P B)
variable {p q : Parse Node}
variable {ps : Parse (List Node)}
variable {entries : Parse (List (Value × Node))}

include hShapes

theorem literal :
    Gives P literal :=
  after fun _ => after fun _ => pure (hShapes.float _)

omit hShapes in
theorem parenthesized
    (hInner : Gives P p) :
    Gives P (parenthesized p) :=
  after fun _ => hInner.bind fun _ hExpression =>
    after fun _ => after fun _ => pure hExpression

omit hShapes in
theorem arguments
    (hArgument : Gives P p)
    (hMore : Gives (fun es => ∀ e ∈ es, P e) ps) :
    Gives (fun es => ∀ e ∈ es, P e) (arguments p ps) := by
  refine hArgument.bind fun e hExpression => after fun _ =>
    ite (fun _ => pure (by simpa using hExpression)) fun _ => ?_
  refine after fun _ => after fun _ => hMore.bind fun es hOthers => ?_
  exact pure (List.forall_mem_cons.mpr ⟨hExpression, hOthers⟩)

theorem named
    (hArguments : Gives (fun es => ∀ e ∈ es, P e) ps) :
    Gives P (named ps) := by
  refine after fun t => after fun _ => after fun atParenthesis =>
    ite (fun _ => ?_) fun _ => pure (hShapes.reference _ _)
  refine after fun _ => bind (P := fun es => ∀ e ∈ es, P e) ?_
    fun es hAll => after fun _ => pure (hShapes.call _ _ hAll)
  exact after fun _ => ite (fun _ => pure (List.forall_mem_nil _))
    fun _ => hArguments

theorem unary
    (hPrimary : Gives P p)
    (hOperand : Gives P q) :
    Gives P (unary p q) := by
  refine after fun t => ite (fun _ => hPrimary) fun hOperator => ?_
  refine after fun _ => hOperand.bind fun e hExpression => ?_
  rw [not_or, not_or, not_not] at hOperator
  rcases hOperator with ⟨hKind, hOpening, hComma⟩
  refine pure (hShapes.unary ?_ ?_ hExpression)
  · intro hValue
    exact hOpening (by simp [Token.isOperator, hKind, hValue])
  · intro hValue
    exact hComma (by simp [Token.isOperator, hKind, hValue])

theorem binaryRest
    (hUnary : Gives P p)
    {rest : Int → Node → Parse Node}
    (hRest : ∀ least lhs, 0 ≤ least → P lhs → Gives P (rest least lhs))
    {least : Int}
    {lhs : Node}
    (hLeast : 0 ≤ least)
    (hLhs : P lhs) :
    Gives P (binaryRest table p rest least lhs) := by
  refine after fun op => ite (fun _ => pure hLhs) fun hBinds => ?_
  have hOp : 0 ≤ table.of op.value := by omega
  refine after fun _ => hUnary.bind fun operand hOperand => ?_
  refine bind (P := P) ?_ fun rhs hRhs =>
    hRest _ _ hLeast (hShapes.binary _ hOp hLhs hRhs)
  exact after fun _ => ite
    (fun _ => hRest _ _ (by omega) hOperand) fun _ => pure hOperand

omit hShapes in
theorem expression
    (hUnary : Gives P p)
    {rest : Int → Node → Parse Node}
    (hRest : ∀ least lhs, 0 ≤ least → P lhs →
      Gives P (rest least lhs)) :
    Gives P (expression p rest) :=
  hUnary.bind fun lhs hLhs => hRest 0 lhs (Int.le_refl 0) hLhs

omit hShapes in
theorem lines
    (hLine : Gives P p)
    {more : Amount → Parse (List Node)}
    (hMore : ∀ indent, Gives (fun es => ∀ e ∈ es, P e) (more indent))
    (indent : Amount) :
    Gives (fun es => ∀ e ∈ es, P e) (lines p more indent) := by
  refine hLine.bind fun e hExpression => after fun t => ?_
  have hOne : ∀ e' ∈ [e], P e' := by
    simpa using hExpression
  refine ite (fun _ => pure hOne) fun _ => ?_
  cases t.value with
  | text s => exact throw _
  | amount found =>
      refine ite (fun _ => pure hOne) fun _ => ?_
      have hNext : Gives (fun es => ∀ e ∈ es, P e) (do
          advance
          let es ← more indent
          return e :: es) :=
        after fun _ => (hMore indent).bind fun es hOthers =>
          pure (List.forall_mem_cons.mpr ⟨hExpression, hOthers⟩)
      exact ite (fun _ => after fun _ => hNext) fun _ => hNext

theorem block
    {lines : Amount → Parse (List Node)}
    (hLines : ∀ indent, Gives (fun es => ∀ e ∈ es, P e) (lines indent)) :
    Gives B (block lines) := by
  refine after fun t => after fun _ => after fun s => ?_
  cases t.value with
  | text s => exact throw _
  | amount indent =>
      have hNodes : Gives B (do
          let nodes ← (do
            if s.level.less indent then
              setLevel indent
              lines indent
            else return [])
          modify fun s => { s with level := s.level.minus levelWidth }
          return .block nodes) := by
        refine bind (P := fun es => ∀ e ∈ es, P e) ?_
          fun nodes hAll => after fun _ => pure (hShapes.block hAll)
        exact ite (fun _ => after fun _ => hLines indent)
          fun _ => pure (List.forall_mem_nil _)
      exact ite (fun _ => after fun _ => hNodes) fun _ => hNodes

theorem branch
    (hCondition : Gives P p)
    (hBlock : Gives B q) :
    Gives P (branch p q) := by
  refine after fun t => after fun _ => hCondition.bind
    fun cond hCond => after fun _ => after fun _ => hBlock.bind
      fun yes hYes => after fun indented => ?_
  have hElse : Gives P (do
      let no ← (do
        if ← atKind .kwElse then
          advance
          expectColon "else"
          advance
          q
        else return .block [])
      return .branch cond yes no t.location) := by
    refine bind (P := B) ?_ fun no hNo =>
      pure (hShapes.branch _ hCond hYes hNo)
    exact after fun _ => ite
      (fun _ => after fun _ => after fun _ => after fun _ => hBlock)
      fun _ => pure (hShapes.block (List.forall_mem_nil _))
  exact ite (fun _ => after fun _ => hElse) fun _ => hElse

theorem loop
    (hPart : Gives P p) :
    Gives P (loop p) := by
  refine after fun _ => after fun _ => after fun counter =>
    after fun _ => after fun _ => after fun _ => hPart.bind
      fun first hFirst => after fun _ => after fun _ => hPart.bind
        fun last hLast => bind (P := P) ?_ fun step hStep => ?_
  · exact after fun _ => ite (fun _ => after fun _ => hPart)
      fun _ => pure (hShapes.float _)
  · exact after fun _ => after fun _ => hPart.bind fun body hBody =>
      pure (hShapes.loop _ hFirst hLast hStep hBody)

theorem bindings
    (hValue : Gives P p)
    (hMore :
      Gives (fun names => names ≠ [] ∧ ∀ entry ∈ names, P entry.2)
        entries) :
    Gives (fun names => names ≠ [] ∧ ∀ entry ∈ names, P entry.2)
      (bindings p entries) := by
  refine after fun name => after fun _ => bind (P := P) ?_
    fun value hValue => after fun atComma => ite (fun _ => ?_) fun _ => ?_
  · exact after fun _ => ite (fun _ => after fun _ => hValue)
      fun _ => pure (hShapes.float _)
  · exact after fun _ => after fun _ => hMore.bind
      fun others hOthers => pure ⟨List.cons_ne_nil _ _,
        List.forall_mem_cons.mpr ⟨hValue, hOthers.2⟩⟩
  · exact pure ⟨List.cons_ne_nil _ _, by simpa using hValue⟩

theorem declaration
    (hBody : Gives P p)
    (hEntries :
      Gives (fun names => names ≠ [] ∧ ∀ entry ∈ names, P entry.2)
        entries) :
    Gives P (declaration p entries) :=
  after fun _ => after fun _ => hEntries.bind fun _ hNames =>
    after fun _ => after fun _ => hBody.bind fun _ hBody =>
      pure (hShapes.declare hNames.1 hNames.2 hBody)

theorem returned
    (hValue : Gives P p) :
    Gives P (returned p) :=
  after fun _ => hValue.bind fun _ hValue =>
    pure (hShapes.ret hValue)

omit hShapes in
theorem unknown :
    Gives P unknown :=
  after fun _ => after fun _ => throw _

/- A primary expression, by its first token. -/
theorem primary
    {parts : Parts}
    (hExpression : Gives P parts.expression)
    (hArguments : Gives (fun es => ∀ e ∈ es, P e) parts.arguments)
    (hEntries :
      Gives (fun names => names ≠ [] ∧ ∀ entry ∈ names, P entry.2)
        parts.bindings)
    (hBlock : Gives B parts.block)
    (hPrimary : Gives P parts.primary) :
    Gives P (primary parts) := by
  refine after fun t => ?_
  cases t.kind
  case identifier => exact named hShapes hArguments
  case floatLiteral => exact literal hShapes
  case kwIf => exact branch hShapes hExpression hBlock
  case kwFor => exact loop hShapes hExpression
  case kwVar => exact declaration hShapes hExpression hEntries
  case kwReturn => exact returned hShapes hExpression
  case indent =>
      intro s node t hRun
      exact hShapes.inner (hBlock s node t hRun)
  case operator =>
      exact ite (fun _ => parenthesized hExpression) fun _ =>
        ite (fun _ => after fun _ => hPrimary) fun _ => unknown
  all_goals exact unknown

end Parse.Gives

end Offside

------------------------------------------------------------
-- The Grammar
------------------------------------------------------------

namespace Offside.Grammar

open Parse (Gives)

variable {table : Precedence}
variable {P B : Node → Prop}

/- What the productions give, at one allowance. -/
structure AllGive
    (table : Precedence)
    (P B : Node → Prop)
    (n : Nat) :
    Prop where
  primary : Gives P (primary table n)
  unary : Gives P (unary table n)
  binaryRest :
    ∀ least lhs, 0 ≤ least → P lhs →
      Gives P (binaryRest table n least lhs)
  expression : Gives P (expression table n)
  arguments : Gives (fun es => ∀ e ∈ es, P e) (arguments table n)
  bindings :
    Gives (fun names => names ≠ [] ∧ ∀ entry ∈ names, P entry.2)
      (bindings table n)
  lines : ∀ indent, Gives (fun es => ∀ e ∈ es, P e) (lines table n indent)
  block : Gives B (block table n)

/- The grammar gives only nodes of the shapes. -/
theorem gives
    (hShapes : table.Shapes P B)
    (n : Nat) :
    AllGive table P B n := by
  induction n with
  | zero =>
      constructor
      case binaryRest => exact fun _ _ _ _ => Gives.throw _
      case lines => exact fun _ => Gives.throw _
      all_goals exact Gives.throw _
  | succ n ih =>
      constructor
      case primary =>
        exact Gives.primary hShapes ih.expression ih.arguments
          ih.bindings ih.block ih.primary
      case unary => exact Gives.unary hShapes ih.primary ih.unary
      case binaryRest =>
        exact fun least lhs hLeast hLhs =>
          Gives.binaryRest hShapes ih.unary ih.binaryRest hLeast hLhs
      case expression => exact Gives.expression ih.unary ih.binaryRest
      case arguments => exact Gives.arguments ih.expression ih.arguments
      case bindings =>
        exact Gives.bindings hShapes ih.expression ih.bindings
      case lines =>
        exact fun indent => Gives.lines ih.expression ih.lines indent
      case block => exact Gives.block hShapes ih.lines

end Offside.Grammar

------------------------------------------------------------
-- Items
------------------------------------------------------------

namespace Offside

/- A name and parameters, which are variables. -/
def Node.IsSignature
    (node : Node) :
    Prop :=
  ∃ name args line,
    node = .prototype name Node.floatType args line ∧
    ∀ arg ∈ args,
      ∃ param location, arg = .reference param Node.floatType location

/- An item of a program: a function, a prototype or an expression. -/
def Node.IsItem
    (P B : Node → Prop)
    (node : Node) :
    Prop :=
  (∃ proto body,
    node = .function proto body ∧ proto.IsSignature ∧ B body) ∨
  node.IsSignature ∨
  P node

namespace Parse.Gives

theorem parametersFrom
    {s t : ParseState}
    {ts : List Token}
    {args : List Node}
    (hRun : parametersFrom s ts = .ok args t) :
    ∀ arg ∈ args, ∃ param location,
      arg = .reference param Node.floatType location := by
  fun_induction Parse.parametersFrom s ts generalizing args t with
  | case4 s t u ts _ _ nodes s' hMore ih =>
      cases hRun
      exact List.forall_mem_cons.mpr ⟨⟨_, _, rfl⟩, ih hMore⟩
  | case6 =>
      cases hRun
      simp [variableOf]
  | case3 | case7 =>
      cases hRun
      exact List.forall_mem_nil _
  | case1 | case2 | case5 => cases hRun

theorem parameters :
    Gives (fun args => ∀ arg ∈ args, ∃ param location,
      arg = .reference param Node.floatType location) parameters :=
  fun _ _ _ hRun => parametersFrom hRun

theorem externPrototype :
    Gives Node.IsSignature externPrototype := by
  refine after fun name => after fun _ => after fun _ =>
    after fun _ => parameters.bind fun args hArgs =>
      after fun _ => after fun _ => pure ?_
  exact ⟨_, args, _, rfl, hArgs⟩

theorem functionPrototype :
    Gives Node.IsSignature functionPrototype :=
  externPrototype.bind fun _ hProto =>
    after fun _ => after fun _ => pure hProto

theorem function
    {P B : Node → Prop}
    {p : Parse Node}
    (hBlock : Gives B p) :
    Gives (Node.IsItem P B) (function p) :=
  after fun _ => functionPrototype.bind fun proto hProto =>
    hBlock.bind fun body hBody =>
      pure (.inl ⟨proto, body, rfl, hProto, hBody⟩)

theorem external
    {P B : Node → Prop} :
    Gives (Node.IsItem P B) external :=
  after fun _ => externPrototype.mono fun _ hProto => .inr (.inl hProto)

end Parse.Gives

namespace Grammar

open Parse (Gives)

variable {table : Precedence}
variable {P B : Node → Prop}

theorem items_gives
    (hShapes : table.Shapes P B)
    (n : Nat) :
    Gives (fun items => ∀ item ∈ items, item.IsItem P B)
      (items table n) := by
  induction n with
  | zero => exact Gives.throw _
  | succ n ih =>
      have hAll := gives hShapes n
      refine Gives.after fun t => Gives.ite
        (fun _ => Gives.pure (List.forall_mem_nil _)) fun _ => ?_
      refine Gives.ite (fun _ => Gives.after fun _ => ih) fun _ => ?_
      refine Gives.bind (P := Node.IsItem P B) ?_ fun item hItem =>
        ih.bind fun others hOthers =>
          Gives.pure (List.forall_mem_cons.mpr ⟨hItem, hOthers⟩)
      split
      · exact Gives.function hAll.block
      · exact Gives.external
      · exact hAll.expression.mono fun _ hNode => .inr (.inr hNode)

/- Every form on its own is an item. -/
theorem form_gives
    (hShapes : table.Shapes P B)
    (form : Form)
    (n : Nat) :
    Gives (Node.IsItem P B) (form.production table n) := by
  have hAll := gives hShapes n
  have hItem : ∀ {p : Parse Node}, Gives P p →
      Gives (Node.IsItem P B) p :=
    fun hNode => hNode.mono fun _ hNode => .inr (.inr hNode)
  have hSigned : ∀ {p : Parse Node}, Gives Node.IsSignature p →
      Gives (Node.IsItem P B) p :=
    fun hProto => hProto.mono fun _ hProto => .inr (.inl hProto)
  cases form with
  | function => exact Gives.function hAll.block
  | external => exact Gives.external
  | primary => exact hItem hAll.primary
  | block => exact hItem (hAll.block.mono fun _ => hShapes.inner)
  | expression => exact hItem hAll.expression
  | branch => exact hItem (Gives.branch hShapes hAll.expression hAll.block)
  | literal => exact hItem (Gives.literal hShapes)
  | parenthesized => exact hItem (Gives.parenthesized hAll.expression)
  | named => exact hItem (Gives.named hShapes hAll.arguments)
  | loop => exact hItem (Gives.loop hShapes hAll.expression)
  | declaration =>
      exact hItem
        (Gives.declaration hShapes hAll.expression hAll.bindings)
  | unary => exact hItem hAll.unary
  | functionPrototype => exact hSigned Gives.functionPrototype
  | externPrototype => exact hSigned Gives.externPrototype
  | returned => exact hItem (Gives.returned hShapes hAll.expression)

end Grammar

namespace Parser

variable {P B : Node → Prop}

theorem run_gives
    {α : Type}
    {Q : α → Prop}
    {p p' : Parser}
    {step : Parse α}
    {a : α}
    (hStep : Parse.Gives Q step)
    (hRun : p.run step = (.ok a, p')) :
    Q a := by
  unfold run at hRun
  split at hRun
  · rename_i b s hOk
    cases hRun
    exact hStep _ _ _ hOk
  · cases hRun

theorem program_gives
    {table : Precedence}
    (hShapes : table.Shapes P B)
    (name : String) :
    Parse.Gives
      (fun node => ∃ items,
        node = .program name items ∧ ∀ item ∈ items, item.IsItem P B)
      (program table name) := by
  have hItems : Parse.Gives
      (fun items => ∀ item ∈ items, item.IsItem P B)
      (Grammar.run (Grammar.items table)) :=
    fun s => Grammar.items_gives hShapes _ s
  have hRest : Parse.Gives
      (fun node : Node => ∃ items,
        node = .program name items ∧ ∀ item ∈ items, item.IsItem P B)
      (do
        let nodes ← Grammar.run (Grammar.items table)
        return Node.program name nodes) :=
    hItems.bind fun nodes hNodes => .pure ⟨nodes, rfl, hNodes⟩
  exact .after fun _ => .after fun _ =>
    .ite (fun _ => .after fun _ => hRest) fun _ => hRest

/- What the items of a parsed program are. -/
theorem parse_isItem
    {p p' : Parser}
    (hShapes : p.table.Shapes P B)
    {tokens : TokenList}
    {name name' : String}
    {items : List Node}
    (hParse : p.parse tokens name = (.ok (.program name' items), p')) :
    ∀ item ∈ items, item.IsItem P B := by
  rcases run_gives (program_gives hShapes name) hParse with
    ⟨items', hProgram, hItems⟩
  cases hProgram
  exact hItems

end Parser

end Offside
