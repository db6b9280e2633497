import Mathlib
import Offside.Proofs.Parser.Step
import Offside.Proofs.Token.Cut
import Offside.Proofs.Token.Parentheses

/-
  Parentheses in programs: how many are open along the tokens
  that are parsed, and which programs are accepted although
  theirs are not balanced.

  Key definitions include:
    * `Offside.Node.strays`
    * `Offside.Parse.Tracks`
    * `Offside.Parse.Falls`

  Main statements:
    * `Offside.Grammar.falls`: an expression closes as many
      parentheses more than it opens as it has closing ones for
      operators.
    * `Offside.Parser.parse_balanced_iff`: the parentheses of a
      parsed program are balanced if and only if none is an
      operator in it.
-/

------------------------------------------------------------
-- Stray Parentheses
------------------------------------------------------------

namespace Offside.Node

/- Whether a node is an operand with a closing parenthesis before it. -/
def isStray :
    Node →
    Bool
  | unary op _ => op = .text ")"
  | _ => false

/- How many of these there are in a tree. -/
def strays
    (node : Node) :
    Nat :=
  node.preorder.countP isStray

def straysAll
    (nodes : List Node) :
    Nat :=
  (preorderAll nodes).countP isStray

def straysNamed
    (names : List (Value × Node)) :
    Nat :=
  (preorderNamed names).countP isStray

theorem strays_eq_zero_iff
    (node : Node) :
    node.strays = 0 ↔
      ∀ inner ∈ node.preorder, ∀ operand,
        inner ≠ .unary (.text ")") operand := by
  rw [strays, List.countP_eq_zero]
  constructor
  · rintro hNone inner hMem operand rfl
    exact hNone _ hMem rfl
  · intro hNone inner hMem hStray
    unfold isStray at hStray
    split at hStray
    · rename_i op operand
      exact hNone _ hMem operand (by rw [of_decide_eq_true hStray])
    · cases hStray

/- Each form below is counted by opening its traversal. -/
attribute [local simp] preorder preorderAll preorderNamed

@[simp] theorem straysAll_nil :
    straysAll [] = 0 :=
  rfl

@[simp] theorem straysAll_cons
    (node : Node)
    (nodes : List Node) :
    straysAll (node :: nodes) = straysAll nodes + node.strays := by
  simp [straysAll, strays, Nat.add_comm]

@[simp] theorem straysNamed_nil :
    straysNamed [] = 0 :=
  rfl

@[simp] theorem straysNamed_cons
    (name : Value)
    (node : Node)
    (names : List (Value × Node)) :
    straysNamed ((name, node) :: names) =
      straysNamed names + node.strays := by
  simp [straysNamed, strays, Nat.add_comm]

section Forms

variable (node lhs rhs first last step body : Node)
variable (nodes : List Node)
variable (names : List (Value × Node))

@[simp] theorem strays_float
    (value : Value) :
    (float value).strays = 0 :=
  rfl

@[simp] theorem strays_reference
    (name : Value)
    (type : String)
    (location : Location) :
    (reference name type location).strays = 0 :=
  rfl

@[simp] theorem strays_unary
    (op : Value) :
    (unary op node).strays =
      node.strays + (unary op node).isStray.toNat := by
  cases hStray : (unary op node).isStray <;>
    simp [strays, hStray]

@[simp] theorem strays_binary
    (op : Value)
    (location : Location) :
    (binary op lhs rhs location).strays = rhs.strays + lhs.strays := by
  simp [strays, isStray, Nat.add_comm]

@[simp] theorem strays_call
    (callee : Value)
    (location : Location) :
    (call callee nodes location).strays = straysAll nodes := by
  simp [strays, straysAll, isStray]

@[simp] theorem strays_branch
    (location : Location) :
    (branch node lhs rhs location).strays =
      rhs.strays + lhs.strays + node.strays := by
  simp only [strays, preorder, isStray, List.countP_append,
    List.countP_cons]
  simp
  omega

@[simp] theorem strays_loop
    (counter : Value) :
    (loop counter first last step body).strays =
      body.strays + step.strays + last.strays + first.strays := by
  simp only [strays, preorder, isStray, List.countP_append,
    List.countP_cons]
  simp
  omega

@[simp] theorem strays_declare
    (type : String) :
    (declare names type body).strays =
      body.strays + straysNamed names := by
  simp [strays, straysNamed, isStray, Nat.add_comm]

@[simp] theorem strays_prototype
    (name : Value)
    (type : String)
    (line : Nat) :
    (prototype name type nodes line).strays = straysAll nodes := by
  simp [strays, straysAll, isStray]

@[simp] theorem strays_function :
    (function node body).strays = body.strays + node.strays := by
  simp [strays, isStray, Nat.add_comm]

@[simp] theorem strays_program
    (name : String) :
    (program name nodes).strays = straysAll nodes := by
  simp [strays, straysAll, isStray]

@[simp] theorem strays_ret :
    (ret node).strays = node.strays := by
  simp [strays, isStray]

@[simp] theorem strays_block :
    (block nodes).strays = straysAll nodes := by
  simp [strays, straysAll, isStray]

end Forms

end Offside.Node

------------------------------------------------------------
-- Tracking a Step
------------------------------------------------------------

namespace Offside.Parse

open Token (openNext openAfter)

variable {α β : Type}

/-
  What a step that succeeds has to do with parentheses: the
  relation holds of its result, of how many are open after the
  tokens that it has taken, by how many were open before, and of
  the token it has come to from the token `c`.
-/
def Tracks
    (Q : α → (Nat → Option Nat) → Token → Prop)
    (c : Token)
    (p : Parse α) :
    Prop :=
  ∀ s a t, s.current = c → p s = .ok a t →
    ∃ taken,
      s.tokens = taken ++ t.tokens ∧
      Q a (fun n => openAfter n taken) t.current

namespace Tracks

variable {P : α → (Nat → Option Nat) → Token → Prop}
variable {Q : β → (Nat → Option Nat) → Token → Prop}
variable {c : Token}
variable {p : Parse α}

theorem mono
    {Q : α → (Nat → Option Nat) → Token → Prop}
    (hStep : Tracks P c p)
    (hMore : ∀ a f d, P a f d → Q a f d) :
    Tracks Q c p := by
  intro s a t hCurrent hRun
  rcases hStep s a t hCurrent hRun with ⟨taken, hTokens, hHolds⟩
  exact ⟨taken, hTokens, hMore _ _ _ hHolds⟩

theorem pure
    {a : α}
    (hHolds : P a some c) :
    Tracks P c (Pure.pure a) := by
  rintro s b t rfl hRun
  cases hRun
  exact ⟨[], rfl, hHolds⟩

theorem throw
    (e : ParseError) :
    Tracks P c (MonadExcept.throw e) := by
  intro s a t _ hRun
  cases hRun

theorem ite
    {condition : Prop}
    [Decidable condition]
    {q : Parse α}
    (hYes : condition → Tracks P c p)
    (hNo : ¬condition → Tracks P c q) :
    Tracks P c (if condition then p else q) := by
  split
  · rename_i hCond
    exact hYes hCond
  · rename_i hCond
    exact hNo hCond

/- What the second step starts with is what the first one leaves. -/
theorem bind
    {k : α → Parse β}
    (hStep : Tracks P c p)
    (hNext : ∀ a f d, P a f d →
      Tracks (fun b g => Q b fun n => (f n).bind g) d (k a)) :
    Tracks Q c (p >>= k) := by
  intro s b u hCurrent hRun
  rcases Steps.bind_eq_ok hRun with ⟨a, t, hFirst, hSecond⟩
  rcases hStep s a t hCurrent hFirst with ⟨taken, hTokens, hHolds⟩
  rcases hNext a _ _ hHolds t b u rfl hSecond with
    ⟨more, hMore, hBoth⟩
  refine ⟨taken ++ more, ?_, ?_⟩
  · rw [hTokens, hMore, List.append_assoc]
  · simpa only [Token.openAfter_append] using hBoth

/- A step that looks at the current token. -/
theorem look
    {a : α}
    {k : α → Parse β}
    (hLook : ∀ s, s.current = c → p s = .ok a s)
    (hNext : Tracks Q c (k a)) :
    Tracks Q c (p >>= k) := by
  intro s b u hCurrent hRun
  rw [Steps.bind_ok (hLook s hCurrent)] at hRun
  exact hNext s b u hCurrent hRun

variable {k : Unit → Parse β}

theorem current
    {k : Token → Parse β}
    (hNext : Tracks Q c (k c)) :
    Tracks Q c (Parse.current >>= k) := by
  apply look _ hNext
  rintro s rfl
  rfl

theorem atOperator
    {operator : String}
    {k : Bool → Parse β}
    (hNext : Tracks Q c (k (c.isOperator operator))) :
    Tracks Q c (Parse.atOperator operator >>= k) := by
  apply look _ hNext
  rintro s rfl
  rfl

theorem atKind
    {kind : Kind}
    {k : Bool → Parse β}
    (hNext : Tracks Q c (k (c.kind = kind))) :
    Tracks Q c (Parse.atKind kind >>= k) := by
  apply look _ hNext
  rintro s rfl
  rfl

theorem expectOperator
    {operator : String}
    {what : Expectation}
    (hNext : c.isOperator operator = true → Tracks Q c (k ())) :
    Tracks Q c (Parse.expectOperator operator what >>= k) := by
  rintro s b u rfl hRun
  rcases Steps.bind_eq_ok hRun with ⟨_, t, hFirst, hSecond⟩
  rcases expectOperator_eq_ok hFirst with ⟨hOperator, rfl⟩
  exact hNext hOperator t b u rfl hSecond

theorem expectKind
    {kind : Kind}
    {what : Expectation}
    (hNext : c.kind = kind → Tracks Q c (k ())) :
    Tracks Q c (Parse.expectKind kind what >>= k) := by
  rintro s b u rfl hRun
  rcases Steps.bind_eq_ok hRun with ⟨_, t, hFirst, hSecond⟩
  rcases expectKind_eq_ok hFirst with ⟨hKind, rfl⟩
  exact hNext hKind t b u rfl hSecond

theorem expectColon
    {keyword : String}
    (hNext : c.isOperator ":" = true → Tracks Q c (k ())) :
    Tracks Q c (Parse.expectColon keyword >>= k) := by
  rintro s b u rfl hRun
  rcases Steps.bind_eq_ok hRun with ⟨_, t, hFirst, hSecond⟩
  rcases expectColon_eq_ok hFirst with ⟨hColon, rfl⟩
  exact hNext hColon t b u rfl hSecond

theorem state
    {k : ParseState → Parse β}
    (hNext : ∀ s, Tracks Q c (k s)) :
    Tracks Q c (get >>= k) := by
  intro s b u hCurrent hRun
  rw [Steps.bind_ok (Steps.get_apply s)] at hRun
  exact hNext s s b u hCurrent hRun

theorem modifyLevel
    (change : Amount → Amount)
    (hNext : Tracks Q c (k ())) :
    Tracks Q c
      ((modify fun s => { s with level := change s.level }) >>= k) := by
  intro s b u hCurrent hRun
  rw [Steps.bind_ok (Steps.modify_apply _ s)] at hRun
  exact hNext { s with level := change s.level } b u hCurrent hRun

theorem fail
    {k : α → Parse β}
    (e : ParseError) :
    Tracks Q c (MonadExcept.throw e >>= k) := by
  intro s b u _ hRun
  cases hRun

/- The current token is taken. -/
theorem take
    (hNext : ∀ d,
      Tracks (fun b g => Q b fun n => (openNext n c).bind g) d (k ())) :
    Tracks Q c (advance >>= k) := by
  rintro ⟨t, ts, level⟩ b u rfl hRun
  cases ts with
  | nil => cases hRun
  | cons v vs =>
      rw [Steps.bind_ok (advance_apply t v vs level)] at hRun
      rcases hNext v _ b u rfl hRun with ⟨taken, hTokens, hHolds⟩
      refine ⟨t :: taken, ?_, ?_⟩
      · rw [List.cons_append, ← hTokens]
        rfl
      · simpa only [Token.openAfter_cons] using hHolds

/- It does not matter if it is no parenthesis. -/
theorem pass
    (hOther : c.isParenthesis = false)
    (hNext : ∀ d, Tracks Q d (k ())) :
    Tracks Q c (advance >>= k) := by
  apply take
  intro d
  simpa only [Token.openNext_other hOther, Option.bind_some] using
    hNext d

end Tracks

/-
  As many parentheses are closed more than are opened as the
  count of the result tells.
-/
def Falls
    (count : α → Nat)
    (a : α)
    (f : Nat → Option Nat)
    (_ : Token) :
    Prop :=
  ∀ n, f (n + count a) = some n

/- Arguments fall so too, and come to a closing parenthesis. -/
def Encloses
    (es : List Node)
    (f : Nat → Option Nat)
    (d : Token) :
    Prop :=
  Falls Node.straysAll es f d ∧ d.isOperator ")" = true

/- What is more in a result than in the left operand falls so. -/
def FallsAfter
    (lhs node : Node)
    (f : Nat → Option Nat)
    (_ : Token) :
    Prop :=
  ∃ k, node.strays = k + lhs.strays ∧ ∀ n, f (n + k) = some n

end Offside.Parse

namespace Offside.Precedence

/- Parentheses are no operators of the table. -/
structure LeavesParentheses
    (table : Precedence) :
    Prop where
  opening : table.of (.text "(") < 0
  closing : table.of (.text ")") < 0

theorem LeavesParentheses.other
    {table : Precedence}
    (hTable : table.LeavesParentheses)
    {t : Token}
    (hBinds : 0 ≤ table.of t.value) :
    t.isParenthesis = false := by
  have hValue : ∀ s, table.of (.text s) < 0 → t.isOperator s = false := by
    intro s hLoose
    have hOther : t.value ≠ .text s := by
      intro hSame
      rw [hSame] at hBinds
      omega
    simp [Token.isOperator, hOther]
  rw [Token.isParenthesis, hValue _ hTable.opening,
    hValue _ hTable.closing]
  rfl

end Offside.Precedence

------------------------------------------------------------
-- Productions
------------------------------------------------------------

namespace Offside.Parse.Tracks

open Node (strays straysAll straysNamed)
open Token (openNext)

variable {c : Token}
variable {p q : Parse Node}
variable {ps : Parse (List Node)}
variable {entries : Parse (List (Value × Node))}

theorem literal
    (hKind : c.kind = .floatLiteral) :
    Tracks (Falls strays) c literal := by
  refine current (pass (Token.isParenthesis_of_kind hKind nofun) ?_)
  intro d
  exact pure fun n => rfl

/- Inside a pair of parentheses one more is open. -/
theorem bind_parentheses
    {d : Token}
    (hOpening : c.isOperator "(" = true)
    (hClosing : d.isOperator ")" = true)
    {f : Nat → Option Nat}
    {k : Nat}
    (hFalls : ∀ n, f (n + k) = some n)
    (n : Nat) :
    ((openNext (n + k) c).bind fun m =>
      (f m).bind fun m => (openNext m d).bind some) = some n := by
  have hInside := hFalls (n + 1)
  rw [Nat.add_right_comm] at hInside
  simp only [Token.openNext_opening hOpening, Option.bind_some, hInside,
    Token.openNext_closing hClosing]

theorem parenthesized
    (hInner : ∀ d, Tracks (Falls strays) d p)
    (hOpening : c.isOperator "(" = true) :
    Tracks (Falls strays) c (parenthesized p) := by
  refine take fun d => (hInner d).bind fun e f u hFalls =>
    expectOperator fun hClosing => take fun _ => pure ?_
  exact bind_parentheses hOpening hClosing hFalls

theorem arguments
    (hArgument : ∀ d, Tracks (Falls strays) d p)
    (hMore : ∀ d, Tracks Encloses d ps) :
    Tracks Encloses c (arguments p ps) := by
  refine (hArgument c).bind fun e f u hFalls =>
    atOperator (ite (fun hClosing => pure ⟨?_, hClosing⟩) fun _ => ?_)
  · intro n
    simp [hFalls n]
  · refine expectOperator fun hComma => pass
      (Token.isParenthesis_of_isOperator hComma (by simp))
      fun v => (hMore v).bind fun es g w hOthers =>
        pure ⟨?_, hOthers.2⟩
    intro n
    simp [← Nat.add_assoc, hFalls _, hOthers.1 n]

theorem named
    (hArguments : ∀ d, Tracks Encloses d ps)
    (hKind : c.kind = .identifier) :
    Tracks (Falls strays) c (named ps) := by
  refine current (pass (Token.isParenthesis_of_kind hKind nofun)
    fun d => atOperator (ite (fun hOpening => ?_) fun _ => ?_))
  · refine take fun u => bind (P := Encloses) ?_
      fun es f v hFalls => take fun _ => pure ?_
    · exact atOperator (ite
        (fun hClosing => pure ⟨fun n => rfl, hClosing⟩)
        fun _ => hArguments u)
    · exact bind_parentheses hOpening hFalls.2 hFalls.1
  · exact pure fun n => rfl

/- A closing parenthesis for an operator closes one too many. -/
theorem openNext_operator
    (hKind : c.kind = .operator)
    (hOpening : ¬c.isOperator "(" = true)
    (operand : Node)
    (n : Nat) :
    openNext (n + (Node.unary c.value operand).isStray.toNat) c =
      some n := by
  by_cases hClosing : c.value = .text ")"
  · have hStray : c.isOperator ")" = true := by
      simp [Token.isOperator, hKind, hClosing]
    simp [Node.isStray, hClosing, Token.openNext_closing hStray]
  · have hOther : c.isParenthesis = false := by
      rw [Token.isParenthesis, Bool.or_eq_false_iff]
      exact ⟨by simpa using hOpening, by simp [Token.isOperator, hClosing]⟩
    simp [Node.isStray, hClosing, Token.openNext_other hOther]

theorem unary
    (hPrimary : Tracks (Falls strays) c p)
    (hOperand : ∀ d, Tracks (Falls strays) d q) :
    Tracks (Falls strays) c (unary p q) := by
  refine current (ite (fun _ => hPrimary) fun hOperator => ?_)
  rw [not_or, not_or, not_not] at hOperator
  rcases hOperator with ⟨hKind, hOpening, _⟩
  refine take fun d => (hOperand d).bind fun e f u hFalls => pure ?_
  intro n
  rw [Node.strays_unary, ← Nat.add_assoc]
  simp only [openNext_operator hKind hOpening, Option.bind_some, hFalls n]

variable {table : Precedence}

/- The tokens after an operand, with what the operand has. -/
theorem binaryRest
    (hTable : table.LeavesParentheses)
    (hUnary : ∀ d, Tracks (Falls strays) d p)
    {rest : Int → Node → Parse Node}
    (hRest : ∀ d least lhs, 0 ≤ least →
      Tracks (FallsAfter lhs) d (rest least lhs))
    {least : Int}
    (lhs : Node)
    (hLeast : 0 ≤ least) :
    Tracks (FallsAfter lhs) c (binaryRest table p rest least lhs) := by
  refine current (ite (fun _ => pure ⟨0, by simp, fun n => rfl⟩)
    fun hBinds => ?_)
  have hOther : c.isParenthesis = false := hTable.other (by omega)
  refine pass hOther fun d => (hUnary d).bind
    fun operand f u hOperand => ?_
  refine bind (P := FallsAfter operand) ?_ fun rhs g v hRhs =>
    (hRest v least _ hLeast).mono fun node h w hNode => ?_
  · exact current (ite (fun _ => hRest _ _ _ (by omega))
      fun _ => pure ⟨0, by simp, fun n => rfl⟩)
  · rcases hRhs with ⟨k, hStrays, hMore⟩
    rcases hNode with ⟨m, hAll, hLast⟩
    refine ⟨m + k + operand.strays, ?_, ?_⟩
    · rw [hAll, Node.strays_binary, hStrays]
      omega
    · intro n
      simp [← Nat.add_assoc, hOperand _, hMore, hLast]

theorem expression
    (hUnary : Tracks (Falls strays) c p)
    {rest : Int → Node → Parse Node}
    (hRest : ∀ d least lhs, 0 ≤ least →
      Tracks (FallsAfter lhs) d (rest least lhs)) :
    Tracks (Falls strays) c (expression p rest) := by
  refine hUnary.bind fun lhs f d hLhs =>
    (hRest d 0 lhs (Int.le_refl 0)).mono fun node g u hNode => ?_
  rcases hNode with ⟨k, hStrays, hMore⟩
  intro n
  simp [hStrays, ← Nat.add_assoc, hLhs _, hMore]

theorem lines
    (hLine : ∀ d, Tracks (Falls strays) d p)
    {more : Amount → Parse (List Node)}
    (hMore : ∀ d indent, Tracks (Falls straysAll) d (more indent))
    (indent : Amount) :
    Tracks (Falls straysAll) c (lines p more indent) := by
  refine (hLine c).bind fun e f d hFirst => current ?_
  have hOne : Tracks
      (fun es g => Falls straysAll es fun n => (f n).bind g) d
      (Pure.pure [e]) := by
    apply pure
    intro n
    simp [hFirst n]
  refine ite (fun _ => hOne) fun hKind => ?_
  cases hValue : d.value with
  | text s => exact throw _
  | amount found =>
      refine ite (fun _ => hOne) fun _ => ?_
      have hNext : Tracks
          (fun es g => Falls straysAll es fun n => (f n).bind g) d (do
            advance
            let es ← more indent
            return e :: es) := by
        refine pass (Token.isParenthesis_of_value hValue) fun u =>
          (hMore u indent).bind fun es g v hOthers => pure ?_
        intro n
        simp [← Nat.add_assoc, hFirst _, hOthers n]
      exact ite (fun _ => fail _) fun _ => hNext

theorem block
    {lines : Amount → Parse (List Node)}
    (hLines : ∀ d indent, Tracks (Falls straysAll) d (lines indent)) :
    Tracks (Falls strays) c (block lines) := by
  refine current ?_
  cases hValue : c.value with
  | text s => exact take fun _ => state fun _ => throw _
  | amount indent =>
      refine pass (Token.isParenthesis_of_value hValue) fun d =>
        state fun s => ite (fun _ => fail _) fun _ => ?_
      refine bind (P := Falls straysAll) ?_ fun nodes f u hNodes =>
        modifyLevel (fun level => level.minus levelWidth) (pure ?_)
      · exact ite (fun _ => modifyLevel (fun _ => indent) (hLines d indent))
          fun _ => pure fun n => rfl
      · intro n
        simp [hNodes n]

theorem branch
    (hCondition : ∀ d, Tracks (Falls strays) d p)
    (hBlock : ∀ d, Tracks (Falls strays) d q)
    (hKind : c.kind = .kwIf) :
    Tracks (Falls strays) c (branch p q) := by
  have hColon : ∀ {d : Token}, d.isOperator ":" = true →
      d.isParenthesis = false :=
    fun hOperator => Token.isParenthesis_of_isOperator hOperator
      (by simp)
  refine current (pass (Token.isParenthesis_of_kind hKind nofun)
    fun d => (hCondition d).bind fun cond f u hCond => expectColon
      fun hFirst => pass (hColon hFirst) fun v => (hBlock v).bind
        fun yes g w hYes => atKind ?_)
  have hElse : ∀ x, Tracks
      (fun node h => Falls strays node fun n =>
        (f n).bind fun n => (g n).bind h) x (do
      let no ← (do
        if ← Parse.atKind .kwElse then
          advance
          Parse.expectColon "else"
          advance
          q
        else return .block [])
      return .branch cond yes no c.location) := by
    intro x
    refine bind (P := Falls strays) ?_ fun no h y hNo => pure ?_
    · refine atKind (ite (fun hElse => ?_) fun _ => pure fun n => rfl)
      exact pass (Token.isParenthesis_of_kind (of_decide_eq_true hElse) nofun)
        fun _ => expectColon fun hSecond => pass (hColon hSecond) hBlock
    · intro n
      simp [← Nat.add_assoc, hCond _, hYes _, hNo n]
  refine ite (fun hIndent => ?_) fun _ => hElse w
  exact pass (Token.isParenthesis_of_kind (of_decide_eq_true hIndent) nofun)
    hElse

theorem loop
    (hPart : ∀ d, Tracks (Falls strays) d p)
    (hKind : c.kind = .kwFor) :
    Tracks (Falls strays) c (loop p) := by
  have hComma : ∀ {d : Token}, d.isOperator "," = true →
      d.isParenthesis = false :=
    fun hOperator => Token.isParenthesis_of_isOperator hOperator
      (by simp)
  refine pass (Token.isParenthesis_of_kind hKind nofun) fun d =>
    expectKind fun hName => current (pass
      (Token.isParenthesis_of_kind hName nofun) fun u =>
        expectOperator fun hAssign => pass
          (Token.isParenthesis_of_isOperator hAssign (by simp)) fun v =>
            (hPart v).bind fun first f w hFirst =>
              expectOperator fun hSeparator => pass (hComma hSeparator)
                fun x => (hPart x).bind fun last g y hLast => ?_)
  refine bind (P := Falls strays) ?_ fun step h z hStep =>
    expectKind fun hIn => pass (Token.isParenthesis_of_kind hIn nofun)
      fun z' => (hPart z').bind fun body i _ hBody => pure ?_
  · exact atOperator (ite (fun hSecond => pass (hComma hSecond) hPart)
      fun _ => pure fun n => rfl)
  · intro n
    simp [← Nat.add_assoc, hFirst _, hLast _, hStep _, hBody n]

theorem bindings
    (hValue : ∀ d, Tracks (Falls strays) d p)
    (hMore : ∀ d, d.kind = .identifier →
      Tracks (Falls straysNamed) d entries)
    (hKind : c.kind = .identifier) :
    Tracks (Falls straysNamed) c (bindings p entries) := by
  refine current (pass (Token.isParenthesis_of_kind hKind nofun) fun d =>
    bind (P := Falls strays) ?_ fun value f u hFirst =>
      atOperator (ite (fun hComma => ?_) fun _ => pure ?_))
  · exact atOperator (ite (fun hAssign => pass
      (Token.isParenthesis_of_isOperator hAssign (by simp))
      hValue) fun _ => pure fun n => rfl)
  · refine pass (Token.isParenthesis_of_isOperator hComma (by simp))
      fun v => expectKind fun hName =>
        (hMore v hName).bind fun others g w hOthers => pure ?_
    intro n
    simp [← Nat.add_assoc, hFirst _, hOthers n]
  · intro n
    simp [hFirst n]

theorem declaration
    (hBody : ∀ d, Tracks (Falls strays) d p)
    (hEntries : ∀ d, d.kind = .identifier →
      Tracks (Falls straysNamed) d entries)
    (hKind : c.kind = .kwVar) :
    Tracks (Falls strays) c (declaration p entries) := by
  refine pass (Token.isParenthesis_of_kind hKind nofun) fun d =>
    expectKind fun hName => (hEntries d hName).bind
      fun names f u hNames => expectKind fun hIn => pass
        (Token.isParenthesis_of_kind hIn nofun) fun v =>
          (hBody v).bind fun body g w hInner => pure ?_
  intro n
  simp [← Nat.add_assoc, hNames _, hInner n]

theorem returned
    (hValue : ∀ d, Tracks (Falls strays) d p)
    (hKind : c.kind = .kwReturn) :
    Tracks (Falls strays) c (returned p) := by
  refine pass (Token.isParenthesis_of_kind hKind nofun) fun d =>
    (hValue d).bind fun value f u hInner => pure ?_
  intro n
  simp [hInner n]

theorem unknown :
    Tracks (Falls strays) c unknown :=
  current (take fun _ => throw _)

/- A primary expression, by its first token. -/
theorem primary
    {parts : Parts}
    (hExpression : ∀ d, Tracks (Falls strays) d parts.expression)
    (hArguments : ∀ d, Tracks Encloses d parts.arguments)
    (hEntries : ∀ d, d.kind = .identifier →
      Tracks (Falls straysNamed) d parts.bindings)
    (hBlock : ∀ d, Tracks (Falls strays) d parts.block)
    (hPrimary : ∀ d, Tracks (Falls strays) d parts.primary) :
    Tracks (Falls strays) c (primary parts) := by
  refine current ?_
  cases hKind : c.kind
  case identifier => exact named hArguments hKind
  case floatLiteral => exact literal hKind
  case kwIf => exact branch hExpression hBlock hKind
  case kwFor => exact loop hExpression hKind
  case kwVar => exact declaration hExpression hEntries hKind
  case kwReturn => exact returned hExpression hKind
  case indent => exact hBlock c
  case operator =>
      refine ite (parenthesized hExpression) fun _ =>
        ite (fun hSemicolon => ?_) fun _ => unknown
      exact pass (Token.isParenthesis_of_isOperator hSemicolon
        (by simp)) hPrimary
  all_goals exact unknown

end Offside.Parse.Tracks

------------------------------------------------------------
-- The Grammar
------------------------------------------------------------

namespace Offside.Grammar

open Node (strays straysAll straysNamed)
open Parse (Tracks Falls FallsAfter Encloses)

/- What the productions do to open parentheses, at one allowance. -/
structure AllFall
    (table : Precedence)
    (n : Nat) :
    Prop where
  primary : ∀ c, Tracks (Falls strays) c (primary table n)
  unary : ∀ c, Tracks (Falls strays) c (unary table n)
  binaryRest :
    ∀ c least lhs, 0 ≤ least →
      Tracks (FallsAfter lhs) c (binaryRest table n least lhs)
  expression : ∀ c, Tracks (Falls strays) c (expression table n)
  arguments : ∀ c, Tracks Encloses c (arguments table n)
  bindings :
    ∀ c, c.kind = .identifier →
      Tracks (Falls straysNamed) c (bindings table n)
  lines :
    ∀ c indent, Tracks (Falls straysAll) c (lines table n indent)
  block : ∀ c, Tracks (Falls strays) c (block table n)

/-
  An expression closes as many parentheses more than it opens as
  it has closing ones for operators.
-/
theorem falls
    {table : Precedence}
    (hTable : table.LeavesParentheses)
    (n : Nat) :
    AllFall table n := by
  induction n with
  | zero =>
      constructor
      case binaryRest => exact fun _ _ _ _ => Tracks.throw _
      case bindings => exact fun _ _ => Tracks.throw _
      case lines => exact fun _ _ => Tracks.throw _
      all_goals exact fun _ => Tracks.throw _
  | succ n ih =>
      constructor
      case primary =>
        exact fun _ => Tracks.primary ih.expression ih.arguments
          ih.bindings ih.block ih.primary
      case unary => exact fun c => Tracks.unary (ih.primary c) ih.unary
      case binaryRest =>
        exact fun _ _ lhs hLeast =>
          Tracks.binaryRest hTable ih.unary ih.binaryRest lhs hLeast
      case expression =>
        exact fun c => Tracks.expression (ih.unary c) ih.binaryRest
      case arguments =>
        exact fun _ => Tracks.arguments ih.expression ih.arguments
      case bindings =>
        exact fun _ => Tracks.bindings ih.expression ih.bindings
      case lines =>
        exact fun _ indent => Tracks.lines ih.expression ih.lines indent
      case block => exact fun _ => Tracks.block ih.lines

end Offside.Grammar

------------------------------------------------------------
-- Programs
------------------------------------------------------------

namespace Offside.Parse.Tracks

open Node (strays straysAll)

variable {c : Token}
variable {p : Parse Node}

/- Names and commas are taken up to another token. -/
theorem parametersFrom
    {s t : ParseState}
    {ts : List Token}
    {args : List Node}
    (hRun : parametersFrom s ts = .ok args t) :
    ∃ taken,
      ts = taken ++ t.tokens ∧
      (∀ u ∈ taken, u.isParenthesis = false) ∧
      straysAll args = 0 := by
  fun_induction Parse.parametersFrom s ts generalizing args t with
  | case4 s u v ts hName hComma nodes s' hMore ih =>
      cases hRun
      rcases ih hMore with ⟨taken, rfl, hOthers, hStrays⟩
      refine ⟨u :: v :: taken, rfl, ?_, ?_⟩
      · refine List.forall_mem_cons.mpr
          ⟨Token.isParenthesis_of_kind hName (by decide), ?_⟩
        exact List.forall_mem_cons.mpr
          ⟨Token.isParenthesis_of_isOperator hComma (by simp), hOthers⟩
      · simp [hStrays, variableOf]
  | case6 s u v ts hName hComma =>
      cases hRun
      refine ⟨[u], rfl, ?_, rfl⟩
      intro w hMem
      rw [List.mem_singleton.mp hMem]
      exact Token.isParenthesis_of_kind hName (by decide)
  | case3 | case7 =>
      cases hRun
      exact ⟨[], rfl, List.forall_mem_nil _, rfl⟩
  | case1 | case2 | case5 => cases hRun

theorem parameters
    (hOpening : c.isOperator "(" = true) :
    Tracks (fun args f _ => straysAll args = 0 ∧ ∀ n, f n = some (n + 1))
      c parameters := by
  rintro s args t rfl hRun
  rcases parametersFrom hRun with ⟨taken, hTokens, hOthers, hStrays⟩
  refine ⟨s.current :: taken, ?_, hStrays, ?_⟩
  · rw [List.cons_append, ← hTokens]
    rfl
  · intro n
    dsimp only
    rw [Token.openAfter_cons, Token.openNext_opening hOpening,
      Option.bind_some, Token.openAfter_of_others hOthers]

theorem externPrototype :
    Tracks (Falls strays) c externPrototype := by
  refine current (expectKind fun hName => pass
    (Token.isParenthesis_of_kind hName nofun) fun d =>
      expectOperator fun hOpening => (parameters hOpening).bind
        fun args f u hArgs => expectOperator fun hClosing =>
          take fun _ => pure ?_)
  rcases hArgs with ⟨hStrays, hOpen⟩
  intro n
  simp [hStrays, hOpen, Token.openNext_closing hClosing]

theorem function
    (hBlock : ∀ d, Tracks (Falls strays) d p)
    (hKind : c.kind = .kwFunction) :
    Tracks (Falls strays) c (function p) := by
  refine pass (Token.isParenthesis_of_kind hKind nofun) fun d =>
    bind (P := Falls strays) ?_ fun proto f u hProto =>
      (hBlock u).bind fun body g v hBody => pure ?_
  · refine externPrototype.bind fun proto f u hProto =>
      expectOperator fun hColon => pass
        (Token.isParenthesis_of_isOperator hColon (by simp))
        fun _ => pure ?_
    intro n
    simp [hProto n]
  · intro n
    simp [← Nat.add_assoc, hProto _, hBody n]

theorem external
    (hKind : c.kind = .kwExtern) :
    Tracks (Falls strays) c external :=
  pass (Token.isParenthesis_of_kind hKind nofun) fun _ => externPrototype

end Offside.Parse.Tracks

namespace Offside.Grammar

open Node (strays straysAll)
open Parse (Tracks Falls)

variable {table : Precedence}

/- The items of a program go up to the end of the text. -/
theorem items_falls
    (hTable : table.LeavesParentheses)
    (n : Nat)
    (c : Token) :
    Tracks (fun items f d =>
        Falls straysAll items f d ∧ d.kind = .endOfText)
      c (items table n) := by
  induction n generalizing c with
  | zero => exact Tracks.throw _
  | succ n ih =>
      have hAll := falls hTable n
      refine Tracks.current (Tracks.ite
        (fun hEnd => Tracks.pure ⟨fun n => rfl, hEnd⟩) fun _ => ?_)
      refine Tracks.ite (fun hSemicolon => Tracks.pass
        (Token.isParenthesis_of_isOperator hSemicolon (by simp)) ih)
        fun _ => ?_
      refine Tracks.bind (P := Falls strays) ?_ fun item f d hItem =>
        (ih d).bind fun others g u hOthers =>
          Tracks.pure ⟨?_, hOthers.2⟩
      · split
        · rename_i hKind
          exact Tracks.function hAll.block hKind
        · rename_i hKind
          exact Tracks.external hKind
        · exact hAll.expression c
      · intro n
        simp [← Nat.add_assoc, hItem _, hOthers.1 n]

end Offside.Grammar

namespace Offside.Parser

open Node (strays straysAll)
open Parse (Tracks Falls)

theorem program_falls
    {table : Precedence}
    (hTable : table.LeavesParentheses)
    (name : String)
    {c : Token}
    (hKind : c.kind ≠ .operator) :
    Tracks (fun tree f d =>
        Falls strays tree f d ∧ d.kind = .endOfText)
      c (program table name) := by
  have hItems : ∀ d, Tracks (fun items f u =>
        Falls straysAll items f u ∧ u.kind = .endOfText)
      d (Grammar.run (Grammar.items table)) :=
    fun d s => Grammar.items_falls hTable _ d s
  have hRest : ∀ d, Tracks (fun tree f u =>
        Falls strays tree f u ∧ u.kind = .endOfText) d (do
      let nodes ← Grammar.run (Grammar.items table)
      return Node.program name nodes) := by
    intro d
    refine (hItems d).bind fun nodes f u hNodes =>
      Tracks.pure ⟨?_, hNodes.2⟩
    intro n
    simp [hNodes.1 n]
  refine Tracks.pass (Token.isParenthesis_of_kind rfl hKind) fun d =>
    Tracks.atKind (Tracks.ite (fun hUnset => ?_) fun _ => hRest d)
  exact Tracks.pass (Token.isParenthesis_of_kind
    (of_decide_eq_true hUnset) nofun) hRest

/- All tokens of a text are taken but the one for its end. -/
theorem parse_falls
    {s : Scanner}
    (hBuffer : s.input.direct = false)
    {text : String}
    {ts : List Token}
    (hLex : s.lexText text = .ok ts)
    {p p' : Parser}
    (hTable : p.table.LeavesParentheses)
    {name : String}
    {tree : Node}
    (hParse : p.parse (TokenList.ofTokens ts) name = (.ok tree, p'))
    (n : Nat) :
    Token.openAfter (n + tree.strays) ts = some n := by
  have hReading : Reading true text.toList (ts.map Token.unlocated) :=
    (Scanner.exists_lexText_eq_ok_iff hBuffer text _).mp ⟨ts, hLex, rfl⟩
  rcases hReading.cut rfl with ⟨body, final, rfl, hFinal, hBody, _⟩
  unfold parse run at hParse
  dsimp only at hParse
  split at hParse
  · rename_i result u hRun
    cases hParse
    have hUnset : Token.unset.kind ≠ .operator := nofun
    rcases program_falls hTable name hUnset _ tree u rfl hRun with
      ⟨taken, hSplit, hFalls, hEnd⟩
    have hTokens : Token.unset :: (body ++ [final]) =
        taken ++ u.current :: u.rest := hSplit
    have hTaken : Token.openAfter (n + tree.strays) taken = some n :=
      hFalls n
    have hLast : u.rest = [] := by
      rcases List.eq_nil_or_concat u.rest with hNil | ⟨rest, t, hMore⟩
      · exact hNil
      · rw [hMore, List.concat_eq_append, ← List.cons_append,
          ← List.cons_append, ← List.append_assoc] at hTokens
        rcases List.append_inj' hTokens rfl with ⟨hBefore, _⟩
        have hMem : u.current ∈ Token.unset :: body := by
          rw [hBefore]
          simp
        rcases List.mem_cons.mp hMem with hFirst | hInner
        · rw [hFirst] at hEnd
          cases hEnd
        · exact absurd hEnd (hBody _ hInner)
    have hOther : u.current.isParenthesis = false :=
      Token.isParenthesis_of_kind hEnd nofun
    have hUnsetOther : Token.unset.isParenthesis = false :=
      Token.isParenthesis_of_kind rfl hUnset
    calc Token.openAfter (n + tree.strays) (body ++ [final])
        = Token.openAfter (n + tree.strays)
            (Token.unset :: (body ++ [final])) := by
          rw [Token.openAfter_cons, Token.openNext_other hUnsetOther,
            Option.bind_some]
      _ = (Token.openAfter (n + tree.strays) taken).bind
            fun m => Token.openAfter m [u.current] := by
          rw [hTokens, hLast, Token.openAfter_append]
      _ = some n := by
          rw [hTaken, Option.bind_some, Token.openAfter_cons,
            Token.openNext_other hOther]
          rfl
  · cases hParse

/-
  The parentheses of a text that is parsed are balanced if and
  only if no closing one is an operator in the tree: an operand
  may have any operator but an opening parenthesis and a comma
  before it.
-/
theorem parse_balanced_iff
    (s : Scanner)
    (hBuffer : s.input.direct = false)
    (text : String)
    (ts : List Token)
    (hLex : s.lexText text = .ok ts)
    (p p' : Parser)
    (hTable : p.table.LeavesParentheses)
    (name : String)
    (tree : Node)
    (hParse : p.parse (TokenList.ofTokens ts) name = (.ok tree, p')) :
    Token.Balanced ts ↔
      ∀ node ∈ tree.preorder, ∀ operand,
        node ≠ .unary (.text ")") operand := by
  have hFalls := parse_falls hBuffer hLex hTable hParse
  rw [Token.balanced_iff, ← Node.strays_eq_zero_iff]
  constructor
  · intro hBalanced
    have hCounts := (Token.openAfter_eq_some_iff _ _ _).mp (hFalls 0)
    have hTotals := (Token.openAfter_eq_some_iff _ _ _).mp hBalanced
    omega
  · intro hNone
    have hAll := hFalls 0
    rwa [hNone] at hAll

/- The tokens of `)x`. -/
def strayTokens :
    List Token :=
  [⟨.operator, .text ")", ⟨0, 2⟩⟩,
    ⟨.identifier, .text "x", ⟨0, 3⟩⟩,
    ⟨.endOfText, .text "", ⟨0, 4⟩⟩]

/- The tree that they are parsed to. -/
def strayTree : Node :=
  .program "main"
    [.unary (.text ")")
      (.reference (.text "x") Node.floatType ⟨0, 3⟩)]

theorem parse_balanced_iff_stray :
    (Scanner.ofInput Input.empty).lexText ")x" = .ok strayTokens ∧
    (new.parse (TokenList.ofTokens strayTokens) "main").1 =
      .ok strayTree ∧
    ¬Token.Balanced strayTokens := by
  have hLex :
      (Scanner.ofInput Input.empty).lexText ")x" = .ok strayTokens := by
    decide +kernel
  have hParse :
      (new.parse (TokenList.ofTokens strayTokens) "main").1 =
        .ok strayTree := by
    rfl
  refine ⟨hLex, hParse, ?_⟩
  intro hBalanced
  have hNone := (parse_balanced_iff (Scanner.ofInput Input.empty) rfl ")x"
    strayTokens hLex new _ ⟨by decide, by decide⟩ "main" strayTree
    (Prod.ext hParse rfl)).mp hBalanced
  have hMem :
      Node.unary (.text ")")
          (.reference (.text "x") Node.floatType ⟨0, 3⟩) ∈
        strayTree.preorder := by
    simp [strayTree, Node.preorder, Node.preorderAll]
  exact hNone _ hMem _ rfl

end Offside.Parser
