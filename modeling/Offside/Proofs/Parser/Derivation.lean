import Mathlib
import Offside.Parser.Basic
import Offside.Proofs.Parser.Step

/-
  Derivations: which tokens the nodes of a tree stand for, and
  what each of these tokens is used for.

  Key definitions include:
    * `Offside.Role`
    * `Offside.Derives`
    * `Offside.Parse.Yields`

  Main statements:
    * `Offside.Grammar.yields`, `Offside.Grammar.item_yields`:
      what is parsed is derived from the tokens that were taken.
    * `Offside.Grammar.items_derives`: the items of a text are
      derived from all its tokens but the end.
-/

------------------------------------------------------------
-- Roles
------------------------------------------------------------

namespace Offside

/-
  A token that is a leaf of the tree, that opens a block with its
  value, or that is there for another reason; or a leaf that no
  token stands for.
-/
inductive Role where
  | leaf (t : Token)
  | opener (t : Token)
  | mark (t : Token)
  | default (value : Value)
  deriving DecidableEq, Repr

namespace Role

/- The token in a role, if there is one. -/
def token? :
    Role →
    Option Token
  | leaf t | opener t | mark t => some t
  | default _ => none

/- The tokens in their roles. -/
def tokens
    (φ : List Role) :
    List Token :=
  φ.filterMap token?

@[simp] theorem tokens_nil :
    tokens [] = [] :=
  rfl

@[simp] theorem tokens_leaf
    (t : Token)
    (φ : List Role) :
    tokens (leaf t :: φ) = t :: tokens φ :=
  rfl

@[simp] theorem tokens_opener
    (t : Token)
    (φ : List Role) :
    tokens (opener t :: φ) = t :: tokens φ :=
  rfl

@[simp] theorem tokens_mark
    (t : Token)
    (φ : List Role) :
    tokens (mark t :: φ) = t :: tokens φ :=
  rfl

@[simp] theorem tokens_default
    (value : Value)
    (φ : List Role) :
    tokens (default value :: φ) = tokens φ :=
  rfl

@[simp] theorem tokens_append
    (φ ψ : List Role) :
    tokens (φ ++ ψ) = tokens φ ++ tokens ψ :=
  List.filterMap_append

end Role

end Offside

------------------------------------------------------------
-- Derivations
------------------------------------------------------------

namespace Offside

/- What is derived: a node in one of its places, or several nodes. -/
inductive Construct where
  | node (node : Node)
  | suite (node : Node)
  | otherwise (node : Node)
  | step (node : Node)
  | initial (node : Node)
  | arguments (nodes : List Node)
  | lines (nodes : List Node)
  | names (names : List (Value × Node))
  | parameters (nodes : List Node)
  | proto (node : Node)
  | item (node : Node)
  | items (nodes : List Node)

/- Nothing, or an indentation that is passed over. -/
def IsPassed
    (φ : List Role) :
    Prop :=
  φ = [] ∨ ∃ t : Token, t.kind = .indent ∧ φ = [.mark t]

open Role in
/-
  That a construct is derived from tokens in their roles.  A block
  of a function or a branch can be opened by any token with an
  amount; where an operand is expected only an indentation opens
  one.  After the first block of a branch an indentation is
  passed over.
-/
inductive Derives
    (table : Precedence) :
    Construct →
    List Role →
    Prop where
  | literal
      {t : Token}
      (hKind : t.kind = .floatLiteral) :
      Derives table (.node (.float t.value)) [leaf t]
  | reference
      {t : Token}
      (hKind : t.kind = .identifier) :
      Derives table (.node (Parse.variableOf t)) [mark t]
  | call
      {t o c : Token}
      {es : List Node}
      {φ : List Role}
      (hName : t.kind = .identifier)
      (hOpening : o.isOperator "(" = true)
      (hArguments : Derives table (.arguments es) φ)
      (hClosing : c.isOperator ")" = true) :
      Derives table (.node (.call t.value es t.location))
        (mark t :: mark o :: (φ ++ [mark c]))
  | noArguments :
      Derives table (.arguments []) []
  | lastArgument
      {e : Node}
      {φ : List Role}
      (hLast : Derives table (.node e) φ) :
      Derives table (.arguments [e]) φ
  | argument
      {e : Node}
      {es : List Node}
      {c : Token}
      {φ ψ : List Role}
      (hFirst : Derives table (.node e) φ)
      (hComma : c.isOperator "," = true)
      (hSome : es ≠ [])
      (hMore : Derives table (.arguments es) ψ) :
      Derives table (.arguments (e :: es)) (φ ++ mark c :: ψ)
  | parenthesized
      {o c : Token}
      {e : Node}
      {φ : List Role}
      (hOpening : o.isOperator "(" = true)
      (hInner : Derives table (.node e) φ)
      (hClosing : c.isOperator ")" = true) :
      Derives table (.node e) (mark o :: (φ ++ [mark c]))
  | unary
      {t : Token}
      {e : Node}
      {φ : List Role}
      (hKind : t.kind = .operator)
      (hOperand : Derives table (.node e) φ) :
      Derives table (.node (.unary t.value e)) (mark t :: φ)
  | binary
      {t : Token}
      {lhs rhs : Node}
      {φ ψ : List Role}
      (hLhs : Derives table (.node lhs) φ)
      (hBinds : 0 ≤ table.of t.value)
      (hRhs : Derives table (.node rhs) ψ) :
      Derives table (.node (.binary t.value lhs rhs t.location))
        (φ ++ mark t :: ψ)
  | nested
      {t : Token}
      {node : Node}
      {φ : List Role}
      (hKind : t.kind = .indent)
      (hBlock : Derives table (.suite node) (opener t :: φ)) :
      Derives table (.node node) (opener t :: φ)
  | suite
      {t : Token}
      {indent : Amount}
      {nodes : List Node}
      {φ : List Role}
      (hValue : t.value = .amount indent)
      (hLines : Derives table (.lines nodes) φ) :
      Derives table (.suite (.block nodes)) (opener t :: φ)
  | noLines :
      Derives table (.lines []) []
  | lastLine
      {e : Node}
      {φ : List Role}
      (hLast : Derives table (.node e) φ) :
      Derives table (.lines [e]) φ
  | line
      {e : Node}
      {es : List Node}
      {t : Token}
      {indent : Amount}
      {φ ψ : List Role}
      (hFirst : Derives table (.node e) φ)
      (hKind : t.kind = .indent)
      (hValue : t.value = .amount indent)
      (hSome : es ≠ [])
      (hMore : Derives table (.lines es) ψ) :
      Derives table (.lines (e :: es)) (φ ++ mark t :: ψ)
  | branch
      {t c : Token}
      {cond yes no : Node}
      {φ ψ χ : List Role}
      (hIf : t.kind = .kwIf)
      (hCond : Derives table (.node cond) φ)
      (hColon : c.isOperator ":" = true)
      (hYes : Derives table (.suite yes) ψ)
      (hNo : Derives table (.otherwise no) χ) :
      Derives table (.node (.branch cond yes no t.location))
        (mark t :: (φ ++ mark c :: (ψ ++ χ)))
  | elseless
      {φ : List Role}
      (hPassed : IsPassed φ) :
      Derives table (.otherwise (.block [])) φ
  | otherwise
      {t c : Token}
      {no : Node}
      {φ ψ : List Role}
      (hPassed : IsPassed φ)
      (hElse : t.kind = .kwElse)
      (hColon : c.isOperator ":" = true)
      (hNo : Derives table (.suite no) ψ) :
      Derives table (.otherwise no) (φ ++ mark t :: mark c :: ψ)
  | loop
      {t counter a c i : Token}
      {first last step body : Node}
      {φ ψ χ ω : List Role}
      (hFor : t.kind = .kwFor)
      (hCounter : counter.kind = .identifier)
      (hAssign : a.isOperator "=" = true)
      (hFirst : Derives table (.node first) φ)
      (hComma : c.isOperator "," = true)
      (hLast : Derives table (.node last) ψ)
      (hStep : Derives table (.step step) χ)
      (hIn : i.kind = .kwIn)
      (hBody : Derives table (.node body) ω) :
      Derives table
        (.node (.loop counter.value first last step (.block [body])))
        (mark t :: mark counter :: mark a ::
          (φ ++ mark c :: (ψ ++ (χ ++ mark i :: ω))))
  | noStep :
      Derives table (.step Node.one)
        [default (.amount (.real Binary64.one))]
  | step
      {c : Token}
      {e : Node}
      {φ : List Role}
      (hComma : c.isOperator "," = true)
      (hStep : Derives table (.node e) φ) :
      Derives table (.step e) (mark c :: φ)
  | declare
      {t i : Token}
      {names : List (Value × Node)}
      {body : Node}
      {φ ψ : List Role}
      (hVar : t.kind = .kwVar)
      (hNames : Derives table (.names names) φ)
      (hIn : i.kind = .kwIn)
      (hBody : Derives table (.node body) ψ) :
      Derives table (.node (.declare names Node.floatType body))
        (mark t :: (φ ++ mark i :: ψ))
  | lastName
      {t : Token}
      {e : Node}
      {φ : List Role}
      (hName : t.kind = .identifier)
      (hInitial : Derives table (.initial e) φ) :
      Derives table (.names [(t.value, e)]) (mark t :: φ)
  | name
      {t c : Token}
      {e : Node}
      {names : List (Value × Node)}
      {φ ψ : List Role}
      (hName : t.kind = .identifier)
      (hInitial : Derives table (.initial e) φ)
      (hComma : c.isOperator "," = true)
      (hMore : Derives table (.names names) ψ) :
      Derives table (.names ((t.value, e) :: names))
        (mark t :: (φ ++ mark c :: ψ))
  | noInitial :
      Derives table (.initial Node.zero)
        [default (.amount (.real Binary64.zero))]
  | initial
      {a : Token}
      {e : Node}
      {φ : List Role}
      (hAssign : a.isOperator "=" = true)
      (hValue : Derives table (.node e) φ) :
      Derives table (.initial e) (mark a :: φ)
  | ret
      {t : Token}
      {e : Node}
      {φ : List Role}
      (hReturn : t.kind = .kwReturn)
      (hValue : Derives table (.node e) φ) :
      Derives table (.node (.ret e)) (mark t :: φ)
  | noParameters :
      Derives table (.parameters []) []
  | lastParameter
      {t : Token}
      (hName : t.kind = .identifier) :
      Derives table (.parameters [Parse.variableOf t]) [mark t]
  | parameter
      {t c : Token}
      {args : List Node}
      {φ : List Role}
      (hName : t.kind = .identifier)
      (hComma : c.isOperator "," = true)
      (hMore : Derives table (.parameters args) φ) :
      Derives table (.parameters (Parse.variableOf t :: args))
        (mark t :: mark c :: φ)
  | proto
      {t o c : Token}
      {args : List Node}
      {φ : List Role}
      (hName : t.kind = .identifier)
      (hOpening : o.isOperator "(" = true)
      (hParameters : Derives table (.parameters args) φ)
      (hClosing : c.isOperator ")" = true) :
      Derives table
        (.proto (.prototype t.value Node.floatType args t.location.line))
        (mark t :: mark o :: (φ ++ [mark c]))
  | function
      {t c : Token}
      {proto body : Node}
      {φ ψ : List Role}
      (hFunction : t.kind = .kwFunction)
      (hProto : Derives table (.proto proto) φ)
      (hColon : c.isOperator ":" = true)
      (hBody : Derives table (.suite body) ψ) :
      Derives table (.item (.function proto body))
        (mark t :: (φ ++ mark c :: ψ))
  | external
      {t : Token}
      {proto : Node}
      {φ : List Role}
      (hExtern : t.kind = .kwExtern)
      (hProto : Derives table (.proto proto) φ) :
      Derives table (.item proto) (mark t :: φ)
  | expression
      {node : Node}
      {φ : List Role}
      (hNode : Derives table (.node node) φ) :
      Derives table (.item node) φ
  | noItems :
      Derives table (.items []) []
  | semicolon
      {t : Token}
      {nodes : List Node}
      {φ : List Role}
      (hSemicolon : t.isOperator ";" = true)
      (hMore : Derives table (.items nodes) φ) :
      Derives table (.items nodes) (mark t :: φ)
  | item
      {node : Node}
      {nodes : List Node}
      {φ ψ : List Role}
      (hFirst : Derives table (.item node) φ)
      (hMore : Derives table (.items nodes) ψ) :
      Derives table (.items (node :: nodes)) (φ ++ ψ)

end Offside

------------------------------------------------------------
-- Steps and the Tokens They Take
------------------------------------------------------------

namespace Offside.Parse

variable {α β : Type}

/-
  What a step from the token `c` that succeeds has done: the
  relation holds of its result, of roles of the tokens that it
  has taken, and of the token it has come to.
-/
def Yields
    (Q : α → List Role → Token → Prop)
    (c : Token)
    (p : Parse α) :
    Prop :=
  ∀ s a t, s.current = c → p s = .ok a t →
    ∃ φ, s.tokens = Role.tokens φ ++ t.tokens ∧ Q a φ t.current

namespace Yields

variable {P : α → List Role → Token → Prop}
variable {Q : β → List Role → Token → Prop}
variable {c : Token}
variable {p : Parse α}

theorem mono
    {Q : α → List Role → Token → Prop}
    (hStep : Yields P c p)
    (hMore : ∀ a φ d, P a φ d → Q a φ d) :
    Yields Q c p := by
  intro s a t hCurrent hRun
  rcases hStep s a t hCurrent hRun with ⟨φ, hTokens, hHolds⟩
  exact ⟨φ, hTokens, hMore _ _ _ hHolds⟩

theorem pure
    {a : α}
    (hHolds : P a [] c) :
    Yields P c (Pure.pure a) := by
  rintro s b t rfl hRun
  cases hRun
  exact ⟨[], rfl, hHolds⟩

/- A leaf that no token stands for. -/
theorem made
    (value : Value)
    (hStep : Yields (fun a φ => P a (.default value :: φ)) c p) :
    Yields P c p := by
  intro s a t hCurrent hRun
  rcases hStep s a t hCurrent hRun with ⟨φ, hTokens, hHolds⟩
  exact ⟨.default value :: φ, hTokens, hHolds⟩

theorem throw
    (e : ParseError) :
    Yields P c (MonadExcept.throw e) := by
  intro s a t _ hRun
  cases hRun

theorem fail
    {k : α → Parse β}
    (e : ParseError) :
    Yields Q c (MonadExcept.throw e >>= k) := by
  intro s b u _ hRun
  cases hRun

theorem ite
    {condition : Prop}
    [Decidable condition]
    {q : Parse α}
    (hYes : condition → Yields P c p)
    (hNo : ¬condition → Yields P c q) :
    Yields P c (if condition then p else q) := by
  split
  · rename_i hCond
    exact hYes hCond
  · rename_i hCond
    exact hNo hCond

/- What the second step takes comes after what the first one takes. -/
theorem bind
    {k : α → Parse β}
    (hStep : Yields P c p)
    (hNext : ∀ a φ d, P a φ d →
      Yields (fun b ψ => Q b (φ ++ ψ)) d (k a)) :
    Yields Q c (p >>= k) := by
  intro s b u hCurrent hRun
  rcases Steps.bind_eq_ok hRun with ⟨a, t, hFirst, hSecond⟩
  rcases hStep s a t hCurrent hFirst with ⟨φ, hTokens, hHolds⟩
  rcases hNext a φ _ hHolds t b u rfl hSecond with ⟨ψ, hMore, hBoth⟩
  refine ⟨φ ++ ψ, ?_, hBoth⟩
  rw [hTokens, hMore, Role.tokens_append, List.append_assoc]

/- A step that looks at the current token. -/
theorem look
    {a : α}
    {k : α → Parse β}
    (hLook : ∀ s, s.current = c → p s = .ok a s)
    (hNext : Yields Q c (k a)) :
    Yields Q c (p >>= k) := by
  intro s b u hCurrent hRun
  rw [Steps.bind_ok (hLook s hCurrent)] at hRun
  exact hNext s b u hCurrent hRun

variable {k : Unit → Parse β}

theorem current
    {k : Token → Parse β}
    (hNext : Yields Q c (k c)) :
    Yields Q c (Parse.current >>= k) := by
  apply look _ hNext
  rintro s rfl
  rfl

theorem atOperator
    {operator : String}
    {k : Bool → Parse β}
    (hNext : Yields Q c (k (c.isOperator operator))) :
    Yields Q c (Parse.atOperator operator >>= k) := by
  apply look _ hNext
  rintro s rfl
  rfl

theorem atKind
    {kind : Kind}
    {k : Bool → Parse β}
    (hNext : Yields Q c (k (c.kind = kind))) :
    Yields Q c (Parse.atKind kind >>= k) := by
  apply look _ hNext
  rintro s rfl
  rfl

theorem expectOperator
    {operator : String}
    {what : Expectation}
    (hNext : c.isOperator operator = true → Yields Q c (k ())) :
    Yields Q c (Parse.expectOperator operator what >>= k) := by
  rintro s b u rfl hRun
  rcases Steps.bind_eq_ok hRun with ⟨_, t, hFirst, hSecond⟩
  rcases expectOperator_eq_ok hFirst with ⟨hOperator, rfl⟩
  exact hNext hOperator t b u rfl hSecond

theorem expectKind
    {kind : Kind}
    {what : Expectation}
    (hNext : c.kind = kind → Yields Q c (k ())) :
    Yields Q c (Parse.expectKind kind what >>= k) := by
  rintro s b u rfl hRun
  rcases Steps.bind_eq_ok hRun with ⟨_, t, hFirst, hSecond⟩
  rcases expectKind_eq_ok hFirst with ⟨hKind, rfl⟩
  exact hNext hKind t b u rfl hSecond

theorem expectColon
    {keyword : String}
    (hNext : c.isOperator ":" = true → Yields Q c (k ())) :
    Yields Q c (Parse.expectColon keyword >>= k) := by
  rintro s b u rfl hRun
  rcases Steps.bind_eq_ok hRun with ⟨_, t, hFirst, hSecond⟩
  rcases expectColon_eq_ok hFirst with ⟨hColon, rfl⟩
  exact hNext hColon t b u rfl hSecond

theorem state
    {k : ParseState → Parse β}
    (hNext : ∀ s, Yields Q c (k s)) :
    Yields Q c (get >>= k) := by
  intro s b u hCurrent hRun
  rw [Steps.bind_ok (Steps.get_apply s)] at hRun
  exact hNext s s b u hCurrent hRun

theorem modifyLevel
    (change : Amount → Amount)
    (hNext : Yields Q c (k ())) :
    Yields Q c
      ((modify fun s => { s with level := change s.level }) >>= k) := by
  intro s b u hCurrent hRun
  rw [Steps.bind_ok (Steps.modify_apply _ s)] at hRun
  exact hNext { s with level := change s.level } b u hCurrent hRun

/- The current token is taken in a role. -/
theorem take
    (role : Role)
    (hRole : role.token? = some c)
    (hNext : ∀ d, Yields (fun b φ => Q b (role :: φ)) d (k ())) :
    Yields Q c (advance >>= k) := by
  rintro ⟨t, ts, level⟩ b u rfl hRun
  cases ts with
  | nil => cases hRun
  | cons v vs =>
      rw [Steps.bind_ok (advance_apply t v vs level)] at hRun
      rcases hNext v _ b u rfl hRun with ⟨φ, hTokens, hHolds⟩
      refine ⟨role :: φ, ?_, hHolds⟩
      have hTaken : Role.tokens (role :: φ) = t :: Role.tokens φ := by
        simp [Role.tokens, hRole]
      rw [hTaken, List.cons_append, ← hTokens]
      rfl

/- It is there for none of the special reasons. -/
theorem pass
    (hNext : ∀ d, Yields (fun b φ => Q b (.mark c :: φ)) d (k ())) :
    Yields Q c (advance >>= k) :=
  take (.mark c) rfl hNext

end Yields

end Offside.Parse

------------------------------------------------------------
-- Productions
------------------------------------------------------------

namespace Offside.Parse

variable (table : Precedence)

/- A node that is derived from the tokens that were taken. -/
def Built
    (node : Node)
    (φ : List Role)
    (_ : Token) :
    Prop :=
  Derives table (.node node) φ

/- A block that is, with the token that opens it. -/
def BuiltBlock
    (t : Token)
    (node : Node)
    (φ : List Role)
    (_ : Token) :
    Prop :=
  ∃ ψ, φ = .opener t :: ψ ∧ Derives table (.suite node) φ

/- Arguments that are, before the closing parenthesis. -/
def BuiltArguments
    (es : List Node)
    (φ : List Role)
    (d : Token) :
    Prop :=
  Derives table (.arguments es) φ ∧ es ≠ [] ∧ d.isOperator ")" = true

/- Lines that are. -/
def BuiltLines
    (es : List Node)
    (φ : List Role)
    (_ : Token) :
    Prop :=
  Derives table (.lines es) φ ∧ es ≠ []

/- Names that are. -/
def BuiltNames
    (names : List (Value × Node))
    (φ : List Role)
    (_ : Token) :
    Prop :=
  Derives table (.names names) φ

/- What follows a left operand, however that is derived. -/
def BuiltOn
    (lhs node : Node)
    (φ : List Role)
    (_ : Token) :
    Prop :=
  ∀ ψ, Derives table (.node lhs) ψ → Derives table (.node node) (ψ ++ φ)

namespace Yields

variable {table : Precedence}
variable {c : Token}
variable {p q : Parse Node}
variable {ps : Parse (List Node)}
variable {entries : Parse (List (Value × Node))}

theorem literal
    (hKind : c.kind = .floatLiteral) :
    Yields (Built table) c literal :=
  current (take (.leaf c) rfl fun _ => pure (.literal hKind))

theorem parenthesized
    (hInner : ∀ d, Yields (Built table) d p)
    (hOpening : c.isOperator "(" = true) :
    Yields (Built table) c (parenthesized p) :=
  pass fun d => (hInner d).bind fun _ _ _ hBuilt =>
    expectOperator fun hClosing => pass fun _ =>
      pure (.parenthesized hOpening hBuilt hClosing)

theorem arguments
    (hArgument : ∀ d, Yields (Built table) d p)
    (hMore : ∀ d, Yields (BuiltArguments table) d ps) :
    Yields (BuiltArguments table) c (arguments p ps) := by
  refine (hArgument c).bind fun e φ d hFirst =>
    atOperator (ite (fun hClosing => pure ?_) fun _ => ?_)
  · rw [List.append_nil]
    exact ⟨.lastArgument hFirst, by simp, hClosing⟩
  · refine expectOperator fun hComma => pass fun u =>
      (hMore u).bind fun es ψ v hOthers => pure ?_
    rcases hOthers with ⟨hBuilt, hSome, hClosing⟩
    rw [List.append_nil]
    exact ⟨.argument hFirst hComma hSome hBuilt, by simp, hClosing⟩

theorem named
    (hArguments : ∀ d, Yields (BuiltArguments table) d ps)
    (hKind : c.kind = .identifier) :
    Yields (Built table) c (named ps) := by
  refine current (pass fun d => atOperator (ite (fun hOpening => ?_)
    fun _ => pure (.reference hKind)))
  refine pass fun u => bind
    (P := fun es φ v => Derives table (.arguments es) φ ∧
      v.isOperator ")" = true) ?_
    fun es φ v hBuilt => pass fun _ =>
      pure (.call hKind hOpening hBuilt.1 hBuilt.2)
  refine atOperator (ite (fun hClosing => pure ⟨.noArguments, hClosing⟩)
    fun _ => (hArguments u).mono fun es φ v hBuilt => ?_)
  exact ⟨hBuilt.1, hBuilt.2.2⟩

theorem unary
    (hPrimary : c.kind ≠ .operator ∨ c.isOperator "(" = true ∨
      c.isOperator "," = true → Yields (Built table) c p)
    (hOperand : ∀ d, Yields (Built table) d q) :
    Yields (Built table) c (unary p q) := by
  refine current (ite hPrimary fun hOperator => ?_)
  rw [not_or, not_not] at hOperator
  refine pass fun d => (hOperand d).bind fun e φ u hBuilt => pure ?_
  rw [List.append_nil]
  exact .unary hOperator.1 hBuilt

theorem binaryRest
    (hUnary : ∀ d, Yields (Built table) d p)
    {rest : Int → Node → Parse Node}
    (hRest : ∀ d least lhs, 0 ≤ least →
      Yields (BuiltOn table lhs) d (rest least lhs))
    {least : Int}
    (lhs : Node)
    (hLeast : 0 ≤ least) :
    Yields (BuiltOn table lhs) c
      (binaryRest table p rest least lhs) := by
  refine current (ite (fun _ => pure ?_) fun hBinds => ?_)
  · intro ψ hLhs
    rwa [List.append_nil]
  · have hAbove : 0 ≤ table.of c.value := by omega
    refine pass fun d => (hUnary d).bind fun operand φ u hOperand =>
      bind (P := BuiltOn table operand) ?_ fun rhs ψ v hRhs =>
        (hRest v least _ hLeast).mono fun node χ w hNode ω hLhs => ?_
    · refine current (ite (fun _ => hRest _ _ _ (by omega))
        fun _ => pure ?_)
      intro ψ hSame
      rwa [List.append_nil]
    · have hBoth := hNode _ (.binary hLhs hAbove (hRhs φ hOperand))
      simpa using hBoth

theorem expression
    (hUnary : Yields (Built table) c p)
    {rest : Int → Node → Parse Node}
    (hRest : ∀ d least lhs, 0 ≤ least →
      Yields (BuiltOn table lhs) d (rest least lhs)) :
    Yields (Built table) c (expression p rest) :=
  hUnary.bind fun lhs φ d hLhs =>
    (hRest d 0 lhs le_rfl).mono fun _ _ _ hNode => hNode φ hLhs

theorem lines
    (hLine : ∀ d, Yields (Built table) d p)
    {more : Amount → Parse (List Node)}
    (hMore : ∀ d indent, Yields (BuiltLines table) d (more indent))
    (indent : Amount) :
    Yields (BuiltLines table) c (lines p more indent) := by
  refine (hLine c).bind fun e φ d hFirst => current ?_
  have hOne : Yields (fun es ψ => BuiltLines table es (φ ++ ψ)) d
      (Pure.pure [e]) := by
    apply pure
    rw [List.append_nil]
    exact ⟨.lastLine hFirst, by simp⟩
  refine ite (fun _ => hOne) fun hKind => ?_
  rw [not_not] at hKind
  cases hValue : d.value with
  | text s => exact throw _
  | amount found =>
      refine ite (fun _ => hOne) fun _ => ite (fun _ => fail _)
        fun _ => pass fun u => (hMore u indent).bind
          fun es ψ v hOthers => pure ?_
      rw [List.append_nil]
      exact ⟨.line hFirst hKind hValue hOthers.2 hOthers.1, by simp⟩

theorem block
    {lines : Amount → Parse (List Node)}
    (hLines : ∀ d indent, Yields (BuiltLines table) d (lines indent)) :
    Yields (BuiltBlock table c) c (block lines) := by
  refine current (take (.opener c) rfl fun d => state fun s => ?_)
  cases hValue : c.value with
  | text w => exact throw _
  | amount indent =>
      refine ite (fun _ => fail _) fun _ => ?_
      refine bind (P := fun nodes φ _ => Derives table (.lines nodes) φ)
        ?_ fun nodes φ u hNodes =>
          modifyLevel (fun level => level.minus levelWidth) (pure ?_)
      · exact ite (fun _ => modifyLevel (fun _ => indent)
          ((hLines d indent).mono fun _ _ _ hBuilt => hBuilt.1))
          fun _ => pure .noLines
      · rw [List.append_nil]
        exact ⟨φ, rfl, .suite hValue hNodes⟩

theorem branch
    (hCondition : ∀ d, Yields (Built table) d p)
    (hBlock : ∀ d, Yields (BuiltBlock table d) d q)
    (hKind : c.kind = .kwIf) :
    Yields (Built table) c (branch p q) := by
  refine current (pass fun d => (hCondition d).bind fun cond φ u hCond =>
    expectColon fun hColon => pass fun v => (hBlock v).bind
      fun yes ψ w hYes => atKind ?_)
  -- What may stand before `else` is the same in both cases.
  have hElse : ∀ {passed}, IsPassed passed → ∀ x, Yields
      (fun node χ _ => Built table node
        (.mark c :: (φ ++ .mark u :: (ψ ++ (passed ++ χ)))) x) x (do
      let no ← (do
        if ← Parse.atKind .kwElse then
          advance
          Parse.expectColon "else"
          advance
          q
        else return .block [])
      return .branch cond yes no c.location) := by
    intro passed hPassed x
    refine bind (P := fun no χ _ =>
      Derives table (.otherwise no) (passed ++ χ)) ?_
      fun no χ y hNo => pure ?_
    · refine atKind (ite (fun hKindElse => ?_) fun _ => pure ?_)
      · refine pass fun y => expectColon fun hSecond => pass fun z =>
          (hBlock z).mono fun no χ _ hNo => ?_
        rcases hNo with ⟨_, _, hNo⟩
        exact .otherwise hPassed (of_decide_eq_true hKindElse) hSecond hNo
      · rw [List.append_nil]
        exact .elseless hPassed
    · rcases hYes with ⟨_, _, hYes⟩
      rw [List.append_nil]
      exact .branch hKind hCond hColon hYes hNo
  refine ite (fun hIndent => ?_) fun _ => hElse (.inl rfl) w
  exact pass (hElse (.inr ⟨w, of_decide_eq_true hIndent, rfl⟩))

theorem loop
    (hPart : ∀ d, Yields (Built table) d p)
    (hKind : c.kind = .kwFor) :
    Yields (Built table) c (loop p) := by
  refine pass fun counter => expectKind fun hName => current (pass
    fun a => expectOperator fun hAssign => pass fun v =>
      (hPart v).bind fun first φ w hFirst => expectOperator
        fun hComma => pass fun x => (hPart x).bind
          fun last ψ y hLast => ?_)
  refine bind (P := fun step χ _ => Derives table (.step step) χ) ?_
    fun step χ z hStep => expectKind fun hIn => pass fun z' =>
      (hPart z').bind fun body ω _ hBody => pure ?_
  · exact atOperator (ite
      (fun hSecond => pass fun z => (hPart z).mono
        fun _ _ _ hBuilt => .step hSecond hBuilt)
      fun _ => made _ (pure .noStep))
  · rw [List.append_nil]
    exact .loop hKind hName hAssign hFirst hComma hLast hStep hIn hBody

theorem bindings
    (hValue : ∀ d, Yields (Built table) d p)
    (hMore : ∀ d, d.kind = .identifier →
      Yields (BuiltNames table) d entries)
    (hKind : c.kind = .identifier) :
    Yields (BuiltNames table) c (bindings p entries) := by
  refine current (pass fun d =>
    bind (P := fun e φ _ => Derives table (.initial e) φ) ?_
      fun value φ u hInitial =>
        atOperator (ite (fun hComma => ?_) fun _ => pure ?_))
  · exact atOperator (ite
      (fun hAssign => pass fun v => (hValue v).mono
        fun _ _ _ hBuilt => .initial hAssign hBuilt)
      fun _ => made _ (pure .noInitial))
  · refine pass fun v => expectKind fun hName =>
      (hMore v hName).bind fun others ψ w hOthers => pure ?_
    rw [List.append_nil]
    exact .name hKind hInitial hComma hOthers
  · rw [List.append_nil]
    exact .lastName hKind hInitial

theorem declaration
    (hBody : ∀ d, Yields (Built table) d p)
    (hEntries : ∀ d, d.kind = .identifier →
      Yields (BuiltNames table) d entries)
    (hKind : c.kind = .kwVar) :
    Yields (Built table) c (declaration p entries) := by
  refine pass fun d => expectKind fun hName => (hEntries d hName).bind
    fun names φ u hNames => expectKind fun hIn => pass fun v =>
      (hBody v).bind fun body ψ w hInner => pure ?_
  rw [List.append_nil]
  exact .declare hKind hNames hIn hInner

theorem returned
    (hValue : ∀ d, Yields (Built table) d p)
    (hKind : c.kind = .kwReturn) :
    Yields (Built table) c (returned p) := by
  refine pass fun d => (hValue d).bind fun value φ u hInner => pure ?_
  rw [List.append_nil]
  exact .ret hKind hInner

theorem unknown :
    Yields (Built table) c unknown :=
  current (pass fun _ => throw _)

/- A primary expression, at a token that is no operator before it. -/
theorem primary
    {parts : Parts}
    (hExpression : ∀ d, Yields (Built table) d parts.expression)
    (hArguments : ∀ d, Yields (BuiltArguments table) d parts.arguments)
    (hEntries : ∀ d, d.kind = .identifier →
      Yields (BuiltNames table) d parts.bindings)
    (hBlock : ∀ d, Yields (BuiltBlock table d) d parts.block)
    (hStart : c.kind ≠ .operator ∨ c.isOperator "(" = true ∨
      c.isOperator "," = true) :
    Yields (Built table) c (primary parts) := by
  refine current ?_
  cases hKind : c.kind
  case identifier => exact named hArguments hKind
  case floatLiteral => exact literal hKind
  case kwIf => exact branch hExpression hBlock hKind
  case kwFor => exact loop hExpression hKind
  case kwVar => exact declaration hExpression hEntries hKind
  case kwReturn => exact returned hExpression hKind
  case indent =>
    refine (hBlock c).mono fun node φ d hBuilt => ?_
    rcases hBuilt with ⟨ψ, rfl, hBlock⟩
    exact .nested hKind hBlock
  case operator =>
    refine ite (parenthesized hExpression) fun hOther =>
      ite (fun hSemicolon => ?_) fun _ => unknown
    rcases hStart with hNone | hOpening | hComma
    · exact absurd hKind hNone
    · exact absurd hOpening hOther
    · simp only [Token.isOperator, Bool.and_eq_true, decide_eq_true_eq]
        at hSemicolon hComma
      exact absurd (hSemicolon.2.symm.trans hComma.2) (by simp)
  all_goals exact unknown

/- Names and commas are taken up to another token. -/
theorem parametersFrom_derives
    (table : Precedence)
    {s t : ParseState}
    {ts : List Token}
    {args : List Node}
    (hRun : parametersFrom s ts = .ok args t) :
    ∃ φ, ts = Role.tokens φ ++ t.tokens ∧
      Derives table (.parameters args) φ := by
  fun_induction Parse.parametersFrom s ts generalizing args t with
  | case4 s u v ts hName hComma nodes s' hMore ih =>
      cases hRun
      rcases ih hMore with ⟨φ, rfl, hOthers⟩
      exact ⟨.mark u :: .mark v :: φ, rfl, .parameter hName hComma hOthers⟩
  | case6 s u v ts hName hComma =>
      cases hRun
      exact ⟨[.mark u], rfl, .lastParameter hName⟩
  | case3 | case7 =>
      cases hRun
      exact ⟨[], rfl, .noParameters⟩
  | case1 | case2 | case5 => cases hRun

theorem parameters
    (table : Precedence) :
    Yields (fun args φ _ => ∃ ψ, φ = .mark c :: ψ ∧
      Derives table (.parameters args) ψ) c parameters := by
  rintro s args t rfl hRun
  rcases parametersFrom_derives table hRun with ⟨φ, hTokens, hArgs⟩
  refine ⟨.mark s.current :: φ, ?_, φ, rfl, hArgs⟩
  rw [Role.tokens_mark, List.cons_append, ← hTokens]
  rfl

theorem externPrototype :
    Yields (fun node φ _ => Derives table (.proto node) φ) c
      externPrototype := by
  refine current (expectKind fun hName => pass fun d =>
    expectOperator fun hOpening => (parameters table).bind
      fun args φ u hArgs => expectOperator fun hClosing =>
        pass fun _ => pure ?_)
  rcases hArgs with ⟨ψ, rfl, hArgs⟩
  exact .proto hName hOpening hArgs hClosing

theorem function
    (hBlock : ∀ d, Yields (BuiltBlock table d) d p)
    (hKind : c.kind = .kwFunction) :
    Yields (fun node φ _ => Derives table (.item node) φ) c
      (function p) := by
  refine pass fun d => bind (P := fun node φ _ =>
    ∃ ψ t, φ = ψ ++ [.mark t] ∧ Derives table (.proto node) ψ ∧
      t.isOperator ":" = true) ?_ fun proto φ u hProto =>
      (hBlock u).bind fun body χ v hBody => pure ?_
  · exact externPrototype.bind fun proto φ u hProto =>
      expectOperator fun hColon => pass fun _ =>
        pure ⟨φ, u, rfl, hProto, hColon⟩
  · rcases hProto with ⟨ψ, t, rfl, hProto, hColon⟩
    rcases hBody with ⟨_, _, hBody⟩
    rw [List.append_nil, List.append_assoc]
    exact .function hKind hProto hColon hBody

theorem external
    (hKind : c.kind = .kwExtern) :
    Yields (fun node φ _ => Derives table (.item node) φ) c external :=
  pass fun _ => externPrototype.mono fun _ _ _ hProto =>
    .external hKind hProto

end Yields

end Offside.Parse

------------------------------------------------------------
-- The Grammar
------------------------------------------------------------

namespace Offside

/- The first end among the tokens of a text is the last token. -/
theorem Token.eq_of_append_end
    {ts taken : List Token}
    {e : Token}
    (hInner : ∀ t ∈ ts, t.kind ≠ .endOfText)
    {s : ParseState}
    (hTokens : taken ++ s.tokens = ts ++ [e])
    (hEnd : s.current.kind = .endOfText) :
    taken = ts := by
  rcases List.append_eq_append_iff.mp hTokens with
    ⟨more, hMore, hRest⟩ | ⟨more, hMore, hRest⟩
  · cases more with
    | nil => rw [hMore, List.append_nil]
    | cons u us =>
        injection hRest with hFirst _
        have hMem : u ∈ ts := by simp [hMore]
        rw [hFirst] at hEnd
        exact absurd hEnd (hInner u hMem)
  · cases more with
    | nil => rw [hMore, List.append_nil]
    | cons u us =>
        have hCount := congrArg List.length hRest
        simp [ParseState.tokens] at hCount

end Offside

namespace Offside.Grammar

open Parse (Yields Built BuiltOn BuiltBlock BuiltArguments BuiltLines
  BuiltNames)

/- What all productions derive, at one allowance. -/
structure AllYield
    (table : Precedence)
    (n : Nat) :
    Prop where
  primary : ∀ c : Token,
    c.kind ≠ .operator ∨ c.isOperator "(" = true ∨
      c.isOperator "," = true →
    Yields (Built table) c (primary table n)
  unary : ∀ c, Yields (Built table) c (unary table n)
  binaryRest : ∀ c least lhs, 0 ≤ least →
    Yields (BuiltOn table lhs) c (binaryRest table n least lhs)
  expression : ∀ c, Yields (Built table) c (expression table n)
  arguments : ∀ c, Yields (BuiltArguments table) c (arguments table n)
  bindings : ∀ c : Token, c.kind = .identifier →
    Yields (BuiltNames table) c (bindings table n)
  lines : ∀ c indent,
    Yields (BuiltLines table) c (lines table n indent)
  block : ∀ c, Yields (BuiltBlock table c) c (block table n)

/- What is parsed is derived from the tokens that were taken. -/
theorem yields
    (table : Precedence)
    (n : Nat) :
    AllYield table n := by
  induction n with
  | zero =>
      constructor
      case binaryRest => exact fun _ _ _ _ => Yields.throw _
      case primary => exact fun _ _ => Yields.throw _
      case bindings => exact fun _ _ => Yields.throw _
      case lines => exact fun _ _ => Yields.throw _
      all_goals exact fun _ => Yields.throw _
  | succ n ih =>
      constructor
      case primary =>
        exact fun _ => Yields.primary ih.expression ih.arguments
          ih.bindings ih.block
      case unary => exact fun c => Yields.unary (ih.primary c) ih.unary
      case binaryRest =>
        exact fun _ _ lhs hLeast =>
          Yields.binaryRest ih.unary ih.binaryRest lhs hLeast
      case expression =>
        exact fun c => Yields.expression (ih.unary c) ih.binaryRest
      case arguments =>
        exact fun _ => Yields.arguments ih.expression ih.arguments
      case bindings =>
        exact fun _ => Yields.bindings ih.expression ih.bindings
      case lines =>
        exact fun _ indent => Yields.lines ih.expression ih.lines indent
      case block => exact fun _ => Yields.block ih.lines

/- So is an item of a program. -/
theorem item_yields
    (table : Precedence)
    (n : Nat)
    (c : Token) :
    Yields (fun node φ _ => Derives table (.item node) φ) c
      (match c.kind with
      | .kwFunction => Parse.function (block table n)
      | .kwExtern => Parse.external
      | _ => expression table n) := by
  have hAll := yields table n
  split
  · rename_i hKind
    exact Yields.function hAll.block hKind
  · rename_i hKind
    exact Yields.external hKind
  · exact (hAll.expression c).mono fun _ _ _ hNode => .expression hNode

/- So are all items, up to the end of the text. -/
theorem items_yields
    (table : Precedence)
    (n : Nat)
    (c : Token) :
    Yields (fun nodes φ d =>
        Derives table (.items nodes) φ ∧ d.kind = .endOfText)
      c (items table n) := by
  induction n generalizing c with
  | zero => exact Yields.throw _
  | succ n ih =>
      refine Yields.current (Yields.ite
        (fun hEnd => Yields.pure ⟨.noItems, hEnd⟩) fun _ => ?_)
      refine Yields.ite (fun hSemicolon => Yields.pass fun d =>
        (ih d).mono fun nodes φ u hMore =>
          ⟨.semicolon hSemicolon hMore.1, hMore.2⟩) fun _ => ?_
      refine (item_yields table n c).bind
        fun item φ d hItem => (ih d).bind fun others ψ u hOthers =>
          Yields.pure ⟨?_, hOthers.2⟩
      rw [List.append_nil]
      exact .item hItem hOthers.1

/- The items of a text are derived from all its tokens but the end. -/
theorem items_derives
    {table : Precedence}
    {n : Nat}
    {level : Amount}
    {ts : List Token}
    {e : Token}
    (hInner : ∀ t ∈ ts, t.kind ≠ .endOfText)
    {nodes : List Node}
    {s : ParseState}
    (hRun : items table n (.before level (ts ++ [e])) = .ok nodes s) :
    ∃ φ, Role.tokens φ = ts ∧ Derives table (.items nodes) φ := by
  rcases items_yields table _ _ _ nodes s rfl hRun with
    ⟨φ, hTokens, hDerives, hEnd⟩
  rw [ParseState.tokens_before (by simp)] at hTokens
  exact ⟨φ, Token.eq_of_append_end hInner hTokens.symm hEnd, hDerives⟩

end Offside.Grammar
