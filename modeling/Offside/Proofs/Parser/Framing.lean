import Mathlib
import Offside.Proofs.Node.Tree
import Offside.Proofs.Parser.Derivation

/-
  Framings: where the blocks of a program begin and end among its
  tokens, and which level of indentation is left after each part.

  Key definitions include:
    * `Offside.Edge`
    * `Offside.Edge.Leads`
    * `Offside.Framed`
    * `Offside.Parse.Frames`

  Main statements:
    * `Offside.Framed.allFilled_iff`,
      `Offside.Edge.Leads.allFilled_iff`: all definitions have lines
      if and only if each is opened deeper than the level before it.
    * `Offside.Grammar.frames`: what is parsed has a framing of the
      tokens that were taken.
    * `Offside.Grammar.items_framed`: so have the items of a text.
-/

------------------------------------------------------------
-- Edges
------------------------------------------------------------

namespace Offside

/-
  What a block is opened for: as the body of a function or the
  first block of a branch, or for something else.
-/
inductive Opening where
  | definition
  | other
  deriving DecidableEq, Repr

/-
  A token, one that opens a block, with whether the block has
  lines, or the end of a block.
-/
inductive Edge where
  | token (t : Token)
  | opens (opening : Opening) (filled : Bool) (t : Token)
  | closes
  deriving DecidableEq, Repr

namespace Edge

def token? :
    Edge →
    Option Token
  | token t | opens _ _ t => some t
  | closes => none

/- The tokens of a framing. -/
def tokens
    (ω : List Edge) :
    List Token :=
  ω.filterMap token?

@[simp] theorem tokens_nil :
    tokens [] = [] :=
  rfl

@[simp] theorem tokens_token
    (t : Token)
    (ω : List Edge) :
    tokens (token t :: ω) = t :: tokens ω :=
  rfl

@[simp] theorem tokens_opens
    (opening : Opening)
    (filled : Bool)
    (t : Token)
    (ω : List Edge) :
    tokens (opens opening filled t :: ω) = t :: tokens ω :=
  rfl

@[simp] theorem tokens_closes
    (ω : List Edge) :
    tokens (closes :: ω) = tokens ω :=
  rfl

@[simp] theorem tokens_append
    (ω ψ : List Edge) :
    tokens (ω ++ ψ) = tokens ω ++ tokens ψ :=
  List.filterMap_append

/-
  How the level goes along a framing.  A block that is opened
  deeper than the level has lines and takes the level there; one
  that is opened above it has none.  At the end of either the level
  is lowered by the same width.
-/
inductive Leads :
    Amount →
    List Edge →
    Amount →
    Prop where
  | nil
      {level : Amount} :
      Leads level [] level
  | token
      {level final : Amount}
      {t : Token}
      {ω : List Edge}
      (hMore : Leads level ω final) :
      Leads level (.token t :: ω) final
  | deeper
      {level indent final : Amount}
      {opening : Opening}
      {t : Token}
      {ω : List Edge}
      (hValue : t.value = .amount indent)
      (hLess : level.less indent = true)
      (hMore : Leads indent ω final) :
      Leads level (.opens opening true t :: ω) final
  | shallower
      {level indent final : Amount}
      {opening : Opening}
      {t : Token}
      {ω : List Edge}
      (hValue : t.value = .amount indent)
      (hSame : indent.same level = false)
      (hLess : level.less indent = false)
      (hMore : Leads level ω final) :
      Leads level (.opens opening false t :: ω) final
  | closes
      {level final : Amount}
      {ω : List Edge}
      (hMore : Leads (level.minus Parse.levelWidth) ω final) :
      Leads level (.closes :: ω) final

namespace Leads

variable {level middle final : Amount}
variable {ω ψ : List Edge}

theorem append
    (hFirst : Leads level ω middle)
    (hSecond : Leads middle ψ final) :
    Leads level (ω ++ ψ) final := by
  induction hFirst with
  | nil => exact hSecond
  | token _ ih => exact .token (ih hSecond)
  | deeper hValue hLess _ ih => exact .deeper hValue hLess (ih hSecond)
  | shallower hValue hSame hLess _ ih =>
      exact .shallower hValue hSame hLess (ih hSecond)
  | closes _ ih => exact .closes (ih hSecond)

/- The level between two parts. -/
theorem exists_of_append
    (hLeads : Leads level (ω ++ ψ) final) :
    ∃ middle, Leads level ω middle ∧ Leads middle ψ final := by
  induction ω generalizing level with
  | nil => exact ⟨level, .nil, hLeads⟩
  | cons edge ω ih =>
      cases hLeads with
      | token hMore =>
          rcases ih hMore with ⟨middle, hFirst, hSecond⟩
          exact ⟨middle, .token hFirst, hSecond⟩
      | deeper hValue hLess hMore =>
          rcases ih hMore with ⟨middle, hFirst, hSecond⟩
          exact ⟨middle, .deeper hValue hLess hFirst, hSecond⟩
      | shallower hValue hSame hLess hMore =>
          rcases ih hMore with ⟨middle, hFirst, hSecond⟩
          exact ⟨middle, .shallower hValue hSame hLess hFirst, hSecond⟩
      | closes hMore =>
          rcases ih hMore with ⟨middle, hFirst, hSecond⟩
          exact ⟨middle, .closes hFirst, hSecond⟩

theorem unique
    (hOne : Leads level ω middle)
    (hOther : Leads level ω final) :
    middle = final := by
  induction hOne with
  | nil =>
      cases hOther
      rfl
  | token _ ih =>
      cases hOther with
      | token hMore => exact ih hMore
  | deeper hValue _ _ ih =>
      cases hOther with
      | deeper hValue' _ hMore =>
          rw [hValue] at hValue'
          cases hValue'
          exact ih hMore
  | shallower _ _ _ _ ih =>
      cases hOther with
      | shallower _ _ _ hMore => exact ih hMore
  | closes _ ih =>
      cases hOther with
      | closes hMore => exact ih hMore

end Leads

/- Whether all definitions of a framing have lines. -/
def AllFilled
    (ω : List Edge) :
    Prop :=
  ∀ filled t, .opens .definition filled t ∈ ω → filled = true

/-
  Whether each definition is opened deeper than the level that the
  edges before it lead to.
-/
def Descends
    (level : Amount)
    (ω : List Edge) :
    Prop :=
  ∀ before filled t after reached,
    ω = before ++ .opens .definition filled t :: after →
    Leads level before reached →
    ∃ indent, t.value = .amount indent ∧ reached.less indent = true

/- It is the level that tells whether a definition has lines. -/
theorem Leads.allFilled_iff
    {level final : Amount}
    {ω : List Edge}
    (hLeads : Leads level ω final) :
    AllFilled ω ↔ Descends level ω := by
  constructor
  · rintro hFilled before filled t after reached rfl hBefore
    rcases hLeads.exists_of_append with ⟨middle, hFirst, hSecond⟩
    rw [hBefore.unique hFirst]
    rw [hFilled filled t (by simp)] at hSecond
    cases hSecond with
    | deeper hValue hLess _ => exact ⟨_, hValue, hLess⟩
  · intro hDescends filled t hMem
    rcases List.append_of_mem hMem with ⟨before, after, rfl⟩
    rcases hLeads.exists_of_append with ⟨middle, hFirst, hSecond⟩
    rcases hDescends before filled t after middle rfl hFirst with
      ⟨indent, hValue, hLess⟩
    cases hSecond with
    | deeper _ _ _ => rfl
    | shallower hValue' _ hOther _ =>
        rw [hValue] at hValue'
        cases hValue'
        rw [hLess] at hOther
        cases hOther

section AllFilled

variable (ω ψ : List Edge)

@[simp] theorem allFilled_nil :
    AllFilled [] := by
  simp [AllFilled]

@[simp] theorem allFilled_token
    (t : Token) :
    AllFilled (.token t :: ω) ↔ AllFilled ω := by
  simp [AllFilled]

@[simp] theorem allFilled_definition
    (filled : Bool)
    (t : Token) :
    AllFilled (.opens .definition filled t :: ω) ↔
      filled = true ∧ AllFilled ω := by
  unfold AllFilled
  constructor
  · intro hAll
    exact ⟨hAll filled t List.mem_cons_self,
      fun filled' t' hMem => hAll filled' t' (List.mem_cons_of_mem _ hMem)⟩
  · rintro ⟨hFirst, hMore⟩ filled' t' hMem
    rcases List.mem_cons.mp hMem with hSame | hMem
    · cases hSame
      exact hFirst
    · exact hMore filled' t' hMem

@[simp] theorem allFilled_other
    (filled : Bool)
    (t : Token) :
    AllFilled (.opens .other filled t :: ω) ↔ AllFilled ω := by
  simp [AllFilled]

@[simp] theorem allFilled_closes :
    AllFilled (.closes :: ω) ↔ AllFilled ω := by
  simp [AllFilled]

@[simp] theorem allFilled_append :
    AllFilled (ω ++ ψ) ↔ AllFilled ω ∧ AllFilled ψ := by
  simp only [AllFilled, List.mem_append, or_imp, forall_and]

end AllFilled

end Edge

end Offside

------------------------------------------------------------
-- Framings
------------------------------------------------------------

namespace Offside

namespace Node

/- Whether a definition has a line: other nodes are none. -/
def IsFilled :
    Node →
    Prop
  | function _ body => ∃ node nodes, body = .block (node :: nodes)
  | branch _ yes _ _ => ∃ node nodes, yes = .block (node :: nodes)
  | _ => True

/- Whether a node has no blocks for its parts and is none. -/
def IsPlain :
    Node →
    Prop
  | branch .. | loop .. | function .. | program .. | block .. => False
  | _ => True

theorem IsPlain.isFilled
    {node : Node}
    (hPlain : node.IsPlain) :
    node.IsFilled := by
  cases node with
  | branch cond yes no location => exact hPlain.elim
  | function proto body => exact hPlain.elim
  | _ => trivial

/- Whether all definitions in some trees have lines. -/
def AllFilled
    (trees : List Node) :
    Prop :=
  ∀ tree ∈ trees, ∀ node ∈ tree.preorder, node.IsFilled

@[simp] theorem allFilled_nil :
    AllFilled [] :=
  List.forall_mem_nil _

@[simp] theorem allFilled_append
    (trees others : List Node) :
    AllFilled (trees ++ others) ↔ AllFilled trees ∧ AllFilled others :=
  List.forall_mem_append

/- What holds of the first tree holds of its root and its parts. -/
theorem allFilled_cons
    (tree : Node)
    (trees : List Node) :
    AllFilled (tree :: trees) ↔
      (tree.isPresent = true → tree.IsFilled) ∧
        AllFilled tree.children ∧ AllFilled trees := by
  unfold AllFilled
  rw [List.forall_mem_cons, ← and_assoc]
  refine and_congr_left fun _ => ?_
  constructor
  · intro hAll
    exact ⟨fun hPresent => hAll tree (mem_preorder_iff.mpr
        (.inl ⟨hPresent, rfl⟩)),
      fun part hPart node hMem => hAll node (mem_preorder_iff.mpr
        (.inr ⟨part, hPart, hMem⟩))⟩
  · rintro ⟨hRoot, hParts⟩ node hMem
    rcases mem_preorder_iff.mp hMem with
      ⟨hPresent, rfl⟩ | ⟨part, hPart, hMem⟩
    · exact hRoot hPresent
    · exact hParts part hPart node hMem

section Forms

variable (cond yes no proto : Node)
variable (lines nodes : List Node)

theorem allFilled_block :
    AllFilled (.block lines :: nodes) ↔
      AllFilled lines ∧ AllFilled nodes := by
  simp [allFilled_cons, IsFilled, children]

theorem allFilled_branch
    (location : Location) :
    AllFilled (.branch cond (.block lines) no location :: nodes) ↔
      AllFilled [cond] ∧ (!lines.isEmpty) = true ∧
        AllFilled lines ∧ AllFilled (no :: nodes) := by
  rw [allFilled_cons, allFilled_cons no]
  simp only [children, allFilled_cons cond, allFilled_block,
    allFilled_cons no []]
  cases lines <;> simp [IsFilled, isPresent, and_assoc]

theorem allFilled_loop
    (counter : Value)
    (first last step body : Node) :
    AllFilled (.loop counter first last step (.block [body]) :: nodes) ↔
      AllFilled (first :: last :: step :: body :: nodes) := by
  rw [allFilled_cons]
  change _ ∧ AllFilled ([first, last, step] ++ [.block [body]]) ∧ _ ↔
    AllFilled ([first, last, step] ++ ([body] ++ nodes))
  simp only [allFilled_append, allFilled_block, allFilled_nil, IsFilled,
    implies_true, and_true, true_and, and_assoc]

theorem allFilled_function :
    AllFilled (.function proto (.block lines) :: nodes) ↔
      AllFilled [proto] ∧ (!lines.isEmpty) = true ∧
        AllFilled lines ∧ AllFilled nodes := by
  rw [allFilled_cons]
  simp only [children, allFilled_cons proto, allFilled_block]
  cases lines <;> simp [IsFilled, isPresent, and_assoc]

end Forms

end Node

/-
  That trees have a framing: the body of a function is opened after
  the colon and so is the first block of a branch; other blocks are
  those where an operand is expected or after `else`.  The line of
  a loop is no block of its own.  Other tokens can stand anywhere.
-/
inductive Framed :
    List Node →
    List Edge →
    Prop where
  | nil :
      Framed [] []
  | token
      {t : Token}
      {nodes : List Node}
      {ω : List Edge}
      (hMore : Framed nodes ω) :
      Framed nodes (.token t :: ω)
  | inner
      {node : Node}
      {nodes : List Node}
      {ω : List Edge}
      (hPlain : node.IsPlain)
      (hMore : Framed (node.children ++ nodes) ω) :
      Framed (node :: nodes) ω
  | loop
      {counter : Value}
      {first last step body : Node}
      {nodes : List Node}
      {ω : List Edge}
      (hMore : Framed (first :: last :: step :: body :: nodes) ω) :
      Framed (.loop counter first last step (.block [body]) :: nodes) ω
  | block
      {t : Token}
      {lines nodes : List Node}
      {φ ψ : List Edge}
      (hLines : Framed lines φ)
      (hMore : Framed nodes ψ) :
      Framed (.block lines :: nodes)
        (.opens .other (!lines.isEmpty) t :: (φ ++ .closes :: ψ))
  | elseless
      {t c u : Token}
      {cond : Node}
      {yes nodes : List Node}
      {location : Location}
      {φ ψ χ : List Edge}
      (hIf : t.kind = .kwIf)
      (hCond : Framed [cond] φ)
      (hColon : c.isOperator ":" = true)
      (hYes : Framed yes ψ)
      (hMore : Framed nodes χ) :
      Framed (.branch cond (.block yes) (.block []) location :: nodes)
        (.token t :: (φ ++ .token c ::
          .opens .definition (!yes.isEmpty) u :: (ψ ++ .closes :: χ)))
  | branch
      {t c u e d v : Token}
      {cond : Node}
      {yes no nodes : List Node}
      {location : Location}
      {passed : List Token}
      {φ ψ χ : List Edge}
      (hIf : t.kind = .kwIf)
      (hCond : Framed [cond] φ)
      (hColon : c.isOperator ":" = true)
      (hYes : Framed yes ψ)
      (hElse : e.kind = .kwElse)
      (hSecond : d.isOperator ":" = true)
      (hNo : Framed (.block no :: nodes)
        (.opens .other (!no.isEmpty) v :: χ)) :
      Framed (.branch cond (.block yes) (.block no) location :: nodes)
        (.token t :: (φ ++ .token c ::
          .opens .definition (!yes.isEmpty) u :: (ψ ++ .closes ::
            (passed.map Edge.token ++ .token e :: .token d ::
              .opens .other (!no.isEmpty) v :: χ))))
  | function
      {t c u : Token}
      {proto : Node}
      {body nodes : List Node}
      {φ ψ χ : List Edge}
      (hFunction : t.kind = .kwFunction)
      (hProto : Framed [proto] φ)
      (hColon : c.isOperator ":" = true)
      (hBody : Framed body ψ)
      (hMore : Framed nodes χ) :
      Framed (.function proto (.block body) :: nodes)
        (.token t :: (φ ++ .token c ::
          .opens .definition (!body.isEmpty) u :: (ψ ++ .closes :: χ)))

namespace Framed

variable {nodes more : List Node}
variable {ω ψ : List Edge}

/- The framings of two rows of trees make up one of both. -/
theorem append
    (hFirst : Framed nodes ω)
    (hSecond : Framed more ψ) :
    Framed (nodes ++ more) (ω ++ ψ) := by
  induction hFirst with
  | nil => exact hSecond
  | token _ ih => exact .token ih
  | inner hPlain _ ih =>
      rw [List.append_assoc] at ih
      exact .inner hPlain ih
  | loop _ ih => exact .loop ih
  | block hLines _ _ ih =>
      simp only [List.cons_append, List.append_assoc]
      exact .block hLines ih
  | elseless hIf hCond hColon hYes _ _ _ ih =>
      simp only [List.cons_append, List.append_assoc]
      exact .elseless hIf hCond hColon hYes ih
  | branch hIf hCond hColon hYes hElse hSecond _ _ _ ih =>
      simp only [List.cons_append, List.append_assoc]
      exact .branch hIf hCond hColon hYes hElse hSecond ih
  | function hFunction hProto hColon hBody _ _ _ ih =>
      simp only [List.cons_append, List.append_assoc]
      exact .function hFunction hProto hColon hBody ih

/- Tokens that no tree stands for. -/
theorem of_tokens
    (ts : List Token) :
    Framed [] (ts.map Edge.token) := by
  induction ts with
  | nil => exact .nil
  | cons t ts ih => exact .token ih

/- The definitions of the trees are those of the framing. -/
theorem allFilled_iff
    (hFramed : Framed nodes ω) :
    Node.AllFilled nodes ↔ Edge.AllFilled ω := by
  induction hFramed with
  | nil => simp
  | token _ ih => simpa using ih
  | @inner node nodes _ hPlain _ ih =>
      rw [Node.allFilled_append] at ih
      rw [Node.allFilled_cons, ih]
      exact and_iff_right fun _ => hPlain.isFilled
  | loop _ ih => rw [Node.allFilled_loop, ih]
  | block _ _ ihLines ihMore =>
      simp [Node.allFilled_block, ihLines, ihMore]
  | elseless _ _ _ _ _ ihCond ihYes ihMore =>
      simp [Node.allFilled_branch, Node.allFilled_block, ihCond, ihYes,
        ihMore]
  | @branch _ _ _ _ _ _ _ _ _ _ _ passed _ _ _ _ _ _ _ _ _ _ ihCond
      ihYes ihNo =>
      have hPassed : Edge.AllFilled (passed.map Edge.token) := by
        simp [Edge.AllFilled]
      simp only [Edge.allFilled_other] at ihNo
      simp [Node.allFilled_branch, ihCond, ihYes, ihNo, hPassed]
  | function _ _ _ _ _ ihProto ihBody ihMore =>
      simp [Node.allFilled_function, ihProto, ihBody, ihMore]

end Framed

end Offside

------------------------------------------------------------
-- Steps and Their Framings
------------------------------------------------------------

namespace Offside.Parse

variable {α β : Type}

/-
  What a step from the token `c` that succeeds has done: there is a
  framing of the tokens that it has taken, which leads from the
  level before it to the one after it, and the relation holds of
  the result, of the framing and of the token it has come to.
-/
def Frames
    (Q : α → List Edge → Token → Prop)
    (c : Token)
    (p : Parse α) :
    Prop :=
  ∀ s a t, s.current = c → p s = .ok a t →
    ∃ ω,
      s.tokens = Edge.tokens ω ++ t.tokens ∧
      Edge.Leads s.level ω t.level ∧
      Q a ω t.current

namespace Frames

variable {P : α → List Edge → Token → Prop}
variable {Q : β → List Edge → Token → Prop}
variable {c : Token}
variable {p : Parse α}

theorem mono
    {Q : α → List Edge → Token → Prop}
    (hStep : Frames P c p)
    (hMore : ∀ a ω d, P a ω d → Q a ω d) :
    Frames Q c p := by
  intro s a t hCurrent hRun
  rcases hStep s a t hCurrent hRun with ⟨ω, hTokens, hLeads, hHolds⟩
  exact ⟨ω, hTokens, hLeads, hMore _ _ _ hHolds⟩

theorem pure
    {a : α}
    (hHolds : P a [] c) :
    Frames P c (Pure.pure a) := by
  rintro s b t rfl hRun
  cases hRun
  exact ⟨[], rfl, .nil, hHolds⟩

theorem throw
    (e : ParseError) :
    Frames P c (MonadExcept.throw e) := by
  intro s a t _ hRun
  cases hRun

theorem fail
    {k : α → Parse β}
    (e : ParseError) :
    Frames Q c (MonadExcept.throw e >>= k) := by
  intro s b u _ hRun
  cases hRun

theorem ite
    {condition : Prop}
    [Decidable condition]
    {q : Parse α}
    (hYes : condition → Frames P c p)
    (hNo : ¬condition → Frames P c q) :
    Frames P c (if condition then p else q) := by
  split
  · rename_i hCond
    exact hYes hCond
  · rename_i hCond
    exact hNo hCond

/- The framing of the second step comes after that of the first. -/
theorem bind
    {k : α → Parse β}
    (hStep : Frames P c p)
    (hNext : ∀ a φ d, P a φ d →
      Frames (fun b ψ => Q b (φ ++ ψ)) d (k a)) :
    Frames Q c (p >>= k) := by
  intro s b u hCurrent hRun
  rcases Steps.bind_eq_ok hRun with ⟨a, t, hFirst, hSecond⟩
  rcases hStep s a t hCurrent hFirst with
    ⟨φ, hTokens, hLeads, hHolds⟩
  rcases hNext a φ _ hHolds t b u rfl hSecond with
    ⟨ψ, hMore, hOnward, hBoth⟩
  refine ⟨φ ++ ψ, ?_, hLeads.append hOnward, hBoth⟩
  rw [hTokens, hMore, Edge.tokens_append, List.append_assoc]

/- What is made of the result of the last step. -/
theorem last
    {f : α → β}
    (hStep : Frames P c p)
    (hMore : ∀ a ω d, P a ω d → Q (f a) ω d) :
    Frames Q c (p >>= fun a => Pure.pure (f a)) := by
  refine hStep.bind fun a φ d hHolds => pure ?_
  rw [List.append_nil]
  exact hMore a φ d hHolds

/- A step that looks at the current token. -/
theorem look
    {a : α}
    {k : α → Parse β}
    (hLook : ∀ s, s.current = c → p s = .ok a s)
    (hNext : Frames Q c (k a)) :
    Frames Q c (p >>= k) := by
  intro s b u hCurrent hRun
  rw [Steps.bind_ok (hLook s hCurrent)] at hRun
  exact hNext s b u hCurrent hRun

variable {k : Unit → Parse β}

theorem current
    {k : Token → Parse β}
    (hNext : Frames Q c (k c)) :
    Frames Q c (Parse.current >>= k) := by
  apply look _ hNext
  rintro s rfl
  rfl

theorem atOperator
    {operator : String}
    {k : Bool → Parse β}
    (hNext : Frames Q c (k (c.isOperator operator))) :
    Frames Q c (Parse.atOperator operator >>= k) := by
  apply look _ hNext
  rintro s rfl
  rfl

theorem atKind
    {kind : Kind}
    {k : Bool → Parse β}
    (hNext : Frames Q c (k (c.kind = kind))) :
    Frames Q c (Parse.atKind kind >>= k) := by
  apply look _ hNext
  rintro s rfl
  rfl

theorem expectOperator
    {operator : String}
    {what : Expectation}
    (hNext : c.isOperator operator = true → Frames Q c (k ())) :
    Frames Q c (Parse.expectOperator operator what >>= k) := by
  rintro s b u rfl hRun
  rcases Steps.bind_eq_ok hRun with ⟨_, t, hFirst, hSecond⟩
  rcases expectOperator_eq_ok hFirst with ⟨hOperator, rfl⟩
  exact hNext hOperator t b u rfl hSecond

theorem expectKind
    {kind : Kind}
    {what : Expectation}
    (hNext : c.kind = kind → Frames Q c (k ())) :
    Frames Q c (Parse.expectKind kind what >>= k) := by
  rintro s b u rfl hRun
  rcases Steps.bind_eq_ok hRun with ⟨_, t, hFirst, hSecond⟩
  rcases expectKind_eq_ok hFirst with ⟨hKind, rfl⟩
  exact hNext hKind t b u rfl hSecond

theorem expectColon
    {keyword : String}
    (hNext : c.isOperator ":" = true → Frames Q c (k ())) :
    Frames Q c (Parse.expectColon keyword >>= k) := by
  rintro s b u rfl hRun
  rcases Steps.bind_eq_ok hRun with ⟨_, t, hFirst, hSecond⟩
  rcases expectColon_eq_ok hFirst with ⟨hColon, rfl⟩
  exact hNext hColon t b u rfl hSecond

/- The current token is passed over. -/
theorem pass
    (hNext : ∀ d, Frames (fun b ω => Q b (.token c :: ω)) d (k ())) :
    Frames Q c (advance >>= k) := by
  rintro ⟨t, ts, level⟩ b u rfl hRun
  cases ts with
  | nil => cases hRun
  | cons v vs =>
      rw [Steps.bind_ok (advance_apply t v vs level)] at hRun
      rcases hNext v _ b u rfl hRun with ⟨ω, hTokens, hLeads, hHolds⟩
      refine ⟨.token t :: ω, ?_, .token hLeads, hHolds⟩
      rw [Edge.tokens_token, List.cons_append, ← hTokens]
      rfl

end Frames

end Offside.Parse

------------------------------------------------------------
-- Productions
------------------------------------------------------------

namespace Offside.Parse

/- A node with its framing. -/
def FramedNode
    (node : Node)
    (ω : List Edge)
    (_ : Token) :
    Prop :=
  Framed [node] ω

/- Several nodes with theirs. -/
def FramedAll
    (nodes : List Node)
    (ω : List Edge)
    (_ : Token) :
    Prop :=
  Framed nodes ω

/- Lines, of which there is at least one. -/
def FramedLines
    (nodes : List Node)
    (ω : List Edge)
    (_ : Token) :
    Prop :=
  Framed nodes ω ∧ nodes ≠ []

/- The initial values of names. -/
def FramedNames
    (names : List (Value × Node))
    (ω : List Edge)
    (_ : Token) :
    Prop :=
  Framed (names.map Prod.snd) ω

/- What follows a left operand, whatever the framing of that is. -/
def FramedOn
    (lhs node : Node)
    (ω : List Edge)
    (_ : Token) :
    Prop :=
  ∀ ψ, Framed [lhs] ψ → Framed [node] (ψ ++ ω)

/- A block, from the token that opens it to its end. -/
def FramedBlock
    (opening : Opening)
    (t : Token)
    (node : Node)
    (ω : List Edge)
    (_ : Token) :
    Prop :=
  ∃ lines φ,
    node = .block lines ∧
    ω = .opens opening (!lines.isEmpty) t :: (φ ++ [.closes]) ∧
    Framed lines φ

namespace Frames

variable {table : Precedence}
variable {c : Token}
variable {p q : Parse Node}
variable {ps : Parse (List Node)}
variable {entries : Parse (List (Value × Node))}

theorem literal :
    Frames FramedNode c literal :=
  current (pass fun _ => pure (.token (.inner trivial .nil)))

theorem parenthesized
    (hInner : ∀ d, Frames FramedNode d p) :
    Frames FramedNode c (parenthesized p) :=
  pass fun d => (hInner d).bind fun _ _ _ hNode =>
    expectOperator fun _ => pass fun _ =>
      pure (.token (hNode.append (.token .nil)))

theorem arguments
    (hArgument : ∀ d, Frames FramedNode d p)
    (hMore : ∀ d, Frames FramedAll d ps) :
    Frames FramedAll c (arguments p ps) := by
  refine (hArgument c).bind fun e φ d hFirst =>
    atOperator (ite (fun _ => pure ?_) fun _ => ?_)
  · rwa [List.append_nil]
  · exact expectOperator fun _ => pass fun u =>
      (hMore u).last fun _ _ _ hOthers => hFirst.append (.token hOthers)

theorem named
    (hArguments : ∀ d, Frames FramedAll d ps) :
    Frames FramedNode c (named ps) := by
  refine current (pass fun d => atOperator (ite (fun _ => ?_)
    fun _ => pure (.token (.inner trivial .nil))))
  refine pass fun u => bind (P := FramedAll) ?_
    fun _ _ _ hArgs => pass fun _ =>
      pure (.token (.token (.inner trivial (hArgs.append (.token ?_)))))
  · exact atOperator (ite (fun _ => pure .nil) fun _ => hArguments u)
  · exact .nil

theorem unary
    (hPrimary : Frames FramedNode c p)
    (hOperand : ∀ d, Frames FramedNode d q) :
    Frames FramedNode c (unary p q) :=
  current (ite (fun _ => hPrimary) fun _ => pass fun d =>
    (hOperand d).last fun _ _ _ hNode => .token (.inner trivial hNode))

theorem binaryRest
    (hUnary : ∀ d, Frames FramedNode d p)
    {rest : Int → Node → Parse Node}
    (hRest : ∀ d least lhs, Frames (FramedOn lhs) d (rest least lhs))
    (least : Int)
    (lhs : Node) :
    Frames (FramedOn lhs) c (binaryRest table p rest least lhs) := by
  have hAlone : ∀ {d : Token} (node : Node),
      Frames (FramedOn node) d (Pure.pure node) := by
    intro d node
    apply pure
    intro ψ hNode
    rwa [List.append_nil]
  refine current (ite (fun _ => hAlone lhs) fun _ => ?_)
  refine pass fun d => (hUnary d).bind fun operand φ u hOperand =>
    bind (P := FramedOn operand)
      (current (ite (fun _ => hRest _ _ _) fun _ => hAlone operand))
      fun rhs ψ v hRhs =>
        (hRest v least _).mono fun node χ w hNode ω hLhs => ?_
  have hBoth := hNode (ω ++ .token c :: (φ ++ ψ))
    (.inner trivial (hLhs.append (.token (hRhs φ hOperand))))
  simpa using hBoth

theorem expression
    (hUnary : Frames FramedNode c p)
    {rest : Int → Node → Parse Node}
    (hRest : ∀ d least lhs, Frames (FramedOn lhs) d (rest least lhs)) :
    Frames FramedNode c (expression p rest) :=
  hUnary.bind fun lhs φ d hLhs =>
    (hRest d 0 lhs).mono fun _ _ _ hNode => hNode φ hLhs

theorem lines
    (hLine : ∀ d, Frames FramedNode d p)
    {more : Amount → Parse (List Node)}
    (hMore : ∀ d indent, Frames FramedLines d (more indent))
    (indent : Amount) :
    Frames FramedLines c (lines p more indent) := by
  refine (hLine c).bind fun e φ d hFirst => current ?_
  have hOne : Frames (fun es ψ => FramedLines es (φ ++ ψ)) d
      (Pure.pure [e]) := by
    apply pure
    rw [List.append_nil]
    exact ⟨hFirst, List.cons_ne_nil _ _⟩
  refine ite (fun _ => hOne) fun _ => ?_
  cases d.value with
  | text s => exact throw _
  | amount found =>
      exact ite (fun _ => hOne) fun _ => ite (fun _ => fail _)
        fun _ => pass fun u => (hMore u indent).last fun _ _ _ hOthers =>
          ⟨hFirst.append (.token hOthers.1), List.cons_ne_nil _ _⟩

/-
  A block is opened at the level before it, and the level after its
  lines is lowered; this is the only step that looks at the level.
-/
theorem block
    {lines : Amount → Parse (List Node)}
    (hLines : ∀ d indent, Frames FramedLines d (lines indent))
    (opening : Opening) :
    Frames (FramedBlock opening c) c (block lines) := by
  rintro ⟨t, ts, level⟩ node u rfl hRun
  cases ts with
  | nil => cases hRun
  | cons d ds =>
      rw [Parse.block, Steps.bind_ok (current_apply _),
        Steps.bind_ok (advance_apply t d ds level),
        Steps.bind_ok (Steps.get_apply _)] at hRun
      cases hValue : t.value with
      | text w =>
          simp only [hValue] at hRun
          cases hRun
      | amount indent =>
          simp only [hValue] at hRun
          by_cases hSame : indent.same level = true
          · rw [if_pos hSame] at hRun
            cases hRun
          rw [if_neg hSame] at hRun
          rcases Steps.bind_eq_ok hRun with ⟨nodes, v, hNodes, hEnd⟩
          cases hEnd
          by_cases hLess : level.less indent = true
          · rw [if_pos hLess, Steps.bind_ok (setLevel_apply _ _)] at hNodes
            rcases hLines d indent _ nodes v rfl hNodes with
              ⟨φ, hTokens, hLeads, hFramed, hSome⟩
            have hFilled : (!nodes.isEmpty) = true := by
              simpa using hSome
            refine ⟨.opens opening (!nodes.isEmpty) t :: (φ ++ [.closes]),
              ?_, ?_, nodes, φ, rfl, rfl, hFramed⟩
            · simp only [ParseState.tokens] at hTokens ⊢
              simp [hTokens]
            · rw [hFilled]
              exact .deeper hValue hLess (hLeads.append (.closes .nil))
          · rw [if_neg hLess] at hNodes
            cases hNodes
            rw [Bool.not_eq_true] at hSame hLess
            exact ⟨[.opens opening false t, .closes], rfl,
              .shallower hValue hSame hLess (.closes .nil), [], [], rfl,
              rfl, .nil⟩

theorem branch
    (hCondition : ∀ d, Frames FramedNode d p)
    (hBlock : ∀ opening d, Frames (FramedBlock opening d) d q)
    (hKind : c.kind = .kwIf) :
    Frames FramedNode c (branch p q) := by
  refine current (pass fun d => (hCondition d).bind fun cond φ u hCond =>
    expectColon fun hColon => pass fun v => (hBlock .definition v).bind
      fun yes ψ w hYes => atKind ?_)
  rcases hYes with ⟨lines, ψ, rfl, rfl, hYes⟩
  -- What may stand before `else` is the same in both cases.
  have hElse : ∀ (passed : List Token) x, Frames
      (fun node χ _ => Framed [node]
        (.token c :: (φ ++ .token u ::
          ((.opens .definition (!lines.isEmpty) v :: (ψ ++ [.closes])) ++
            (passed.map Edge.token ++ χ))))) x (do
      let no ← (do
        if ← Parse.atKind .kwElse then
          advance
          Parse.expectColon "else"
          advance
          q
        else return .block [])
      return .branch cond (.block lines) no c.location) := by
    intro passed x
    refine last (P := fun no χ _ =>
      Framed [.branch cond (.block lines) no c.location]
        (.token c :: (φ ++ .token u ::
          .opens .definition (!lines.isEmpty) v :: (ψ ++ .closes ::
            (passed.map Edge.token ++ χ))))) ?_
      fun no χ y hNode => by simpa using hNode
    refine atKind (ite (fun hKindElse => ?_) fun _ => pure ?_)
    · refine pass fun y => expectColon fun hSecond => pass fun z =>
        (hBlock .other z).mono fun no χ _ hNo => ?_
      rcases hNo with ⟨others, χ, rfl, rfl, hOthers⟩
      exact .branch hKind hCond hColon hYes
        (of_decide_eq_true hKindElse) hSecond (.block hOthers .nil)
    · rw [List.append_nil]
      exact .elseless hKind hCond hColon hYes (.of_tokens passed)
  exact ite (fun _ => pass (hElse [w])) fun _ => hElse [] w

theorem loop
    (hPart : ∀ d, Frames FramedNode d p) :
    Frames FramedNode c (loop p) := by
  refine pass fun counter => expectKind fun _ => current (pass
    fun a => expectOperator fun _ => pass fun v =>
      (hPart v).bind fun first φ w hFirst => expectOperator
        fun _ => pass fun x => (hPart x).bind
          fun last ψ y hLast => ?_)
  refine bind (P := FramedNode) ?_
    fun step χ z hStep => expectKind fun _ => pass fun z' =>
      (hPart z').last fun body ω _ hBody => ?_
  · exact atOperator (ite (fun _ => pass fun z => (hPart z).mono
      fun _ _ _ hNode => .token hNode) fun _ => pure (.inner trivial .nil))
  · exact .token (.token (.token (.loop (hFirst.append
      (.token (hLast.append (hStep.append (.token hBody))))))))

theorem bindings
    (hValue : ∀ d, Frames FramedNode d p)
    (hMore : ∀ d, Frames FramedNames d entries) :
    Frames FramedNames c (bindings p entries) := by
  refine current (pass fun d => bind (P := FramedNode) ?_
    fun value φ u hInitial =>
      atOperator (ite (fun _ => ?_) fun _ => pure ?_))
  · exact atOperator (ite (fun _ => pass fun v => (hValue v).mono
      fun _ _ _ hNode => .token hNode) fun _ => pure (.inner trivial .nil))
  · exact pass fun v => expectKind fun _ => (hMore v).last
      fun _ _ _ hOthers => .token (hInitial.append (.token hOthers))
  · rw [List.append_nil]
    exact .token hInitial

theorem declaration
    (hBody : ∀ d, Frames FramedNode d p)
    (hEntries : ∀ d, Frames FramedNames d entries) :
    Frames FramedNode c (declaration p entries) := by
  refine pass fun d => expectKind fun _ => (hEntries d).bind
    fun names φ u hNames => expectKind fun _ => pass fun v =>
      (hBody v).last fun body ψ w hInner => .token (.inner trivial ?_)
  rw [List.append_nil]
  exact hNames.append (.token hInner)

theorem returned
    (hValue : ∀ d, Frames FramedNode d p) :
    Frames FramedNode c (returned p) :=
  pass fun d => (hValue d).last fun _ _ _ hInner =>
    .token (.inner trivial hInner)

theorem unknown :
    Frames FramedNode c unknown :=
  current (pass fun _ => throw _)

theorem primary
    {parts : Parts}
    (hExpression : ∀ d, Frames FramedNode d parts.expression)
    (hArguments : ∀ d, Frames FramedAll d parts.arguments)
    (hEntries : ∀ d, Frames FramedNames d parts.bindings)
    (hBlock : ∀ opening d, Frames (FramedBlock opening d) d parts.block)
    (hPrimary : ∀ d, Frames FramedNode d parts.primary) :
    Frames FramedNode c (primary parts) := by
  refine current ?_
  cases hKind : c.kind
  case identifier => exact named hArguments
  case floatLiteral => exact literal
  case kwIf => exact branch hExpression hBlock hKind
  case kwFor => exact loop hExpression
  case kwVar => exact declaration hExpression hEntries
  case kwReturn => exact returned hExpression
  case indent =>
    refine (hBlock .other c).mono fun node ω d hNode => ?_
    rcases hNode with ⟨lines, φ, rfl, rfl, hLines⟩
    exact .block hLines .nil
  case operator =>
    exact ite (fun _ => parenthesized hExpression) fun _ =>
      ite (fun _ => pass fun d => (hPrimary d).mono
        fun _ _ _ hNode => .token hNode) fun _ => unknown
  all_goals exact unknown

/- Names and commas are passed over, at the same level. -/
theorem parametersFrom_framed
    {s t : ParseState}
    {ts : List Token}
    {args : List Node}
    (hRun : parametersFrom s ts = .ok args t) :
    ∃ ω,
      ts = Edge.tokens ω ++ t.tokens ∧
      Edge.Leads s.level ω t.level ∧
      Framed args ω := by
  fun_induction Parse.parametersFrom s ts generalizing args t with
  | case4 s u v ts hName hComma nodes s' hMore ih =>
      cases hRun
      rcases ih hMore with ⟨ω, rfl, hLeads, hOthers⟩
      exact ⟨.token u :: .token v :: ω, rfl, .token (.token hLeads),
        .token (.token (.inner trivial hOthers))⟩
  | case6 s u v ts hName hComma =>
      cases hRun
      exact ⟨[.token u], rfl, .token .nil, .token (.inner trivial .nil)⟩
  | case3 | case7 =>
      cases hRun
      exact ⟨[], rfl, .nil, .nil⟩
  | case1 | case2 | case5 => cases hRun

theorem parameters :
    Frames FramedAll c parameters := by
  rintro s args t rfl hRun
  rcases parametersFrom_framed hRun with ⟨ω, hTokens, hLeads, hArgs⟩
  refine ⟨.token s.current :: ω, ?_, .token hLeads, .token hArgs⟩
  rw [Edge.tokens_token, List.cons_append, ← hTokens]
  rfl

theorem externPrototype :
    Frames FramedNode c externPrototype :=
  current (expectKind fun _ => pass fun _ => expectOperator fun _ =>
    parameters.bind fun _ _ _ hArgs => expectOperator fun _ =>
      pass fun _ => pure (.token
        (.inner trivial (hArgs.append (.token .nil)))))

theorem function
    (hBlock : ∀ opening d, Frames (FramedBlock opening d) d p)
    (hKind : c.kind = .kwFunction) :
    Frames FramedNode c (function p) := by
  refine pass fun d => bind (P := fun proto ω _ =>
    ∃ φ t, ω = φ ++ [.token t] ∧ Framed [proto] φ ∧
      t.isOperator ":" = true) ?_ fun proto ω u hProto =>
      (hBlock .definition u).last fun body χ v hBody => ?_
  · exact externPrototype.bind fun proto φ u hProto =>
      expectOperator fun hColon => pass fun _ =>
        pure ⟨φ, u, rfl, hProto, hColon⟩
  · rcases hProto with ⟨φ, t, rfl, hProto, hColon⟩
    rcases hBody with ⟨lines, ψ, rfl, rfl, hLines⟩
    rw [List.append_assoc]
    exact .function hKind hProto hColon hLines .nil

theorem external :
    Frames FramedNode c external :=
  pass fun _ => externPrototype.mono fun _ _ _ hProto => .token hProto

end Frames

end Offside.Parse

------------------------------------------------------------
-- The Grammar
------------------------------------------------------------

namespace Offside.Grammar

open Parse (Frames FramedNode FramedAll FramedLines FramedNames FramedOn
  FramedBlock)

/- The framings of all productions, at one allowance. -/
structure AllFrame
    (table : Precedence)
    (n : Nat) :
    Prop where
  primary : ∀ c, Frames FramedNode c (primary table n)
  unary : ∀ c, Frames FramedNode c (unary table n)
  binaryRest : ∀ c least lhs,
    Frames (FramedOn lhs) c (binaryRest table n least lhs)
  expression : ∀ c, Frames FramedNode c (expression table n)
  arguments : ∀ c, Frames FramedAll c (arguments table n)
  bindings : ∀ c, Frames FramedNames c (bindings table n)
  lines : ∀ c indent, Frames FramedLines c (lines table n indent)
  block : ∀ opening c, Frames (FramedBlock opening c) c (block table n)

/- What is parsed has a framing of the tokens that were taken. -/
theorem frames
    (table : Precedence)
    (n : Nat) :
    AllFrame table n := by
  induction n with
  | zero =>
      constructor
      case binaryRest => exact fun _ _ _ => Frames.throw _
      case lines => exact fun _ _ => Frames.throw _
      case block => exact fun _ _ => Frames.throw _
      all_goals exact fun _ => Frames.throw _
  | succ n ih =>
      constructor
      case primary =>
        exact fun _ => Frames.primary ih.expression ih.arguments
          ih.bindings ih.block ih.primary
      case unary => exact fun c => Frames.unary (ih.primary c) ih.unary
      case binaryRest =>
        exact fun _ => Frames.binaryRest ih.unary ih.binaryRest
      case expression =>
        exact fun c => Frames.expression (ih.unary c) ih.binaryRest
      case arguments =>
        exact fun _ => Frames.arguments ih.expression ih.arguments
      case bindings =>
        exact fun _ => Frames.bindings ih.expression ih.bindings
      case lines => exact fun _ => Frames.lines ih.expression ih.lines
      case block => exact fun opening _ => Frames.block ih.lines opening

/- So have all items, up to the end of the text. -/
theorem items_frames
    (table : Precedence)
    (n : Nat)
    (c : Token) :
    Frames (fun nodes ω d => Framed nodes ω ∧ d.kind = .endOfText) c
      (items table n) := by
  induction n generalizing c with
  | zero => exact Frames.throw _
  | succ n ih =>
      have hAll := frames table n
      refine Frames.current (Frames.ite
        (fun hEnd => Frames.pure ⟨.nil, hEnd⟩) fun _ => ?_)
      refine Frames.ite (fun _ => Frames.pass fun d => (ih d).mono
        fun nodes ω u hMore => ⟨.token hMore.1, hMore.2⟩) fun _ => ?_
      refine Frames.bind (P := FramedNode) ?_ fun item φ d hFirst =>
        (ih d).last fun others ψ u hOthers =>
          ⟨hFirst.append hOthers.1, hOthers.2⟩
      split
      · rename_i hKind
        exact Frames.function hAll.block hKind
      · exact Frames.external
      · exact hAll.expression c

/- The items of a text have a framing of all its tokens but the end. -/
theorem items_framed
    {table : Precedence}
    {n : Nat}
    {level : Amount}
    {ts : List Token}
    {e : Token}
    (hInner : ∀ t ∈ ts, t.kind ≠ .endOfText)
    {nodes : List Node}
    {s : ParseState}
    (hRun : items table n (.before level (ts ++ [e])) = .ok nodes s) :
    ∃ ω,
      Edge.tokens ω = ts ∧
      Framed nodes ω ∧
      Edge.Leads level ω s.level := by
  rcases items_frames table _ _ _ nodes s rfl hRun with
    ⟨ω, hTokens, hLeads, hFramed, hEnd⟩
  rw [ParseState.tokens_before (by simp)] at hTokens
  rw [ParseState.level_before] at hLeads
  exact ⟨ω, Token.eq_of_append_end hInner hTokens.symm hEnd, hFramed,
    hLeads⟩

end Offside.Grammar
