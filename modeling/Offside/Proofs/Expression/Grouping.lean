import Mathlib
import Offside.Proofs.Expression.Climbing
import Offside.Proofs.Parser.Turns

/-
  Groupings: how a climb groups the operators and the operands
  that it takes, whatever forms the operands are.

  Key definitions include:
    * `Offside.Grouping`
    * `Offside.Grouping.Ordered`
    * `Offside.Link`
    * `Offside.Chain`

  Main statements:
    * `Offside.Grouping.Ordered.unique`: operators and operands in
      a row can be grouped in one way only.
    * `Offside.Grammar.binaryRest_climb`: what a climb takes, and
      how it goes on from what is grouped already.
    * `Offside.Parser.parseRest_grouping`: what is parsed after a
      left operand.
-/

------------------------------------------------------------
-- Groupings
------------------------------------------------------------

namespace Offside

/-
  Operands with operators between them, grouped into a tree.  An
  operand is not looked into, also where it is a tree of operators
  itself.
-/
inductive Grouping where
  | operand (node : Node)
  | joined (op : Token) (lhs rhs : Grouping)

namespace Grouping

/- The tree of a grouping. -/
def node :
    Grouping →
    Node
  | operand node => node
  | joined op lhs rhs =>
      .binary op.value lhs.node rhs.node op.location

/- The operands from left to right. -/
def operands :
    Grouping →
    List Node
  | operand node => [node]
  | joined _ lhs rhs => lhs.operands ++ rhs.operands

/- The operators from left to right. -/
def operators :
    Grouping →
    List Token
  | operand _ => []
  | joined op lhs rhs => lhs.operators ++ op :: rhs.operators

/- The operator that joins the two halves. -/
def root? :
    Grouping →
    Option Token
  | operand _ => none
  | joined op _ _ => some op

/-
  Whether the operators are grouped by the table: what is joined
  on the left binds at least as tightly, and what is joined on the
  right more tightly.
-/
def Ordered
    (table : Precedence) :
    Grouping →
    Prop
  | operand _ => True
  | joined op lhs rhs =>
      (∀ inner ∈ lhs.root?,
        table.of op.value ≤ table.of inner.value) ∧
      (∀ inner ∈ rhs.root?,
        table.of op.value < table.of inner.value) ∧
      lhs.Ordered table ∧
      rhs.Ordered table

/- An operator stands between every two operands. -/
theorem length_operands
    (g : Grouping) :
    g.operands.length = g.operators.length + 1 := by
  induction g with
  | operand node => rfl
  | joined op lhs rhs ihLhs ihRhs =>
      simp only [operands, operators, List.length_append,
        List.length_cons]
      omega

end Grouping

end Offside

------------------------------------------------------------
-- Uniqueness
------------------------------------------------------------

namespace Offside.Grouping

variable {table : Precedence}

/- No operator binds less tightly than the one at the root. -/
theorem Ordered.le_of_mem
    {g : Grouping}
    (hOrdered : g.Ordered table)
    {least : Int}
    (hRoot : ∀ op ∈ g.root?, least ≤ table.of op.value) :
    ∀ op ∈ g.operators, least ≤ table.of op.value := by
  induction g with
  | operand node => simp [operators]
  | joined root lhs rhs ihLhs ihRhs =>
      rcases hOrdered with ⟨hLeft, hRight, hLhs, hRhs⟩
      have hLeast : least ≤ table.of root.value := hRoot root rfl
      intro op hMem
      rcases List.mem_append.mp hMem with hMem | hMem
      · exact ihLhs hLhs
          (fun inner hInner => hLeast.trans (hLeft inner hInner)) op hMem
      · rcases List.mem_cons.mp hMem with rfl | hMem
        · exact hLeast
        · exact ihRhs hRhs
            (fun inner hInner => hLeast.trans (hRight inner hInner).le)
            op hMem

/-
  The root is the last of the operators that bind least tightly:
  those before it bind at least as tightly, and those after it
  more tightly.
-/
theorem Ordered.root
    {op : Token}
    {lhs rhs : Grouping}
    (hOrdered : (joined op lhs rhs).Ordered table) :
    (∀ inner ∈ lhs.operators,
      table.of op.value ≤ table.of inner.value) ∧
    ∀ inner ∈ rhs.operators,
      table.of op.value < table.of inner.value := by
  rcases hOrdered with ⟨hLeft, hRight, hLhs, hRhs⟩
  exact ⟨hLhs.le_of_mem hLeft, hRhs.le_of_mem hRight⟩

/- There is only one such operator among several. -/
theorem eq_nil_of_split
    {op op' : Token}
    {before between after after' : List Token}
    (hSplit : op :: after = between ++ op' :: after')
    (hAfter : ∀ inner ∈ after, table.of op.value < table.of inner.value)
    (hBefore : ∀ inner ∈ before ++ between,
      table.of op'.value ≤ table.of inner.value) :
    between = [] := by
  cases between with
  | nil => rfl
  | cons first between =>
      injection hSplit with hFirst hRest
      have hLess := hAfter op' (by simp [hRest])
      have hMore := hBefore op (by simp [hFirst])
      exact absurd hLess (not_lt.mpr hMore)

theorem split_unique
    {op op' : Token}
    {before before' after after' : List Token}
    (hSplit : before ++ op :: after = before' ++ op' :: after')
    (hBefore : ∀ inner ∈ before,
      table.of op.value ≤ table.of inner.value)
    (hAfter : ∀ inner ∈ after, table.of op.value < table.of inner.value)
    (hBefore' : ∀ inner ∈ before',
      table.of op'.value ≤ table.of inner.value)
    (hAfter' : ∀ inner ∈ after',
      table.of op'.value < table.of inner.value) :
    before = before' ∧ op = op' ∧ after = after' := by
  have hNone : before = before' := by
    rcases List.append_eq_append_iff.mp hSplit with
      ⟨between, hLonger, hRest⟩ | ⟨between, hLonger, hRest⟩
    · rw [hLonger] at hBefore'
      rw [hLonger, eq_nil_of_split hRest hAfter hBefore', List.append_nil]
    · rw [hLonger] at hBefore
      rw [hLonger, eq_nil_of_split hRest hAfter' hBefore, List.append_nil]
  rw [hNone] at hSplit
  injection List.append_cancel_left hSplit with hOp hRest
  exact ⟨hNone, hOp, hRest⟩

/- Operators and operands in a row can be grouped in one way only. -/
theorem Ordered.unique
    {g g' : Grouping}
    (hOrdered : g.Ordered table)
    (hOrdered' : g'.Ordered table)
    (hOperators : g.operators = g'.operators)
    (hOperands : g.operands = g'.operands) :
    g = g' := by
  induction g generalizing g' with
  | operand node =>
      cases g' with
      | operand node' =>
          injection hOperands with hNode
          rw [hNode]
      | joined op' lhs' rhs' => simp [operators] at hOperators
  | joined op lhs rhs ihLhs ihRhs =>
      cases g' with
      | operand node' => simp [operators] at hOperators
      | joined op' lhs' rhs' =>
          rcases hOrdered.root with ⟨hBefore, hAfter⟩
          rcases hOrdered'.root with ⟨hBefore', hAfter'⟩
          rcases split_unique hOperators hBefore hAfter hBefore' hAfter'
            with ⟨hLeft, hRoot, hRight⟩
          have hLength : lhs.operands.length = lhs'.operands.length := by
            rw [length_operands, length_operands, hLeft]
          rcases List.append_inj hOperands hLength with ⟨hFirst, hSecond⟩
          rcases hOrdered with ⟨_, _, hLhs, hRhs⟩
          rcases hOrdered' with ⟨_, _, hLhs', hRhs'⟩
          rw [ihLhs hLhs hLhs' hLeft hFirst,
            ihRhs hRhs hRhs' hRight hSecond, hRoot]

end Offside.Grouping

------------------------------------------------------------
-- Chains
------------------------------------------------------------

namespace Offside

/- An operator and the operand after it, with its tokens. -/
structure Link where
  op : Token
  taken : List Token
  operand : Node

/- The tokens of both. -/
def Link.tokens
    (link : Link) :
    List Token :=
  link.op :: link.taken

/-
  That operators and operands are taken in turn between two
  states: the current token is the operator, and the operand is
  parsed from the next one on.
-/
inductive Chain
    (table : Precedence) :
    ParseState →
    List Link →
    ParseState →
    Prop where
  | done
      (s : ParseState) :
      Chain table s [] s
  | link
      {s u v t : ParseState}
      {taken : List Token}
      {operand : Node}
      {links : List Link}
      (hOperator : Parse.advance s = .ok () u)
      (hOperand :
        Grammar.run (Grammar.unary table) u = .ok operand v)
      (hTaken : u.tokens = taken ++ v.tokens)
      (hMore : Chain table v links t) :
      Chain table s (⟨s.current, taken, operand⟩ :: links) t

namespace Chain

variable {table : Precedence}
variable {s t u : ParseState}
variable {links links' : List Link}

theorem append
    (hFirst : Chain table s links t)
    (hSecond : Chain table t links' u) :
    Chain table s (links ++ links') u := by
  induction hFirst with
  | done s => exact hSecond
  | link hOperator hOperand hTaken _ ih =>
      exact .link hOperator hOperand hTaken (ih hSecond)

/- The tokens taken are those of the operators and operands. -/
theorem tokens_eq
    (hChain : Chain table s links t) :
    s.tokens = links.flatMap Link.tokens ++ t.tokens := by
  induction hChain with
  | done s => rfl
  | @link s u v t taken operand links hOperator hOperand hTaken _ ih =>
      have hRest : s.tokens = s.current :: u.tokens := by
        rcases s with ⟨current, rest, level⟩
        cases rest with
        | nil => cases hOperator
        | cons next rest =>
            cases hOperator
            rfl
      rw [hRest, hTaken, ih]
      simp [Link.tokens]

end Chain

end Offside

------------------------------------------------------------
-- Climbing
------------------------------------------------------------

namespace Offside.Grammar

open Grouping (joined)

variable {table : Precedence}

/-
  What a climb from `s` to `t` takes, and what it makes of it: a
  grouping of the left operand goes on to the right, as long as
  the first operator does not bind more tightly than the last one
  that was joined.
-/
structure Climbs
    (table : Precedence)
    (least : Int)
    (s t : ParseState)
    (lhs tree : Node)
    (links : List Link) :
    Prop where
  chain : Chain table s links t
  tight : ∀ link ∈ links, least ≤ table.of link.op.value
  loose : table.of t.current.value < least
  grouped : ∀ g : Grouping,
    g.node = lhs →
    g.Ordered table →
    (∀ op ∈ g.root?, table.of s.current.value ≤ table.of op.value) →
    ∃ g' : Grouping,
      g'.node = tree ∧
      g'.Ordered table ∧
      g'.operands = g.operands ++ links.map Link.operand ∧
      g'.operators = g.operators ++ links.map Link.op ∧
      ∀ op ∈ g'.root?, op ∈ g.root? ∨ least ≤ table.of op.value

/- An operator that binds too loosely ends the climb at once. -/
theorem Climbs.stop
    {least : Int}
    {s : ParseState}
    (lhs : Node)
    (hLoose : table.of s.current.value < least) :
    Climbs table least s s lhs lhs [] where
  chain := .done s
  tight := List.forall_mem_nil _
  loose := hLoose
  grouped g hNode hOrdered _ :=
    ⟨g, hNode, hOrdered, by simp, by simp, fun _ hRoot => .inl hRoot⟩

/-
  An operator, its operand, a climb over what binds the operand
  more tightly, and one from there on, are one climb.
-/
theorem Climbs.step
    {least : Int}
    {s u v w t : ParseState}
    {lhs operand rhs tree : Node}
    {taken : List Token}
    {inner links : List Link}
    (hTight : least ≤ table.of s.current.value)
    (hOperator : Parse.advance s = .ok () u)
    (hOperand : run (unary table) u = .ok operand v)
    (hTaken : u.tokens = taken ++ v.tokens)
    (hInner : Climbs table (table.of s.current.value + 1) v w operand rhs
      inner)
    (hMore : Climbs table least w t
      (.binary s.current.value lhs rhs s.current.location) tree links) :
    Climbs table least s t lhs tree
      (⟨s.current, taken, operand⟩ :: (inner ++ links)) where
  chain := .link hOperator hOperand hTaken (hInner.chain.append hMore.chain)
  tight := by
    intro link hMem
    rcases List.mem_cons.mp hMem with rfl | hMem
    · exact hTight
    · rcases List.mem_append.mp hMem with hMem | hMem
      · have hAbove := hInner.tight link hMem
        omega
      · exact hMore.tight link hMem
  loose := hMore.loose
  grouped := by
    intro g hNode hOrdered hRoot
    -- What binds the operand more tightly is grouped by itself.
    rcases hInner.grouped (.operand operand) rfl trivial
        (by simp [Grouping.root?]) with
      ⟨right, hRightNode, hRight, hRightOperands, hRightOperators,
        hRightRoot⟩
    have hAbove : ∀ op ∈ right.root?,
        table.of s.current.value < table.of op.value := by
      intro op hMem
      rcases hRightRoot op hMem with hNone | hLeast
      · cases hNone
      · omega
    have hNext : ∀ op ∈ (joined s.current g right).root?,
        table.of w.current.value ≤ table.of op.value := by
      intro op hMem
      cases hMem
      have hLoose := hInner.loose
      omega
    rcases hMore.grouped (joined s.current g right)
        (by rw [Grouping.node, hNode, hRightNode])
        ⟨hRoot, hAbove, hOrdered, hRight⟩ hNext with
      ⟨g', hTree, hAll, hOperands, hOperators, hOuter⟩
    refine ⟨g', hTree, hAll, ?_, ?_, ?_⟩
    · simp [hOperands, Grouping.operands, hRightOperands]
    · simp [hOperators, Grouping.operators, hRightOperators]
    · intro op hMem
      rcases hOuter op hMem with hJoined | hLeast
      · cases hJoined
        exact .inr hTight
      · exact .inr hLeast

/-
  Every climb that ends is of this form.  The induction is on the
  allowance, which is enough for the tokens that are left: each
  of the two climbs after an operator has fewer of them.
-/
theorem binaryRest_climb
    {n : Nat}
    {least : Int}
    {lhs tree : Node}
    {s t : ParseState}
    (hEnough : allowance s.rest.length ≤ n)
    (hRun : binaryRest table n least lhs s = .ok tree t) :
    ∃ links, Climbs table least s t lhs tree links := by
  induction n using Nat.strong_induction_on
    generalizing least lhs tree s t with
  | _ n ih =>
      unfold allowance at hEnough
      obtain ⟨m, rfl⟩ : ∃ m, n = m + 2 := ⟨n - 2, by omega⟩
      by_cases hLoose : table.of s.current.value < least
      · rw [binaryRest_stop hLoose] at hRun
        cases hRun
        exact ⟨[], .stop lhs hLoose⟩
      · rcases s with ⟨op, rest, level⟩
        have hTight : least ≤ table.of op.value := not_lt.mp hLoose
        cases rest with
        | nil =>
            -- No operand can follow the last token.
            have hNot : ¬table.of op.value < least := hLoose
            simp [binaryRest, Parse.binaryRest, Steps.bind_apply, hNot,
              Parse.advance] at hRun
        | cons next rest =>
            rw [binaryRest_step hTight (List.cons_ne_nil _ _)] at hRun
            rcases Steps.bind_eq_ok hRun with ⟨operand, v, hUnary, hRun⟩
            rcases Steps.bind_eq_ok hRun with ⟨rhs, w, hInner, hMore⟩
            have hTaken := (progress table (m + 1)).unary _ _ _ hUnary
            have hClimbed := ((orderly table (m + 1)).binaryRest
              (table.of op.value + 1) operand).takes _ _ _ hInner
            have hOperand : run (unary table) ⟨next, rest, level⟩ =
                .ok operand v := by
              have hSame := Form.run_production table .unary
                (s := ⟨next, rest, level⟩) (n := m + 1)
                (by simp [allowance] at hEnough ⊢; omega)
              exact hSame.trans hUnary
            have hSuffix := (orderly table (m + 1)).unary.suffix
              ⟨next, rest, level⟩
            rw [ParseState.before_cons] at hUnary hTaken
            rw [hUnary] at hSuffix
            rcases hSuffix with ⟨taken, hSplit⟩
            simp only [List.length_cons] at hEnough hTaken
            rcases ih (m + 1) (by omega) (by unfold allowance; omega)
                hInner with ⟨inner, hInner⟩
            rcases ih (m + 1) (by omega) (by unfold allowance; omega)
                hMore with ⟨links, hMore⟩
            exact ⟨_, .step hTight rfl hOperand hSplit.symm hInner hMore⟩

end Offside.Grammar

------------------------------------------------------------
-- Parsers
------------------------------------------------------------

namespace Offside.Parser

/- A parser goes on from the state that a production has left. -/
theorem state_resume
    (p : Parser)
    {s : ParseState}
    (hSuffix : s.tokens <:+ p.state.tokens) :
    (p.resume s).state = s := by
  have hTail : s.rest <:+ p.tokens.rest := by
    rcases List.suffix_cons_iff.mp hSuffix with hAll | hLater
    · injection hAll with _ hRest
      rw [hRest]
      exact List.suffix_refl _
    · exact (List.suffix_cons _ _).trans hLater
  rw [state, rest_resume (hTail.trans (List.drop_suffix _ _))]
  rfl

/-
  What follows a left operand is parsed up to the first token that
  binds too loosely.  The tokens before it are operators that bind
  tightly enough, each followed by the tokens of one operand; and
  the tree is that of the one grouping of the left operand and
  these operands in which what is joined on the left binds at least
  as tightly as the operator that it is joined by, and what is
  joined on the right more tightly.
-/
theorem parseRest_grouping
    (p p' : Parser)
    (least : Int)
    (lhs tree : Node)
    (hParse : p.parseRest least lhs = (.ok tree, p')) :
    ∃ links : List Link,
      Chain p.table p.state links p'.state ∧
      p.state.tokens = links.flatMap Link.tokens ++ p'.state.tokens ∧
      (∀ link ∈ links, least ≤ p.table.of link.op.value) ∧
      p.table.of p'.state.current.value < least ∧
      ∃ g : Grouping,
        g.node = tree ∧
        (g.Ordered p.table ∧
          g.operands = lhs :: links.map Link.operand ∧
          g.operators = links.map Link.op) ∧
        ∀ g' : Grouping,
          g'.Ordered p.table →
          g'.operands = lhs :: links.map Link.operand →
          g'.operators = links.map Link.op →
          g' = g := by
  rcases run_eq_ok_iff.mp hParse with ⟨t, hRun, rfl⟩
  rcases Grammar.binaryRest_climb le_rfl hRun with ⟨links, hClimbs⟩
  have hTokens := hClimbs.chain.tokens_eq
  rw [p.state_resume ⟨_, hTokens.symm⟩]
  refine ⟨links, hClimbs.chain, hTokens, hClimbs.tight, hClimbs.loose, ?_⟩
  rcases hClimbs.grouped (.operand lhs) rfl trivial
      (by simp [Grouping.root?]) with
    ⟨g, hNode, hOrdered, hOperands, hOperators, _⟩
  refine ⟨g, hNode, ⟨hOrdered, hOperands, hOperators⟩, ?_⟩
  intro g' hOrdered' hOperands' hOperators'
  exact hOrdered'.unique hOrdered (hOperators'.trans hOperators.symm)
    (hOperands'.trans hOperands.symm)

/- A parser at the first token of `- b * (c < d) - e < f`. -/
def sampleRest :
    Parser :=
  ⟨Precedence.default, .whole 0,
    ⟨[⟨.operator, .text "-", ⟨0, 4⟩⟩,
      ⟨.identifier, .text "b", ⟨0, 6⟩⟩,
      ⟨.operator, .text "*", ⟨0, 8⟩⟩,
      ⟨.operator, .text "(", ⟨0, 10⟩⟩,
      ⟨.identifier, .text "c", ⟨0, 11⟩⟩,
      ⟨.operator, .text "<", ⟨0, 13⟩⟩,
      ⟨.identifier, .text "d", ⟨0, 15⟩⟩,
      ⟨.operator, .text ")", ⟨0, 16⟩⟩,
      ⟨.operator, .text "-", ⟨0, 18⟩⟩,
      ⟨.identifier, .text "e", ⟨0, 20⟩⟩,
      ⟨.operator, .text "<", ⟨0, 22⟩⟩,
      ⟨.identifier, .text "f", ⟨0, 24⟩⟩,
      ⟨.endOfText, .text "", ⟨0, 25⟩⟩], 1,
      ⟨.operator, .text "-", ⟨0, 4⟩⟩⟩⟩

/- The left operand. -/
def sampleOperand : Node :=
  .reference (.text "a") Node.floatType ⟨0, 2⟩

/- The tree of what binds more tightly than a comparison. -/
def sampleGrouped : Node :=
  .binary (.text "-")
    (.binary (.text "-") sampleOperand
      (.binary (.text "*")
        (.reference (.text "b") Node.floatType ⟨0, 6⟩)
        (.binary (.text "<")
          (.reference (.text "c") Node.floatType ⟨0, 11⟩)
          (.reference (.text "d") Node.floatType ⟨0, 15⟩) ⟨0, 13⟩)
        ⟨0, 8⟩)
      ⟨0, 4⟩)
    (.reference (.text "e") Node.floatType ⟨0, 20⟩) ⟨0, 18⟩

theorem parseRest_grouping_sample :
    ∃ p' links,
      sampleRest.parseRest 11 sampleOperand = (.ok sampleGrouped, p') ∧
      Chain sampleRest.table sampleRest.state links p'.state ∧
      (∀ link ∈ links, 11 ≤ sampleRest.table.of link.op.value) ∧
      sampleRest.table.of p'.state.current.value < 11 ∧
      ∃ g : Grouping,
        g.node = sampleGrouped ∧
        g.Ordered sampleRest.table ∧
        g.operands = sampleOperand :: links.map Link.operand ∧
        g.operators = links.map Link.op := by
  have hParse : sampleRest.parseRest 11 sampleOperand =
      (.ok sampleGrouped, (sampleRest.parseRest 11 sampleOperand).2) := by
    rfl
  rcases parseRest_grouping sampleRest _ 11 sampleOperand sampleGrouped
      hParse with
    ⟨links, hChain, _, hTight, hLoose, g, hNode, hGrouping, _⟩
  exact ⟨_, links, hParse, hChain, hTight, hLoose, g, hNode, hGrouping⟩

end Offside.Parser
