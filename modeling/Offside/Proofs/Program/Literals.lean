import Mathlib
import Offside.Proofs.Parser.Derivation
import Offside.Proofs.Program.Failures

/-
  Numbers of a program: which of them are leaves of its tree, and
  which are taken for indentations instead.

  Key definitions include:
    * `Offside.Node.leaves`
    * `Offside.Role.literals`

  Main statements:
    * `Offside.Derives.leaves_eq`: the leaves of what is derived
      are the tokens in that role and the ones that are made up.
    * `Offside.Parser.parse_literals_iff`: the numbers of a text
      are the leaves that are not made up if and only if none of
      them opens a block.
-/

------------------------------------------------------------
-- Leaves
------------------------------------------------------------

namespace Offside

namespace Node

/- The number that a node is. -/
def number? :
    Node →
    Option Value
  | float value => some value
  | _ => none

/- The numbers of a tree, in the order of the source. -/
def leaves
    (node : Node) :
    List Value :=
  node.preorder.filterMap number?

def leavesAll
    (nodes : List Node) :
    List Value :=
  (preorderAll nodes).filterMap number?

def leavesNamed
    (names : List (Value × Node)) :
    List Value :=
  (preorderNamed names).filterMap number?

@[simp] theorem leavesAll_nil :
    leavesAll [] = [] :=
  rfl

@[simp] theorem leavesAll_cons
    (node : Node)
    (nodes : List Node) :
    leavesAll (node :: nodes) = node.leaves ++ leavesAll nodes := by
  simp [leavesAll, leaves, preorderAll]

@[simp] theorem leavesNamed_nil :
    leavesNamed [] = [] :=
  rfl

@[simp] theorem leavesNamed_cons
    (name : Value)
    (node : Node)
    (names : List (Value × Node)) :
    leavesNamed ((name, node) :: names) =
      node.leaves ++ leavesNamed names := by
  simp [leavesNamed, leaves, preorderNamed]

section Forms

variable (node lhs rhs first last step body : Node)
variable (nodes : List Node)
variable (names : List (Value × Node))

@[simp] theorem leaves_float
    (value : Value) :
    (float value).leaves = [value] :=
  rfl

@[simp] theorem leaves_reference
    (name : Value)
    (type : String)
    (location : Location) :
    (reference name type location).leaves = [] :=
  rfl

@[simp] theorem leaves_unary
    (op : Value) :
    (unary op node).leaves = node.leaves := by
  simp [leaves, preorder, number?, List.filterMap_cons]

@[simp] theorem leaves_binary
    (op : Value)
    (location : Location) :
    (binary op lhs rhs location).leaves = lhs.leaves ++ rhs.leaves := by
  simp [leaves, preorder, number?, List.filterMap_cons]

@[simp] theorem leaves_call
    (callee : Value)
    (location : Location) :
    (call callee nodes location).leaves = leavesAll nodes := by
  simp [leaves, leavesAll, preorder, number?, List.filterMap_cons]

@[simp] theorem leaves_branch
    (location : Location) :
    (branch node lhs rhs location).leaves =
      node.leaves ++ lhs.leaves ++ rhs.leaves := by
  simp [leaves, preorder, number?, List.filterMap_cons]

@[simp] theorem leaves_loop
    (counter : Value) :
    (loop counter first last step body).leaves =
      first.leaves ++ last.leaves ++ step.leaves ++ body.leaves := by
  simp [leaves, preorder, number?, List.filterMap_cons]

@[simp] theorem leaves_declare
    (type : String) :
    (declare names type body).leaves =
      leavesNamed names ++ body.leaves := by
  simp [leaves, leavesNamed, preorder, number?, List.filterMap_cons]

@[simp] theorem leaves_prototype
    (name : Value)
    (type : String)
    (line : Nat) :
    (prototype name type nodes line).leaves = leavesAll nodes := by
  simp [leaves, leavesAll, preorder, number?, List.filterMap_cons]

@[simp] theorem leaves_function :
    (function node body).leaves = node.leaves ++ body.leaves := by
  simp [leaves, preorder, number?, List.filterMap_cons]

@[simp] theorem leaves_program
    (name : String) :
    (program name nodes).leaves = leavesAll nodes := by
  simp [leaves, leavesAll, preorder, number?, List.filterMap_cons]

@[simp] theorem leaves_ret :
    (ret node).leaves = node.leaves := by
  simp [leaves, preorder, number?, List.filterMap_cons]

@[simp] theorem leaves_block :
    (block nodes).leaves = leavesAll nodes := by
  simp [leaves, leavesAll, preorder, number?, List.filterMap_cons]

end Forms

end Node

/- The numbers of what is derived. -/
def Construct.leaves :
    Construct →
    List Value
  | .node n | .suite n | .otherwise n | .step n | .initial n | .proto n
  | .item n => n.leaves
  | .arguments nodes | .lines nodes | .parameters nodes
  | .items nodes => Node.leavesAll nodes
  | .names entries => Node.leavesNamed entries

namespace Role

/- The number that a role gives to the tree. -/
def leaf? :
    Role →
    Option Value
  | leaf t => some t.value
  | default value => some value
  | _ => none

/- The numbers that roles give to the tree. -/
def leaves
    (φ : List Role) :
    List Value :=
  φ.filterMap leaf?

/- The number of a token that is a leaf. -/
def literal? :
    Role →
    Option Value
  | leaf t => some t.value
  | _ => none

/- The leaves that are not made up. -/
def literals
    (φ : List Role) :
    List Value :=
  φ.filterMap literal?

@[simp] theorem leaves_nil :
    leaves [] = [] :=
  rfl

@[simp] theorem leaves_leaf
    (t : Token)
    (φ : List Role) :
    leaves (leaf t :: φ) = t.value :: leaves φ :=
  rfl

@[simp] theorem leaves_opener
    (t : Token)
    (φ : List Role) :
    leaves (opener t :: φ) = leaves φ :=
  rfl

@[simp] theorem leaves_mark
    (t : Token)
    (φ : List Role) :
    leaves (mark t :: φ) = leaves φ :=
  rfl

@[simp] theorem leaves_default
    (value : Value)
    (φ : List Role) :
    leaves (default value :: φ) = value :: leaves φ :=
  rfl

@[simp] theorem leaves_append
    (φ ψ : List Role) :
    leaves (φ ++ ψ) = leaves φ ++ leaves ψ :=
  List.filterMap_append

end Role

theorem IsPassed.leaves_eq
    {φ : List Role}
    (hPassed : IsPassed φ) :
    Role.leaves φ = [] := by
  rcases hPassed with rfl | ⟨t, _, rfl⟩ <;> rfl

/-
  The leaves of what is derived are the tokens in that role and
  the ones that are made up.
-/
theorem Derives.leaves_eq
    {table : Precedence}
    {construct : Construct}
    {φ : List Role}
    (hDerives : Derives table construct φ) :
    construct.leaves = Role.leaves φ := by
  induction hDerives
  case elseless hPassed =>
    simp [Construct.leaves, hPassed.leaves_eq]
  case otherwise hPassed _ _ _ ih =>
    simpa [Construct.leaves, hPassed.leaves_eq] using ih
  case nested ih => exact ih
  all_goals
    simp_all [Construct.leaves, Parse.variableOf, Node.one, Node.zero]

end Offside

------------------------------------------------------------
-- Numbers
------------------------------------------------------------

namespace Offside

/- The values of the numbers among tokens. -/
def Token.literals
    (ts : List Token) :
    List Value :=
  (ts.filter fun t => t.kind = .floatLiteral).map Token.value

/-
  What a token in a role can be.  A number is a leaf or opens a
  block, unless it binds like an operator.
-/
def Role.Fits
    (table : Precedence) :
    Role →
    Prop
  | leaf t => t.kind = .floatLiteral
  | opener t => ∃ a, t.value = .amount a
  | mark t => t.kind = .floatLiteral → 0 ≤ table.of t.value
  | default value =>
      value = .amount (.real Binary64.one) ∨
        value = .amount (.real Binary64.zero)

theorem Derives.fits
    {table : Precedence}
    {construct : Construct}
    {φ : List Role}
    (hDerives : Derives table construct φ) :
    ∀ role ∈ φ, role.Fits table := by
  induction hDerives
  case elseless hPassed =>
    rcases hPassed with rfl | ⟨t, hKind, rfl⟩ <;> simp_all [Role.Fits]
  case otherwise hPassed _ _ _ _ =>
    rcases hPassed with rfl | ⟨t, hKind, rfl⟩ <;>
      simp_all [Role.Fits, Token.isOperator]
  all_goals
    simp_all [Role.Fits, Token.isOperator, or_imp, forall_and]

namespace Role

/- The number in a role, be it a leaf or not. -/
def number? :
    Role →
    Option Value
  | leaf t => some t.value
  | opener t => if t.kind = .floatLiteral then some t.value else none
  | mark _ | default _ => none

/- The numbers among tokens are leaves or open blocks. -/
theorem literals_tokens
    {table : Precedence}
    {φ : List Role}
    (hFits : ∀ role ∈ φ, role.Fits table)
    (hApt : ∀ t ∈ tokens φ, t.Apt) :
    Token.literals (tokens φ) = φ.filterMap number? := by
  induction φ with
  | nil => rfl
  | cons role φ ih =>
      have hFirst := hFits role List.mem_cons_self
      have hMore : ∀ ts, tokens (role :: φ) = ts ++ tokens φ →
          Token.literals (tokens φ) = φ.filterMap number? := by
        intro ts hTokens
        refine ih (fun other hMem => hFits other (by simp [hMem]))
          fun t hMem => hApt t ?_
        rw [hTokens]
        exact List.mem_append_right ts hMem
      cases role with
      | default value => exact hMore [] rfl
      | leaf t =>
          have hKind : t.kind = .floatLiteral := hFirst
          simpa [Token.literals, number?, hKind] using hMore [t] rfl
      | opener t =>
          by_cases hKind : t.kind = .floatLiteral <;>
            simpa [Token.literals, number?, hKind, List.filterMap_cons]
              using hMore [t] rfl
      | mark t =>
          have hKind : t.kind ≠ .floatLiteral := by
            intro hKind
            rcases (hApt t (by simp)).mp (.inr hKind) with ⟨a, hValue⟩
            have hBinds := hFirst hKind
            rw [hValue] at hBinds
            cases hBinds
          simpa [Token.literals, number?, hKind, List.filterMap_cons]
            using hMore [t] rfl

theorem length_literals_le
    (φ : List Role) :
    (literals φ).length ≤ (φ.filterMap number?).length := by
  induction φ with
  | nil => exact le_rfl
  | cons role φ ih =>
      unfold literals at ih ⊢
      cases role with
      | leaf t => simpa [literal?, number?] using ih
      | mark t | default value => exact ih
      | opener t =>
          by_cases hKind : t.kind = .floatLiteral
          · simp [literal?, number?, hKind, List.filterMap_cons]
            omega
          · simpa [literal?, number?, hKind, List.filterMap_cons] using ih

/- All numbers are leaves if and only if none of them opens a block. -/
theorem numbers_eq_literals_iff
    (φ : List Role) :
    φ.filterMap number? = literals φ ↔
      ∀ t, opener t ∈ φ → t.kind ≠ .floatLiteral := by
  induction φ with
  | nil => simp [literals]
  | cons role φ ih =>
      have hLength := length_literals_le φ
      unfold literals at ih hLength ⊢
      cases role with
      | leaf t => simpa [literal?, number?] using ih
      | mark t | default value =>
          simpa [literal?, number?, List.filterMap_cons] using ih
      | opener t =>
          by_cases hKind : t.kind = .floatLiteral
          · have hLonger : (opener t :: φ).filterMap number? ≠
                (opener t :: φ).filterMap literal? := by
              intro hSame
              have hCount := congrArg List.length hSame
              simp [literal?, number?, hKind, List.filterMap_cons]
                at hCount
              omega
            exact iff_of_false hLonger
              fun hNone => hNone t List.mem_cons_self hKind
          · simpa [literal?, number?, hKind, List.filterMap_cons] using ih

end Role

end Offside

------------------------------------------------------------
-- Programs
------------------------------------------------------------

namespace Offside.Parser

/- A program is derived from its tokens up to the end. -/
theorem parse_derives
    (p : Parser)
    (name : String)
    {ts : List Token}
    {e : Token}
    (hInner : ∀ t ∈ ts, t.kind ≠ .endOfText)
    (hBegun : ∀ t ∈ ts ++ [e], t.kind ≠ .unset)
    {tree : Node}
    {p' : Parser}
    (hParse : p.parse (TokenList.ofTokens (ts ++ [e])) name =
      (.ok tree, p')) :
    ∃ nodes φ,
      tree = .program name nodes ∧
      Role.tokens φ = ts ∧
      Derives p.table (.items nodes) φ := by
  rcases (parse_eq_ok_iff p name (by simp) hBegun le_rfl tree p').mp hParse
    with ⟨nodes, s, hRun, hTree, _⟩
  rcases Grammar.items_derives hInner hRun with ⟨φ, hTokens, hDerives⟩
  exact ⟨nodes, φ, hTree, hTokens, hDerives⟩

/-
  A program that is parsed from a text is derived from its tokens,
  and the numbers of its tree are the ones in that role and those
  that are made up.  The numbers of the text are those that are
  not made up if and only if no block is opened by a number.
-/
theorem parse_literals_iff
    (s : Scanner)
    (hBuffer : s.input.direct = false)
    (text : String)
    (tokens : List Token)
    (hLex : s.lexText text = .ok tokens)
    (p p' : Parser)
    (name : String)
    (tree : Node)
    (hParse : p.parse (TokenList.ofTokens tokens) name =
      (.ok tree, p')) :
    ∃ ts e nodes φ,
      tokens = ts ++ [e] ∧
      e.kind = .endOfText ∧
      tree = .program name nodes ∧
      Role.tokens φ = ts ∧
      Derives p.table (.items nodes) φ ∧
      tree.leaves = Role.leaves φ ∧
      (Token.literals tokens = Role.literals φ ↔
        ∀ t, .opener t ∈ φ → t.kind ≠ .floatLiteral) := by
  have hBegun := Scanner.begun_of_lexText hBuffer hLex
  rcases Scanner.exists_of_lexText hBuffer hLex with
    ⟨ts, e, rfl, hFinish, hTokens⟩
  have hKind : e.kind = .endOfText := congrArg Token.kind hFinish
  rcases parse_derives p name (fun t hMem => (hTokens t hMem).1.kind)
      hBegun hParse with ⟨nodes, φ, rfl, rfl, hDerives⟩
  refine ⟨_, e, nodes, φ, rfl, hKind, rfl, rfl, hDerives, ?_, ?_⟩
  · simpa [Construct.leaves] using hDerives.leaves_eq
  · have hLast : Token.literals (Role.tokens φ ++ [e]) =
        Token.literals (Role.tokens φ) := by
      simp [Token.literals, hKind]
    rw [hLast, Role.literals_tokens hDerives.fits
      fun t hMem => (hTokens t hMem).2]
    exact Role.numbers_eq_literals_iff φ

/- The tokens of `if a: 1 b`, where the number opens the block. -/
def misreadTokens :
    List Token :=
  [⟨.kwIf, .text "if", ⟨0, 3⟩⟩,
    ⟨.identifier, .text "a", ⟨0, 5⟩⟩,
    ⟨.operator, .text ":", ⟨0, 6⟩⟩,
    ⟨.floatLiteral, .amount (.real Binary64.one), ⟨0, 8⟩⟩,
    ⟨.identifier, .text "b", ⟨0, 10⟩⟩,
    ⟨.endOfText, .text "", ⟨0, 11⟩⟩]

/- The tree that they are parsed to, without the number. -/
def misreadTree : Node :=
  .program "main"
    [.branch (.reference (.text "a") Node.floatType ⟨0, 5⟩)
      (.block [.reference (.text "b") Node.floatType ⟨0, 10⟩])
      (.block []) ⟨0, 3⟩]

theorem parse_literals_iff_misread :
    (Scanner.ofInput Input.empty).lexText "if a: 1 b" =
      .ok misreadTokens ∧
    (new.parse (TokenList.ofTokens misreadTokens) "main").1 =
      .ok misreadTree ∧
    Token.literals misreadTokens = [.amount (.real Binary64.one)] ∧
    misreadTree.leaves = [] ∧
    ∃ ts e φ t,
      misreadTokens = ts ++ [e] ∧
      Role.tokens φ = ts ∧
      Role.opener t ∈ φ ∧
      t.kind = .floatLiteral := by
  have hLex : (Scanner.ofInput Input.empty).lexText "if a: 1 b" =
      .ok misreadTokens := by
    decide +kernel
  have hParse : (new.parse (TokenList.ofTokens misreadTokens) "main").1 =
      .ok misreadTree := by
    rfl
  have hNone : misreadTree.leaves = [] := by
    simp [misreadTree]
  rcases parse_literals_iff (Scanner.ofInput Input.empty) rfl _ _ hLex new
      _ "main" _ (Prod.ext hParse rfl) with
    ⟨ts, e, _, φ, hTokens, _, _, hRoles, _, hLeaves, hNumbers⟩
  refine ⟨hLex, hParse, rfl, hNone, ts, e, φ, ?_⟩
  have hDropped : Token.literals misreadTokens ≠ Role.literals φ := by
    have hEmpty : Role.literals φ = [] := by
      rw [hNone] at hLeaves
      refine List.filterMap_eq_nil_iff.mpr fun role hMem => ?_
      have hLeaf := List.filterMap_eq_nil_iff.mp hLeaves.symm role hMem
      cases role <;> first | rfl | cases hLeaf
    rw [hEmpty]
    decide
  have hOpens : ∃ t, .opener t ∈ φ ∧ t.kind = .floatLiteral := by
    by_contra hOther
    exact hDropped (hNumbers.mpr fun t hMem hKind =>
      hOther ⟨t, hMem, hKind⟩)
  rcases hOpens with ⟨t, hMem, hKind⟩
  exact ⟨t, hTokens, hRoles, hMem, hKind⟩

end Offside.Parser
