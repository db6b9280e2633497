import Mathlib
import Offside.Proofs.Number.Written
import Offside.Proofs.Outline.Translation
import Offside.Proofs.Program.Literals
import Offside.Proofs.Text.Quoted

/-
  Outlines are unambiguous: from the outline of a program that is
  read from a text, its tree is known up to locations and the names
  of the counters of its loops.

  Key definitions include:
    * `Offside.Node.uncounted`
    * `Offside.Node.Legible`
    * `Offside.Outline.form`
    * `Offside.Construct.Readable`
    * `Offside.Parser.Reads`

  Main statements:
    * `Offside.Node.Legible.form_outline`: the form of a node is
      read off its outline.
    * `Offside.Node.Legible.outline_eq_iff`: of trees made of names
      and numbers, the outlines are the same only if the trees are.
    * `Offside.Derives.readable`: what is derived from the tokens of
      a text is such a tree.
    * `Offside.Outlining.visit_unambiguous`: the same for programs
      and for the walk over them.
-/

------------------------------------------------------------
-- Forgetting Counters
------------------------------------------------------------

namespace Offside.Node

mutual

/- The tree without the names of the counters of its loops. -/
def uncounted :
    Node →
    Node
  | absent => absent
  | plain location => plain location
  | float value => float value
  | reference name type location => reference name type location
  | unary op operand => unary op (uncounted operand)
  | binary op lhs rhs location =>
      binary op (uncounted lhs) (uncounted rhs) location
  | call callee args location =>
      call callee (uncountedAll args) location
  | branch cond yes no location =>
      branch (uncounted cond) (uncounted yes) (uncounted no) location
  | loop _ first last step body =>
      loop (.text "") (uncounted first) (uncounted last)
        (uncounted step) (uncounted body)
  | declare names type body =>
      declare (uncountedNamed names) type (uncounted body)
  | prototype name type args line =>
      prototype name type (uncountedAll args) line
  | function proto body =>
      function (uncounted proto) (uncounted body)
  | ret value => ret (uncounted value)
  | program name nodes => program name (uncountedAll nodes)
  | block nodes => block (uncountedAll nodes)

/- Several trees without the names of counters. -/
def uncountedAll :
    List Node →
    List Node
  | [] => []
  | node :: nodes => uncounted node :: uncountedAll nodes

/- Named trees without the names of counters. -/
def uncountedNamed :
    List (Value × Node) →
    List (Value × Node)
  | [] => []
  | (name, node) :: names =>
      (name, uncounted node) :: uncountedNamed names

end

theorem uncountedAll_eq_map
    (nodes : List Node) :
    uncountedAll nodes = nodes.map uncounted := by
  induction nodes with
  | nil => rfl
  | cons node nodes ih => simp [uncountedAll, ih]

end Offside.Node

------------------------------------------------------------
-- Legible Trees
------------------------------------------------------------

namespace Offside.Node

/-
  Trees whose names and operators are texts and whose literals are
  numbers of the format.  They hold no declarations, and prototypes
  only in functions.
-/
inductive Legible : Node → Prop
  | float
      {x : Binary64}
      (hProper : x.Proper) :
      Legible (.float (.amount (.real x)))
  | reference
      (name : String)
      (location : Location) :
      Legible (.reference (.text name) floatType location)
  | unary
      (op : String)
      {operand : Node}
      (hOperand : Legible operand) :
      Legible (.unary (.text op) operand)
  | binary
      (op : String)
      (location : Location)
      {lhs rhs : Node}
      (hLhs : Legible lhs)
      (hRhs : Legible rhs) :
      Legible (.binary (.text op) lhs rhs location)
  | call
      (callee : String)
      (location : Location)
      {args : List Node}
      (hArgs : ∀ arg ∈ args, Legible arg) :
      Legible (.call (.text callee) args location)
  | branch
      (location : Location)
      {cond yes : Node}
      {no : List Node}
      (hCond : Legible cond)
      (hYes : Legible yes)
      (hNo : Legible (.block no)) :
      Legible (.branch cond yes (.block no) location)
  | loop
      (counter : Value)
      {first last step body : Node}
      (hFirst : Legible first)
      (hLast : Legible last)
      (hStep : Legible step)
      (hBody : Legible body) :
      Legible (.loop counter first last step body)
  | ret
      {value : Node}
      (hValue : Legible value) :
      Legible (.ret value)
  | block
      {nodes : List Node}
      (hNodes : ∀ node ∈ nodes, Legible node) :
      Legible (.block nodes)
  | function
      (name : String)
      (line : Nat)
      {args : List Node}
      {body : Node}
      (hArgs : ∀ arg ∈ args, Legible arg)
      (hBody : Legible body) :
      Legible (.function (.prototype (.text name) floatType args line)
        body)
  | program
      (name : String)
      {nodes : List Node}
      (hNodes : ∀ node ∈ nodes, Legible node) :
      Legible (.program name nodes)

end Offside.Node

------------------------------------------------------------
-- The Form of a Node
------------------------------------------------------------

namespace Offside

/- The kind of node that an outline shows, by its first letters. -/
def Outline.form :
    Outline →
    NodeKind
  | .list _ => .generic
  | .text s => if s.toList.head? = some 'F' then .float else .reference
  | .map entries =>
      match (entries.head?.map fun entry => entry.1.toList.take 2) with
      | some ['U', 'N'] => .unaryOp
      | some ['B', 'I'] => .binaryOp
      | some ['C', 'A'] => .call
      | some ['I', 'F'] => .branch
      | some ['F', 'O'] => .loop
      | some ['F', 'U'] => .function
      | some ['R', 'E'] => .ret
      | _ => .program

namespace Node.Legible

/- The form of a legible node is read off its outline. -/
theorem form_outline
    {node : Node}
    (hLegible : node.Legible) :
    node.outline.form = node.kind := by
  cases hLegible with
  | _ => simp [outline, Outline.form, kind]

end Node.Legible

end Offside

------------------------------------------------------------
-- Equal Outlines
------------------------------------------------------------

namespace Offside.Node

/- What a tree is up to locations, lines and names of counters. -/
def essence
    (node : Node) :
    Node :=
  node.unlocated.uncounted

theorem map_essence
    (nodes : List Node) :
    uncountedAll (unlocatedAll nodes) = nodes.map essence := by
  rw [uncountedAll_eq_map, unlocatedAll_eq_map, List.map_map]
  rfl

section Forms

variable (node lhs rhs first last step body : Node)
variable (nodes : List Node)

@[simp] theorem essence_unary
    (op : Value) :
    (unary op node).essence = unary op node.essence :=
  rfl

@[simp] theorem essence_binary
    (op : Value)
    (location : Location) :
    (binary op lhs rhs location).essence =
      binary op lhs.essence rhs.essence Location.origin :=
  rfl

@[simp] theorem essence_call
    (callee : Value)
    (location : Location) :
    (call callee nodes location).essence =
      call callee (nodes.map essence) Location.origin := by
  rw [← map_essence]
  rfl

@[simp] theorem essence_branch
    (location : Location) :
    (branch node lhs rhs location).essence =
      branch node.essence lhs.essence rhs.essence Location.origin :=
  rfl

@[simp] theorem essence_loop
    (counter : Value) :
    (loop counter first last step body).essence =
      loop (.text "") first.essence last.essence step.essence
        body.essence :=
  rfl

@[simp] theorem essence_ret :
    (ret node).essence = ret node.essence :=
  rfl

@[simp] theorem essence_block :
    (block nodes).essence = block (nodes.map essence) := by
  rw [← map_essence]
  rfl

@[simp] theorem essence_function
    (name : Value)
    (type : String)
    (line : Nat) :
    (function (prototype name type nodes line) body).essence =
      function (prototype name type (nodes.map essence) 0)
        body.essence := by
  rw [← map_essence]
  rfl

@[simp] theorem essence_program
    (name : String) :
    (program name nodes).essence = program name (nodes.map essence) := by
  rw [← map_essence]
  rfl

end Forms

/- Nodes with the same outlines in turn are the same in turn. -/
theorem map_essence_eq
    {nodes others : List Node}
    (hNodes : ∀ node ∈ nodes, ∀ {other : Node}, other.Legible →
      node.outline = other.outline → node.essence = other.essence)
    (hOthers : ∀ other ∈ others, other.Legible)
    (hSame : outlines nodes = outlines others) :
    nodes.map essence = others.map essence := by
  induction nodes generalizing others with
  | nil =>
      cases others with
      | nil => rfl
      | cons other others => cases hSame
  | cons node nodes ih =>
      cases others with
      | nil => cases hSame
      | cons other others =>
          rcases List.forall_mem_cons.mp hNodes with ⟨hNode, hMore⟩
          rcases List.forall_mem_cons.mp hOthers with ⟨hOther, hRest⟩
          simp only [outlines, List.cons.injEq] at hSame
          simp only [List.map_cons, hNode hOther hSame.1,
            ih hMore hRest hSame.2]

namespace Legible

theorem kind_eq
    {node other : Node}
    (hNode : node.Legible)
    (hOther : other.Legible)
    (hSame : node.outline = other.outline) :
    node.kind = other.kind := by
  rw [← hNode.form_outline, ← hOther.form_outline, hSame]

/- A second block that is left out is the empty one. -/
theorem outline_eq_of_otherwise
    {no no' : List Node}
    (hSame :
      (if no = [] then [] else [("ELSE", outline (.block no))]) =
        if no' = [] then [] else [("ELSE", outline (.block no'))]) :
    outline (.block no) = outline (.block no') := by
  split_ifs at hSame with hNone hNone' hNone'
  · rw [hNone, hNone']
  · simpa using hSame

/-
  Legible trees with the same outline are the same, but for
  locations, lines and names of counters.
-/
theorem essence_eq
    {node other : Node}
    (hNode : node.Legible)
    (hOther : other.Legible)
    (hSame : node.outline = other.outline) :
    node.essence = other.essence := by
  -- The outline tells the form of the other tree; then parts are compared.
  induction hNode generalizing other with
  | @float x hProper =>
      have hForm := kind_eq (.float hProper) hOther hSame
      cases hOther with
      | @float x' hProper' =>
          have hText : x.text = x'.text := by
            simpa [outline, Value.shown, Amount.text] using hSame
          rw [Binary64.text_injective hProper hProper' hText]
      | _ => cases hForm
  | reference name location =>
      have hForm := kind_eq (.reference name location) hOther hSame
      cases hOther with
      | reference name' location' =>
          have hQuoted : Text.quoted name = Text.quoted name' := by
            simpa [outline, Value.quoted] using hSame
          rw [Text.quoted_injective hQuoted]
          rfl
      | _ => cases hForm
  | @unary op operand hOperand ih =>
      have hForm := kind_eq (.unary op hOperand) hOther hSame
      cases hOther with
      | @unary op' operand' hOperand' =>
          have hParts : op = op' ∧ operand.outline = operand'.outline := by
            simpa [outline, Value.shown] using hSame
          rw [essence_unary, essence_unary, hParts.1, ih hOperand' hParts.2]
      | _ => cases hForm
  | @binary op location lhs rhs hLhs hRhs ihLhs ihRhs =>
      have hForm := kind_eq (.binary op location hLhs hRhs) hOther hSame
      cases hOther with
      | @binary op' location' lhs' rhs' hLhs' hRhs' =>
          have hParts : op = op' ∧ lhs.outline = lhs'.outline ∧
              rhs.outline = rhs'.outline := by
            simpa [outline, Value.shown] using hSame
          rw [essence_binary, essence_binary, hParts.1,
            ihLhs hLhs' hParts.2.1, ihRhs hRhs' hParts.2.2]
      | _ => cases hForm
  | @call callee location args hArgs ih =>
      have hForm := kind_eq (.call callee location hArgs) hOther hSame
      cases hOther with
      | @call callee' location' args' hArgs' =>
          have hParts : callee = callee' ∧ outlines args = outlines args' := by
            simpa [outline, Value.shown] using hSame
          rw [essence_call, essence_call, hParts.1,
            map_essence_eq ih hArgs' hParts.2]
      | _ => cases hForm
  | @branch location cond yes no hCond hYes hNo ihCond ihYes ihNo =>
      have hForm := kind_eq (.branch location hCond hYes hNo) hOther hSame
      cases hOther with
      | @branch location' cond' yes' no' hCond' hYes' hNo' =>
          have hParts : cond.outline = cond'.outline ∧
              yes.outline = yes'.outline ∧
              (if no = [] then [] else [("ELSE", outline (.block no))]) =
                if no' = [] then [] else [("ELSE", outline (.block no'))] := by
            simpa [outline, nodes?] using hSame
          have hElse := outline_eq_of_otherwise hParts.2.2
          rw [essence_branch, essence_branch, ihCond hCond' hParts.1,
            ihYes hYes' hParts.2.1, ihNo hNo' hElse]
      | _ => cases hForm
  | @loop counter first last step body hFirst hLast hStep hBody ihFirst
      ihLast ihStep ihBody =>
      have hForm := kind_eq (.loop counter hFirst hLast hStep hBody) hOther
        hSame
      cases hOther with
      | @loop counter' first' last' step' body' hFirst' hLast' hStep' hBody' =>
          have hParts : first.outline = first'.outline ∧
              last.outline = last'.outline ∧ step.outline = step'.outline ∧
              body.outline = body'.outline := by
            simpa [outline] using hSame
          rw [essence_loop, essence_loop, ihFirst hFirst' hParts.1,
            ihLast hLast' hParts.2.1, ihStep hStep' hParts.2.2.1,
            ihBody hBody' hParts.2.2.2]
      | _ => cases hForm
  | @ret value hValue ih =>
      have hForm := kind_eq (.ret hValue) hOther hSame
      cases hOther with
      | @ret value' hValue' =>
          have hPart : value.outline = value'.outline := by
            simpa [outline] using hSame
          rw [essence_ret, essence_ret, ih hValue' hPart]
      | _ => cases hForm
  | @block nodes hNodes ih =>
      have hForm := kind_eq (.block hNodes) hOther hSame
      cases hOther with
      | @block nodes' hNodes' =>
          have hParts : outlines nodes = outlines nodes' := by
            simpa [outline] using hSame
          rw [essence_block, essence_block, map_essence_eq ih hNodes' hParts]
      | _ => cases hForm
  | @function name line args body hArgs hBody ihArgs ihBody =>
      have hForm := kind_eq (.function name line hArgs hBody) hOther hSame
      cases hOther with
      | @function name' line' args' body' hArgs' hBody' =>
          have hParts : name = name' ∧ outlines args = outlines args' ∧
              body.outline = body'.outline := by
            simpa [outline, Value.shown] using hSame
          rw [essence_function, essence_function, hParts.1,
            map_essence_eq ihArgs hArgs' hParts.2.1,
            ihBody hBody' hParts.2.2]
      | _ => cases hForm
  | @program name nodes hNodes ih =>
      have hForm := kind_eq (.program name hNodes) hOther hSame
      cases hOther with
      | @program name' nodes' hNodes' =>
          have hParts : name = name' ∧ outlines nodes = outlines nodes' := by
            simpa [outline] using hSame
          rw [essence_program, essence_program, hParts.1,
            map_essence_eq ih hNodes' hParts.2]
      | _ => cases hForm

/- The outline shows nothing else of a tree. -/
theorem outline_essence
    {node : Node}
    (hLegible : node.Legible) :
    node.essence.outline = node.outline := by
  have hAll : ∀ nodes : List Node,
      (∀ node ∈ nodes, node.essence.outline = node.outline) →
      outlines (nodes.map essence) = outlines nodes := by
    intro nodes hNodes
    rw [outlines_eq_map, outlines_eq_map, List.map_map]
    exact List.map_congr_left hNodes
  induction hLegible with
  | float | reference => rfl
  | unary _ _ ih => simp [outline, ih]
  | binary _ _ _ _ ihLhs ihRhs => simp [outline, ihLhs, ihRhs]
  | call _ _ _ ih => simp [outline, hAll _ ih]
  | branch _ _ _ _ ihCond ihYes ihNo =>
      simp [outline, nodes?] at ihNo ⊢
      simp [ihCond, ihYes, ihNo]
  | loop _ _ _ _ _ ihFirst ihLast ihStep ihBody =>
      simp [outline, ihFirst, ihLast, ihStep, ihBody]
  | ret _ ih => simp [outline, ih]
  | block _ ih => simp [outline, hAll _ ih]
  | function _ _ _ _ ihArgs ihBody => simp [outline, hAll _ ihArgs, ihBody]
  | program _ _ ih => simp [outline, hAll _ ih]

/-
  Legible trees have the same outline if and only if they are the
  same but for locations, lines and names of counters.
-/
theorem outline_eq_iff
    {node other : Node}
    (hNode : node.Legible)
    (hOther : other.Legible) :
    node.outline = other.outline ↔ node.essence = other.essence := by
  refine ⟨hNode.essence_eq hOther, fun hSame => ?_⟩
  rw [← hNode.outline_essence, ← hOther.outline_essence, hSame]

end Legible

end Offside.Node

------------------------------------------------------------
-- Tokens of a Text
------------------------------------------------------------

namespace Offside

/- Names and operators that are texts, and numbers of the format. -/
structure Token.Legible
    (t : Token) :
    Prop where
  word :
    t.kind = .identifier ∨ t.kind = .operator → ∃ w, t.value = .text w
  number :
    t.kind = .floatLiteral →
      ∃ x : Binary64, x.Proper ∧ t.value = .amount (.real x)

/- A number is read as the one nearest to its digits. -/
theorem Lexeme.number_content
    {lineStart : Bool}
    {text : List Char}
    {value : Value}
    (hContent :
      (scan lineStart text).content = .ok (.floatLiteral, value)) :
    ∃ d : Decimal, value = .amount (.real (d.toBinary64 false)) := by
  unfold content at hContent
  cases hShape : (scan lineStart text).shape with
  | number =>
      rw [hShape] at hContent
      dsimp only at hContent
      split at hContent
      · rename_i d _
        cases hContent
        exact ⟨d, rfl⟩
      · cases hContent
  | word =>
      rw [hShape] at hContent
      simp only [Except.ok.injEq, Prod.mk.injEq] at hContent
      exact absurd hContent.1 (Kind.ofWord_ne_floatLiteral _)
  | _ =>
      rw [hShape] at hContent
      cases hContent

theorem Token.Apt.exists_text
    {t : Token}
    (hApt : t.Apt)
    (hIndent : t.kind ≠ .indent)
    (hNumber : t.kind ≠ .floatLiteral) :
    ∃ w, t.value = .text w := by
  cases hValue : t.value with
  | text w => exact ⟨w, rfl⟩
  | amount a =>
      rcases hApt.mpr ⟨a, hValue⟩ with hKind | hKind
      · exact absurd hKind hIndent
      · exact absurd hKind hNumber

theorem Reading.legible
    {lineStart : Bool}
    {text : List Char}
    {ts : List Token}
    (hReading : Reading lineStart text ts) :
    ∀ t ∈ ts, t.Legible := by
  have hNumbers : ∀ t ∈ ts, t.kind = .floatLiteral →
      ∃ x : Binary64, x.Proper ∧ t.value = .amount (.real x) := by
    induction hReading with
    | finish hShape =>
        intro t hMem hKind
        rw [List.mem_singleton.mp hMem] at hKind
        cases hKind
    | cons hContent hKind hRest ih =>
        refine List.forall_mem_cons.mpr ⟨?_, ih⟩
        rintro rfl
        rcases Lexeme.number_content hContent with ⟨d, rfl⟩
        exact ⟨_, d.proper_toBinary64 false, rfl⟩
  refine fun t hMem => ⟨fun hKind => ?_, hNumbers t hMem⟩
  apply (hReading.apt t hMem).exists_text
  · rcases hKind with hKind | hKind <;> simp [hKind]
  · rcases hKind with hKind | hKind <;> simp [hKind]

/- The tokens of a text are legible. -/
theorem Scanner.legible_of_lexText
    {s : Scanner}
    (hBuffer : s.input.direct = false)
    {text : String}
    {tokens : List Token}
    (hLex : s.lexText text = .ok tokens) :
    ∀ t ∈ tokens, t.Legible := by
  have hReading :=
    (exists_lexText_eq_ok_iff hBuffer text _).mp ⟨_, hLex, rfl⟩
  intro t hMem
  rcases hReading.legible t.unlocated (List.mem_map_of_mem hMem) with
    ⟨hWord, hNumber⟩
  exact ⟨hWord, hNumber⟩

/- What a table binds is a text. -/
theorem Precedence.exists_text
    {table : Precedence}
    {value : Value}
    (hBinds : 0 ≤ table.of value) :
    ∃ w, value = .text w := by
  cases value with
  | text w => exact ⟨w, rfl⟩
  | amount a => cases hBinds

end Offside

------------------------------------------------------------
-- Derived Trees
------------------------------------------------------------

namespace Offside

/-
  That the nodes of a construct are legible, unless something
  stands in the way of showing them.
-/
def Construct.Readable :
    Construct →
    Prop
  | .node n | .step n => n.declarations = [] → n.Legible
  | .suite n | .otherwise n =>
      ∃ nodes, n = .block nodes ∧ (n.declarations = [] → n.Legible)
  | .arguments ns | .lines ns =>
      ns.flatMap Node.declarations = [] → ∀ n ∈ ns, n.Legible
  | .parameters ns => ∀ n ∈ ns, n.Legible
  | .proto n =>
      ∃ name args line,
        n = .prototype (.text name) Node.floatType args line ∧
        ∀ arg ∈ args, arg.Legible
  | .item n => n.hindrances = [] → n.Legible
  | .items ns =>
      ns.flatMap Node.hindrances = [] → ∀ n ∈ ns, n.Legible
  | .initial _ | .names _ => True

/- Nodes in a row are legible when the first and the others are. -/
theorem Node.forall_legible_cons
    {hindrances : Node → List Node}
    {node : Node}
    {nodes : List Node}
    (hFirst : hindrances node = [] → node.Legible)
    (hMore :
      nodes.flatMap hindrances = [] → ∀ n ∈ nodes, n.Legible)
    (hNone : (node :: nodes).flatMap hindrances = []) :
    ∀ n ∈ node :: nodes, n.Legible := by
  rw [List.flatMap_cons, List.append_eq_nil_iff] at hNone
  exact List.forall_mem_cons.mpr ⟨hFirst hNone.1, hMore hNone.2⟩

theorem Node.forall_legible_singleton
    {node : Node}
    (hFirst : node.declarations = [] → node.Legible)
    (hNone : [node].flatMap declarations = []) :
    ∀ n ∈ [node], n.Legible :=
  forall_legible_cons hFirst (fun _ => List.forall_mem_nil _) hNone

theorem Node.declarations_of_hindrances
    {node : Node}
    (hNone : node.hindrances = []) :
    node.declarations = [] := by
  unfold hindrances at hNone
  split at hNone
  · cases hNone
  · exact hNone

theorem Token.Legible.variableOf
    {t : Token}
    (hToken : t.Legible)
    (hKind : t.kind = .identifier) :
    (Parse.variableOf t).Legible := by
  rcases hToken.word (.inl hKind) with ⟨w, hValue⟩
  rw [Parse.variableOf, hValue]
  exact .reference w _

/- What is derived from legible tokens is readable. -/
theorem Derives.readable
    {table : Precedence}
    {c : Construct}
    {φ : List Role}
    (hDerives : Derives table c φ)
    (hTokens : ∀ t ∈ Role.tokens φ, t.Legible) :
    c.Readable := by
  -- In each case the tokens of the parts are told apart first.
  induction hDerives with
    try simp only [Role.tokens_leaf, Role.tokens_opener, Role.tokens_mark,
      Role.tokens_append, List.forall_mem_cons, List.forall_mem_append]
      at hTokens
  | literal hKind =>
      intro _
      rcases hTokens.1.number hKind with ⟨x, hProper, hValue⟩
      rw [hValue]
      exact .float hProper
  | reference hKind => exact fun _ => hTokens.1.variableOf hKind
  | call hName hOpening hArguments hClosing ih =>
      intro hNone
      rcases hTokens.1.word (.inl hName) with ⟨w, hValue⟩
      rw [Node.declarations_call] at hNone
      rw [hValue]
      exact .call w _ (ih hTokens.2.2.1 hNone)
  | noArguments | noLines | noItems => exact fun _ => List.forall_mem_nil _
  | lastArgument hLast ih | lastLine hLast ih =>
      exact Node.forall_legible_singleton (ih hTokens)
  | argument hFirst hComma hSome hMore ihFirst ihMore =>
      exact Node.forall_legible_cons (ihFirst hTokens.1)
        (ihMore hTokens.2.2)
  | parenthesized hOpening hInner hClosing ih => exact ih hTokens.2.1
  | unary hKind hOperand ih =>
      intro hNone
      rcases hTokens.1.word (.inr hKind) with ⟨w, hValue⟩
      rw [Node.declarations_unary] at hNone
      rw [hValue]
      exact .unary w (ih hTokens.2 hNone)
  | binary hLhs hBinds hRhs ihLhs ihRhs =>
      intro hNone
      rcases Precedence.exists_text hBinds with ⟨w, hValue⟩
      rw [Node.declarations_binary, List.append_eq_nil_iff] at hNone
      rw [hValue]
      exact .binary w _ (ihLhs hTokens.1 hNone.1)
        (ihRhs hTokens.2.2 hNone.2)
  | nested hKind hBlock ih =>
      rcases ih (List.forall_mem_cons.mpr hTokens) with
        ⟨nodes, rfl, hLegible⟩
      exact hLegible
  | suite hValue hLines ih =>
      refine ⟨_, rfl, fun hNone => ?_⟩
      rw [Node.declarations_block] at hNone
      exact .block (ih hTokens.2 hNone)
  | line hFirst hKind hValue hSome hMore ihFirst ihMore =>
      exact Node.forall_legible_cons (ihFirst hTokens.1)
        (ihMore hTokens.2.2)
  | branch hIf hCond hColon hYes hNo ihCond ihYes ihNo =>
      intro hNone
      simp only [Node.declarations_branch, List.append_eq_nil_iff] at hNone
      rcases ihYes hTokens.2.2.2.1 with ⟨_, _, hYes⟩
      rcases ihNo hTokens.2.2.2.2 with ⟨no, rfl, hNo⟩
      exact .branch _ (ihCond hTokens.2.1 hNone.1) (hYes hNone.2.1)
        (hNo hNone.2.2)
  | elseless hPassed =>
      exact ⟨[], rfl, fun _ => .block (List.forall_mem_nil _)⟩
  | otherwise hPassed hElse hColon hNo ih => exact ih hTokens.2.2.2
  | loop hFor hCounter hAssign hFirst hComma hLast hStep hIn hBody ihFirst
      ihLast ihStep ihBody =>
      intro hNone
      simp only [Node.declarations_loop, Node.declarations_block,
        List.append_eq_nil_iff] at hNone
      rcases hTokens with ⟨_, _, _, hFirst, _, hLast, hStep, _, hBody⟩
      exact .loop _ (ihFirst hFirst hNone.1) (ihLast hLast hNone.2.1)
        (ihStep hStep hNone.2.2.1)
        (.block (Node.forall_legible_singleton (ihBody hBody) hNone.2.2.2))
  | noStep =>
      exact fun _ => .float (Binary64.proper_ofRatio false 1 Nat.one_pos)
  | step hComma hStep ih => exact ih hTokens.2
  | declare =>
      intro hNone
      simp [Node.declarations, Node.preorder, Node.kind] at hNone
  | lastName | name | noInitial | initial => trivial
  | ret hReturn hValue ih =>
      intro hNone
      rw [Node.declarations_ret] at hNone
      exact .ret (ih hTokens.2 hNone)
  | noParameters => exact List.forall_mem_nil _
  | lastParameter hName =>
      refine List.forall_mem_singleton.mpr ?_
      exact hTokens.1.variableOf hName
  | parameter hName hComma hMore ih =>
      exact List.forall_mem_cons.mpr
        ⟨hTokens.1.variableOf hName, ih hTokens.2.2⟩
  | proto hName hOpening hParameters hClosing ih =>
      rcases hTokens.1.word (.inl hName) with ⟨w, hValue⟩
      exact ⟨w, _, _, by rw [hValue], ih hTokens.2.2.1⟩
  | function hFunction hProto hColon hBody ihProto ihBody =>
      rcases ihProto hTokens.2.1 with ⟨name, args, line, rfl, hArgs⟩
      rcases ihBody hTokens.2.2.2 with ⟨nodes, rfl, hBody⟩
      intro hNone
      have hFree := Node.declarations_of_hindrances hNone
      rw [Node.declarations_function, List.append_eq_nil_iff] at hFree
      exact .function name line hArgs (hBody hFree.2)
  | external hExtern hProto ih =>
      rcases ih hTokens.2 with ⟨name, args, line, rfl, hArgs⟩
      intro hNone
      cases hNone
  | expression hNode ih =>
      exact fun hNone => ih hTokens (Node.declarations_of_hindrances hNone)
  | semicolon hSemicolon hMore ih => exact ih hTokens.2
  | item hFirst hMore ihFirst ihMore =>
      exact Node.forall_legible_cons (ihFirst hTokens.1) (ihMore hTokens.2)

end Offside

------------------------------------------------------------
-- Programs
------------------------------------------------------------

namespace Offside

/- That a program is read from a text, with any table and any name. -/
def Parser.Reads
    (tree : Node) :
    Prop :=
  ∃ (s : Scanner) (text : String) (tokens : List Token) (p p' : Parser)
    (name : String),
    s.input.direct = false ∧
    s.lexText text = .ok tokens ∧
    p.parse (TokenList.ofTokens tokens) name = (.ok tree, p')

theorem Parser.Reads.produces
    {tree : Node}
    (hReads : Parser.Reads tree) :
    Parser.Produces tree := by
  rcases hReads with ⟨_, _, tokens, p, p', name, _, _, hParse⟩
  exact .inl ⟨p, _, name, p', hParse⟩

/- A program from a text is legible if nothing stands in the way. -/
theorem Parser.Reads.legible
    {tree : Node}
    (hReads : Parser.Reads tree)
    (hNone : tree.obstacles = []) :
    tree.Legible := by
  rcases hReads with ⟨s, text, tokens, p, p', name, hBuffer, hLex, hParse⟩
  have hLegible := Scanner.legible_of_lexText hBuffer hLex
  have hBegun := Scanner.begun_of_lexText hBuffer hLex
  rcases Scanner.exists_of_lexText hBuffer hLex with
    ⟨ts, e, rfl, _, hTokens⟩
  rcases Parser.parse_derives p name
      (fun t hMem => (hTokens t hMem).1.kind) hBegun hParse with
    ⟨nodes, φ, rfl, rfl, hDerives⟩
  have hReadable := hDerives.readable
    fun t hMem => hLegible t (List.mem_append_left _ hMem)
  exact .program name (hReadable hNone)

namespace Outlining

/- What the walk over a parsed tree shows is its outline. -/
theorem eq_outline_of_taking
    {tree : Node}
    (hTree : Parser.Produces tree)
    {s s' : OutlineState}
    {o : Outline}
    (hVisit : taking (visit tree) s = .ok o s') :
    tree.obstacles = [] ∧ o = tree.outline := by
  rw [visit_of_produces hTree, taking_shows] at hVisit
  cases hNone : tree.obstacles with
  | nil =>
      rw [hNone] at hVisit
      cases hVisit
      exact ⟨rfl, rfl⟩
  | cons node nodes =>
      rw [hNone] at hVisit
      cases hVisit

/-
  Two programs are read from texts, and the walk over each of them
  succeeds, whatever is on the stack.  It shows the same outline
  of both if and only if they are the same program but for
  locations, lines and the names of the counters of loops.
-/
theorem visit_unambiguous
    (first second : Node)
    (hFirst : Parser.Reads first)
    (hSecond : Parser.Reads second)
    (s t s' t' : OutlineState)
    (o o' : Outline)
    (hVisit : taking (visit first) s = .ok o s')
    (hVisit' : taking (visit second) t = .ok o' t') :
    o = o' ↔
      first.unlocated.uncounted = second.unlocated.uncounted := by
  rcases eq_outline_of_taking hFirst.produces hVisit with ⟨hFree, rfl⟩
  rcases eq_outline_of_taking hSecond.produces hVisit' with ⟨hFree', rfl⟩
  exact (hFirst.legible hFree).outline_eq_iff (hSecond.legible hFree')

/- The tokens of `for i = 1, a in a`. -/
def countingTokens :
    List Token :=
  [⟨.kwFor, .text "for", ⟨0, 4⟩⟩,
    ⟨.identifier, .text "i", ⟨0, 6⟩⟩,
    ⟨.operator, .text "=", ⟨0, 8⟩⟩,
    ⟨.floatLiteral, .amount (.real Binary64.one), ⟨0, 10⟩⟩,
    ⟨.operator, .text ",", ⟨0, 11⟩⟩,
    ⟨.identifier, .text "a", ⟨0, 13⟩⟩,
    ⟨.kwIn, .text "in", ⟨0, 16⟩⟩,
    ⟨.identifier, .text "a", ⟨0, 18⟩⟩,
    ⟨.endOfText, .text "", ⟨0, 19⟩⟩]

/- The tokens of `for a = 1, a, 1.0 in a`. -/
def steppingTokens :
    List Token :=
  [⟨.kwFor, .text "for", ⟨0, 4⟩⟩,
    ⟨.identifier, .text "a", ⟨0, 6⟩⟩,
    ⟨.operator, .text "=", ⟨0, 8⟩⟩,
    ⟨.floatLiteral, .amount (.real Binary64.one), ⟨0, 10⟩⟩,
    ⟨.operator, .text ",", ⟨0, 11⟩⟩,
    ⟨.identifier, .text "a", ⟨0, 13⟩⟩,
    ⟨.operator, .text ",", ⟨0, 14⟩⟩,
    ⟨.floatLiteral, .amount (.real Binary64.one), ⟨0, 18⟩⟩,
    ⟨.kwIn, .text "in", ⟨0, 21⟩⟩,
    ⟨.identifier, .text "a", ⟨0, 23⟩⟩,
    ⟨.endOfText, .text "", ⟨0, 24⟩⟩]

/- A loop from one up to a variable, with this counter. -/
def countingTree
    (counter : String)
    (last body : Location) :
    Node :=
  .program "main"
    [.loop (.text counter) Node.one
      (.reference (.text "a") Node.floatType last) Node.one
      (.block [.reference (.text "a") Node.floatType body])]

theorem visit_unambiguous_counters :
    Parser.Reads (countingTree "i" ⟨0, 13⟩ ⟨0, 18⟩) ∧
    Parser.Reads (countingTree "a" ⟨0, 13⟩ ⟨0, 23⟩) ∧
    ∃ o,
      taking (visit (countingTree "i" ⟨0, 13⟩ ⟨0, 18⟩)) start =
        .ok o start ∧
      taking (visit (countingTree "a" ⟨0, 13⟩ ⟨0, 23⟩)) start =
        .ok o start := by
  have hFirst : Parser.Reads (countingTree "i" ⟨0, 13⟩ ⟨0, 18⟩) :=
    ⟨Scanner.ofInput Input.empty, "for i = 1, a in a", countingTokens,
      Parser.new, _, "main", rfl, by decide +kernel, rfl⟩
  have hSecond : Parser.Reads (countingTree "a" ⟨0, 13⟩ ⟨0, 23⟩) :=
    ⟨Scanner.ofInput Input.empty, "for a = 1, a, 1.0 in a", steppingTokens,
      Parser.new, _, "main", rfl, by decide +kernel, rfl⟩
  have hVisit : ∀ tree, Parser.Reads tree → tree.obstacles = [] →
      taking (visit tree) start = .ok tree.outline start := by
    intro tree hReads hNone
    rw [visit_of_produces hReads.produces, taking_shows, hNone]
    rfl
  have hShown := hVisit _ hFirst rfl
  have hShown' := hVisit _ hSecond rfl
  have hSame := (visit_unambiguous _ _ hFirst hSecond _ _ _ _ _ _ hShown
    hShown').mpr rfl
  exact ⟨hFirst, hSecond, _, hShown, hSame ▸ hShown'⟩

end Outlining

end Offside
