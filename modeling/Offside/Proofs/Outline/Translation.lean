import Mathlib
import Offside.Outline.Visit
import Offside.Proofs.Node.Tree
import Offside.Proofs.Parser.Shape

/-
  Outlines of parsed trees: the walk that keeps outlines on a
  stack comes to the outline that is read off the tree, form by
  form.

  Key definitions include:
    * `Offside.Node.outline`
    * `Offside.Node.obstacles`
    * `Offside.Outlining.shows`
    * `Offside.Parser.Produces`

  Main statements:
    * `Offside.Outlining.visit_shapes`: the walk over a parsed
      expression shows its outline or stops at a declaration.
    * `Offside.Outlining.visit_produced`: what the walk comes to
      on every tree that is parsed.
-/

------------------------------------------------------------
-- Outlines
------------------------------------------------------------

namespace Offside.Node

mutual

/-
  The outline of a tree, from the outlines of its parts.  The
  second block of a branch is shown if it has nodes.  Forms that
  are never shown have the empty outline.
-/
def outline :
    Node →
    Outline
  | absent | plain _ | declare .. | prototype .. => .list []
  | float value => .text ("FLOAT[" ++ value.shown ++ "]")
  | reference name type _ =>
      .text ("VARIABLE[(" ++ name.quoted ++ ", " ++ Text.quoted type
        ++ ")]")
  | unary op operand =>
      .map [("UNARY[" ++ op.shown ++ "]", outline operand)]
  | binary op lhs rhs _ =>
      .map [("BINARY[" ++ op.shown ++ "]",
        .map [("lhs", outline lhs), ("rhs", outline rhs)])]
  | call callee args _ =>
      .map [("CALL[" ++ callee.shown ++ "]",
        .map [("args", .list (outlines args))])]
  | branch cond yes no _ =>
      .map [("IF-STMT",
        .map ([("CONDITION", outline cond), ("THEN", outline yes)] ++
          if (no.nodes?.getD []).isEmpty then []
          else [("ELSE", outline no)]))]
  | loop _ first last step body =>
      .map [("FOR-STMT",
        .map [("start", outline first), ("end", outline last),
          ("step", outline step), ("body", outline body)])]
  | function (prototype name _ args _) body =>
      .map [("FUNCTION[" ++ name.shown ++ "]",
        .map [("args", .list (outlines args)), ("body", outline body)])]
  | function _ _ => .list []
  | ret value => .map [("RETURN", outline value)]
  | program name nodes =>
      .map [("MODULE[" ++ name ++ "]", .list (outlines nodes))]
  | block nodes => .list (outlines nodes)

/- The outlines of several trees, in order. -/
def outlines :
    List Node →
    List Outline
  | [] => []
  | node :: nodes => outline node :: outlines nodes

end

theorem outlines_eq_map
    (nodes : List Node) :
    outlines nodes = nodes.map outline := by
  induction nodes with
  | nil => rfl
  | cons node nodes ih => simp [outlines, ih]

end Offside.Node

------------------------------------------------------------
-- Obstacles
------------------------------------------------------------

namespace Offside.Node

/- The declarations in a tree, in the order of the walk. -/
def declarations
    (node : Node) :
    List Node :=
  node.preorder.filter fun n => n.kind = .declaration

/- The items of a program; another tree is an item of its own. -/
def items :
    Node →
    List Node
  | program _ nodes => nodes
  | node => [node]

/- What stands in the way of showing an item. -/
def hindrances
    (item : Node) :
    List Node :=
  if item.kind = .prototype then [item] else item.declarations

/-
  What stands in the way of showing a tree, in the order of the
  walk: prototypes that are items, and declarations.
-/
def obstacles
    (tree : Node) :
    List Node :=
  tree.items.flatMap hindrances

/- The error that an obstacle leads to. -/
def refusal :
    Node →
    OutlineError
  | prototype .. => .prototype
  | _ => .declaration

theorem filter_preorderAll
    (nodes : List Node) :
    ((preorderAll nodes).filter fun n => n.kind = .declaration) =
      nodes.flatMap declarations := by
  rw [preorderAll_eq_flatMap, List.filter_flatMap]
  rfl

section Forms

variable (node lhs rhs first last step body : Node)
variable (nodes : List Node)

@[simp] theorem declarations_unary
    (op : Value) :
    (unary op node).declarations = node.declarations :=
  rfl

@[simp] theorem declarations_binary
    (op : Value)
    (location : Location) :
    (binary op lhs rhs location).declarations =
      lhs.declarations ++ rhs.declarations :=
  List.filter_append lhs.preorder rhs.preorder

@[simp] theorem declarations_call
    (callee : Value)
    (location : Location) :
    (call callee nodes location).declarations =
      nodes.flatMap declarations :=
  filter_preorderAll nodes

@[simp] theorem declarations_branch
    (location : Location) :
    (branch node lhs rhs location).declarations =
      node.declarations ++ (lhs.declarations ++ rhs.declarations) := by
  simp only [declarations, ← List.filter_append, ← List.append_assoc]
  rfl

@[simp] theorem declarations_loop
    (counter : Value) :
    (loop counter first last step body).declarations =
      first.declarations ++ (last.declarations ++
        (step.declarations ++ body.declarations)) := by
  simp only [declarations, ← List.filter_append, ← List.append_assoc]
  rfl

@[simp] theorem declarations_prototype
    (name : Value)
    (type : String)
    (line : Nat) :
    (prototype name type nodes line).declarations =
      nodes.flatMap declarations :=
  filter_preorderAll nodes

@[simp] theorem declarations_function :
    (function node body).declarations =
      node.declarations ++ body.declarations :=
  List.filter_append node.preorder body.preorder

@[simp] theorem declarations_ret :
    (ret node).declarations = node.declarations :=
  rfl

@[simp] theorem declarations_block :
    (block nodes).declarations = nodes.flatMap declarations :=
  filter_preorderAll nodes

end Forms

/-
  Something stands in the way if and only if an item is a
  prototype or a declaration is anywhere in the tree.
-/
theorem obstacles_ne_nil_iff
    (tree : Node) :
    tree.obstacles ≠ [] ↔
      (∃ item ∈ tree.items, item.kind = .prototype) ∨
        ∃ node ∈ tree.preorder, node.kind = .declaration := by
  have hItem : ∀ item : Node, item.hindrances ≠ [] ↔
      item.kind = .prototype ∨
        ∃ node ∈ item.preorder, node.kind = .declaration := by
    intro item
    unfold hindrances
    split
    · simp_all
    · simp_all [declarations]
  have hTree : (∃ node ∈ tree.preorder, node.kind = .declaration) ↔
      ∃ item ∈ tree.items,
        ∃ node ∈ item.preorder, node.kind = .declaration := by
    cases tree with
    | program name nodes =>
        simp only [items, preorder, preorderAll_eq_flatMap,
          List.mem_cons, List.mem_flatMap]
        grind [kind]
    | _ => simp [items]
  rw [hTree, obstacles, ne_eq, List.flatMap_eq_nil_iff]
  simp only [not_forall, ← exists_or, ← and_or_left, ← hItem,
    exists_prop]

end Offside.Node

------------------------------------------------------------
-- What a Walk Comes To
------------------------------------------------------------

namespace Offside.Outlining

variable {α β : Type}

/- The error of the first obstacle, or else a result. -/
def gives
    (obstacles : List Node)
    (a : α) :
    Outlining α :=
  match obstacles.head? with
  | some node => throw node.refusal
  | none => pure a

/- The error of the first obstacle, or else an outline on the stack. -/
def shows
    (obstacles : List Node)
    (outline : Outline) :
    Outlining Unit :=
  gives obstacles outline >>= push

theorem gives_bind_gives
    (obstacles : List Node)
    (more : α → List Node)
    (a : α)
    (f : α → β) :
    (gives obstacles a >>= fun b => gives (more b) (f b)) =
      gives (obstacles ++ more a) (f a) := by
  cases obstacles with
  | nil => rfl
  | cons node nodes => rfl

theorem gives_bind_shows
    (obstacles : List Node)
    (more : α → List Node)
    (a : α)
    (f : α → Outline) :
    (gives obstacles a >>= fun b => shows (more b) (f b)) =
      shows (obstacles ++ more a) (f a) := by
  cases obstacles with
  | nil => rfl
  | cons node nodes => rfl

theorem taking_shows
    (obstacles : List Node)
    (outline : Outline) :
    taking (shows obstacles outline) = gives obstacles outline := by
  cases obstacles with
  | nil => rfl
  | cons node nodes => rfl

theorem gives_nil
    (a : α) :
    gives [] a = pure a :=
  rfl

theorem push_eq_shows
    (outline : Outline) :
    push outline = shows [] outline :=
  rfl

theorem visitAll_eq_gives
    (hindrances : Node → List Node)
    {nodes : List Node}
    (hNodes : ∀ node ∈ nodes,
      visit node = shows (hindrances node) node.outline) :
    visitAll nodes =
      gives (nodes.flatMap hindrances) (Node.outlines nodes) := by
  induction nodes with
  | nil => rfl
  | cons node nodes ih =>
      rcases List.forall_mem_cons.mp hNodes with ⟨hFirst, hMore⟩
      rw [visitAll, hFirst, ih hMore, taking_shows]
      simp only [← gives_nil, gives_bind_gives, List.flatMap_cons,
        List.append_nil, Node.outlines]

end Offside.Outlining

------------------------------------------------------------
-- Expressions
------------------------------------------------------------

namespace Offside.Outlining

/- The walk over the node shows it or stops at a declaration. -/
structure Shown
    (node : Node) :
    Prop where
  kind : node.kind ≠ .prototype ∧ node.kind ≠ .program
  visit :
    Outlining.visit node = shows node.declarations node.outline

/- A block of which this holds. -/
def ShownBlock
    (node : Node) :
    Prop :=
  Shown node ∧ ∃ nodes, node = .block nodes

theorem shown_block
    {nodes : List Node}
    (hNodes : ∀ node ∈ nodes, Shown node) :
    Shown (.block nodes) := by
  refine ⟨⟨nofun, nofun⟩, ?_⟩
  rw [visit, visitAll_eq_gives Node.declarations
    fun node hMem => (hNodes node hMem).visit]
  simp only [push_eq_shows, gives_bind_shows, List.append_nil,
    Node.declarations_block, Node.outline]

theorem shown_branch
    {cond yes no : Node}
    (location : Location)
    (hCond : Shown cond)
    (hYes : Shown yes)
    (hNo : ShownBlock no) :
    Shown (.branch cond yes no location) := by
  rcases hNo with ⟨hNo, nodes, rfl⟩
  have hPresent : (Node.block nodes).isPresent = true := rfl
  refine ⟨⟨nofun, nofun⟩, ?_⟩
  rw [visit, hCond.visit, hYes.visit, hNo.visit, hPresent]
  simp only [taking_shows, push_eq_shows, if_true, gives_bind_shows,
    List.append_nil, Node.declarations_branch]
  congr 1
  simp [Outline.ofBranch, Node.outline, Node.nodes?, Outline.isEmpty,
    Node.outlines_eq_map]

theorem shown_loop
    (counter : Value)
    {first last step body : Node}
    (hFirst : Shown first)
    (hLast : Shown last)
    (hStep : Shown step)
    (hBody : Shown body) :
    Shown (.loop counter first last step body) := by
  refine ⟨⟨nofun, nofun⟩, ?_⟩
  rw [visit, hFirst.visit, hLast.visit, hStep.visit, hBody.visit]
  simp only [taking_shows, push_eq_shows, gives_bind_shows,
    List.append_nil, Node.declarations_loop]
  rfl

theorem shown_reference
    (name : Value)
    (type : String)
    (location : Location) :
    Shown (.reference name type location) := by
  have hText : Outline.ofVariable name type =
      .text ("VARIABLE[(" ++ name.quoted ++ ", " ++ Text.quoted type
        ++ ")]") := by
    refine congrArg Outline.text (String.toList_inj.mp ?_)
    simp [Outline.tag]
  refine ⟨⟨nofun, nofun⟩, ?_⟩
  rw [visit, hText]
  rfl

/- The forms of the language are shown with their parts. -/
theorem visit_shapes
    (table : Precedence) :
    table.Shapes Shown ShownBlock where
  float value := ⟨⟨nofun, nofun⟩, rfl⟩
  reference name location := shown_reference name _ location
  unary := by
    intro op operand _ _ hOperand
    refine ⟨⟨nofun, nofun⟩, ?_⟩
    rw [visit, hOperand.visit]
    simp only [taking_shows, push_eq_shows, gives_bind_shows,
      List.append_nil, Node.declarations_unary]
    rfl
  binary := by
    intro op lhs rhs location _ hLhs hRhs
    refine ⟨⟨nofun, nofun⟩, ?_⟩
    rw [visit, hLhs.visit, hRhs.visit]
    simp only [taking_shows, push_eq_shows, gives_bind_shows,
      List.append_nil, Node.declarations_binary]
    rfl
  call := by
    intro callee args location hArgs
    refine ⟨⟨nofun, nofun⟩, ?_⟩
    rw [visit, visitAll_eq_gives Node.declarations
      fun arg hMem => (hArgs arg hMem).visit]
    simp only [push_eq_shows, gives_bind_shows, List.append_nil,
      Node.declarations_call]
    rfl
  branch := fun location hCond hYes hNo =>
    shown_branch location hCond hYes.1 hNo
  loop := by
    intro counter first last step body hFirst hLast hStep hBody
    refine shown_loop counter hFirst hLast hStep (shown_block ?_)
    simpa using hBody
  declare := fun _ _ _ => ⟨⟨nofun, nofun⟩, rfl⟩
  ret := by
    intro value hValue
    refine ⟨⟨nofun, nofun⟩, ?_⟩
    rw [visit, hValue.visit]
    simp only [taking_shows, push_eq_shows, gives_bind_shows,
      List.append_nil, Node.declarations_ret]
    rfl
  block := fun hNodes => ⟨shown_block hNodes, _, rfl⟩
  inner := fun hBlock => hBlock.1

end Offside.Outlining

------------------------------------------------------------
-- Items and Programs
------------------------------------------------------------

namespace Offside

namespace Outlining

/- A function is shown with the parameters of its signature. -/
theorem visit_function
    {proto body : Node}
    (hProto : proto.IsSignature)
    (hBody : Shown body) :
    visit (.function proto body) =
      shows (Node.function proto body).declarations
        (Node.function proto body).outline := by
  rcases hProto with ⟨name, args, line, rfl, hArgs⟩
  have hShown : ∀ arg ∈ args,
      visit arg = shows arg.declarations arg.outline := by
    intro arg hMem
    rcases hArgs arg hMem with ⟨param, location, rfl⟩
    exact (shown_reference _ _ _).visit
  rw [visit, visitAll_eq_gives Node.declarations hShown, hBody.visit]
  simp only [taking_shows, push_eq_shows, gives_bind_shows,
    List.append_nil, Node.declarations_function,
    Node.declarations_prototype]
  rfl

/- An item is shown, or the walk stops at what stands in the way. -/
theorem visit_item
    {item : Node}
    (hItem : item.IsItem Shown ShownBlock) :
    visit item = shows item.hindrances item.outline := by
  rcases hItem with ⟨proto, body, rfl, hProto, hBody⟩ | hProto | hShown
  · exact visit_function hProto hBody.1
  · rcases hProto with ⟨name, args, line, rfl, _⟩
    rfl
  · rw [Node.hindrances, if_neg hShown.kind.1]
    exact hShown.visit

/- An item is not a program. -/
theorem items_of_isItem
    {item : Node}
    (hItem : item.IsItem Shown ShownBlock) :
    item.items = [item] := by
  rcases hItem with ⟨proto, body, rfl, _⟩ | ⟨name, args, line, rfl, _⟩ |
    hShown
  · rfl
  · rfl
  · cases item with
    | program name nodes => exact absurd rfl hShown.kind.2
    | _ => rfl

end Outlining

/-
  That a tree is parsed: a program, or a form of the language on
  its own, from any tokens and with any table.
-/
def Parser.Produces
    (tree : Node) :
    Prop :=
  (∃ p tokens name p', parse p tokens name = (.ok tree, p')) ∨
    ∃ p form p', parseForm p form = (.ok tree, p')

namespace Outlining

theorem visit_of_produces
    {tree : Node}
    (hTree : Parser.Produces tree) :
    visit tree = shows tree.obstacles tree.outline := by
  rcases hTree with ⟨p, tokens, name, p', hParse⟩ | ⟨p, form, p', hParse⟩
  · rcases Parser.run_gives
        (Parser.program_gives (visit_shapes p.table) name) hParse with
      ⟨items, rfl, hItems⟩
    rw [visit, visitAll_eq_gives Node.hindrances
      fun item hMem => visit_item (hItems item hMem)]
    simp only [push_eq_shows, gives_bind_shows, List.append_nil]
    rfl
  · rcases Parser.run_of_parseForm hParse with ⟨s, hRun⟩
    have hItem := Grammar.form_gives (visit_shapes p.table) form _ _ _ _
      hRun
    rw [visit_item hItem, Node.obstacles, items_of_isItem hItem]
    simp

/-
  The walk over a parsed tree, whatever is on the stack.  It fails
  if and only if an item is a prototype or there is a declaration
  anywhere, with the error of the first of these in the order of
  the walk, and then nothing has changed.  Otherwise the outline
  of the tree has been put on the stack and nothing was printed.
-/
theorem visit_produced
    (tree : Node)
    (hTree : Parser.Produces tree)
    (s : OutlineState) :
    ((∃ e s', visit tree s = .error e s') ↔
      (∃ item ∈ tree.items, item.kind = .prototype) ∨
        ∃ node ∈ tree.preorder, node.kind = .declaration) ∧
    (∀ e s', visit tree s = .error e s' →
      s' = s ∧
      ∃ node, tree.obstacles.head? = some node ∧ e = node.refusal) ∧
    ∀ s', visit tree s = .ok () s' →
      s' = { s with stack := tree.outline :: s.stack } := by
  rw [← Node.obstacles_ne_nil_iff, visit_of_produces hTree]
  cases tree.obstacles with
  | nil =>
      have hRun : shows [] tree.outline s =
          .ok () { s with stack := tree.outline :: s.stack } := rfl
      simp [hRun]
  | cons node nodes =>
      have hRun : shows (node :: nodes) tree.outline s =
          .error node.refusal s := rfl
      simp [hRun, eq_comm]

/- The tokens of `return -a`. -/
def returnTokens :
    List Token :=
  [⟨.kwReturn, .text "return", ⟨0, 7⟩⟩,
    ⟨.operator, .text "-", ⟨0, 8⟩⟩,
    ⟨.identifier, .text "a", ⟨0, 9⟩⟩,
    ⟨.endOfText, .text "", ⟨0, 10⟩⟩]

/- The program that they are parsed to. -/
def returnTree : Node :=
  .program "main"
    [.ret (.unary (.text "-")
      (.reference (.text "a") Node.floatType ⟨0, 9⟩))]

/- The tokens of `extern f()` and `a * var b in b`, in two lines. -/
def hinderedTokens :
    List Token :=
  [⟨.kwExtern, .text "extern", ⟨0, 7⟩⟩,
    ⟨.identifier, .text "f", ⟨0, 8⟩⟩,
    ⟨.operator, .text "(", ⟨0, 9⟩⟩,
    ⟨.operator, .text ")", ⟨0, 10⟩⟩,
    ⟨.identifier, .text "a", ⟨1, 2⟩⟩,
    ⟨.operator, .text "*", ⟨1, 4⟩⟩,
    ⟨.kwVar, .text "var", ⟨1, 8⟩⟩,
    ⟨.identifier, .text "b", ⟨1, 10⟩⟩,
    ⟨.kwIn, .text "in", ⟨1, 13⟩⟩,
    ⟨.identifier, .text "b", ⟨1, 15⟩⟩,
    ⟨.endOfText, .text "", ⟨1, 16⟩⟩]

/- The program that they are parsed to, with two obstacles. -/
def hinderedTree : Node :=
  .program "main"
    [.prototype (.text "f") Node.floatType [] 0,
      .binary (.text "*") (.reference (.text "a") Node.floatType ⟨1, 2⟩)
        (.declare [(.text "b", Node.zero)] Node.floatType
          (.reference (.text "b") Node.floatType ⟨1, 15⟩)) ⟨1, 4⟩]

theorem visit_produced_sample :
    Parser.Produces returnTree ∧
    visit returnTree ⟨[.text "x"], "y"⟩ =
      .ok () ⟨[.map [("MODULE[main]", .list [.map [("RETURN",
        .map [("UNARY[-]", .text "VARIABLE[('a', 'float')]")])]])],
        .text "x"], "y"⟩ ∧
    Parser.Produces hinderedTree ∧
    visit hinderedTree ⟨[.text "x"], "y"⟩ =
      .error .prototype ⟨[.text "x"], "y"⟩ := by
  have hReturn : Parser.Produces returnTree :=
    .inl ⟨Parser.new, TokenList.ofTokens returnTokens, "main", _, rfl⟩
  have hHindered : Parser.Produces hinderedTree :=
    .inl ⟨Parser.new, TokenList.ofTokens hinderedTokens, "main", _, rfl⟩
  rcases visit_produced returnTree hReturn ⟨[.text "x"], "y"⟩ with
    ⟨hFails, _, hOutline⟩
  rcases visit_produced hinderedTree hHindered ⟨[.text "x"], "y"⟩ with
    ⟨hFails', hError, _⟩
  have hFree : ¬((∃ item ∈ returnTree.items, item.kind = .prototype) ∨
      ∃ node ∈ returnTree.preorder, node.kind = .declaration) := by
    decide
  refine ⟨hReturn, ?_, hHindered, ?_⟩
  · cases hVisit : visit returnTree ⟨[.text "x"], "y"⟩ with
    | ok a s' =>
        rw [hOutline s' hVisit]
        rfl
    | error e s' => exact absurd (hFails.mp ⟨e, s', hVisit⟩) hFree
  · rcases hFails'.mpr (.inl ⟨_, List.mem_cons_self, rfl⟩) with
      ⟨e, s', hVisit⟩
    rcases hError e s' hVisit with ⟨rfl, node, hFirst, rfl⟩
    cases hFirst
    exact hVisit

end Outlining

end Offside
