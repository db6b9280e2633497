import Mathlib
import Offside.Node.Basic
import Offside.Parser.Precedence

/-
  Trees: all nodes of a tree, what each of them is made of, and
  below which nodes it stands.

  Key definitions include:
    * `Offside.Node.Regular`
    * `Offside.Node.MayHold`
    * `Offside.Node.Nested`
    * `Offside.Node.Tidy`

  Main statements:
    * `Offside.Node.mem_preorder_iff`: the nodes of a tree are the
      tree itself and the nodes of its parts.
    * `Offside.Node.Tidy.of_children`: a regular node that stands
      inside an item is tidy if its parts are.
-/

------------------------------------------------------------
-- All Nodes of a Tree
------------------------------------------------------------

namespace Offside.Node

theorem preorderAll_eq_flatMap
    (nodes : List Node) :
    preorderAll nodes = nodes.flatMap preorder := by
  induction nodes with
  | nil => rfl
  | cons node nodes ih => simp [preorderAll, ih]

theorem preorderNamed_eq_flatMap
    (names : List (Value × Node)) :
    preorderNamed names = (names.map Prod.snd).flatMap preorder := by
  induction names with
  | nil => rfl
  | cons entry names ih => simp [preorderNamed, ih]

/- The nodes of a tree are the tree itself and those of its parts. -/
theorem mem_preorder_iff
    {tree node : Node} :
    node ∈ tree.preorder ↔
      tree.isPresent = true ∧ node = tree ∨
        ∃ part ∈ tree.children, node ∈ part.preorder := by
  cases tree with
  | declare names type body =>
      simp [preorder, children, isPresent, preorderNamed_eq_flatMap,
        or_and_right, exists_or]
  | _ =>
      simp [preorder, children, isPresent, preorderAll_eq_flatMap]

end Offside.Node

------------------------------------------------------------
-- What a Node Is Made Of
------------------------------------------------------------

namespace Offside.Node

/- Lines that belong together. -/
def IsBlock
    (node : Node) :
    Prop :=
  ∃ nodes, node = .block nodes

/-
  What holds of a node itself: bodies and branches are blocks,
  the body of a loop is a single line, something is declared,
  operators are those of the language, parameters are variables,
  and there is one type.
-/
def Regular :
    Node →
    Prop
  | reference _ type _ => type = floatType
  | unary op _ => op ≠ .text "(" ∧ op ≠ .text ","
  | binary op _ _ _ =>
      ∃ entry ∈ Precedence.default.entries, op = .text entry.1
  | branch _ yes no _ => yes.IsBlock ∧ no.IsBlock
  | loop _ _ _ _ body => ∃ node, body = .block [node]
  | declare names type _ => names ≠ [] ∧ type = floatType
  | prototype _ type args _ =>
      type = floatType ∧ ∀ arg ∈ args, arg.kind = .reference
  | function proto body => proto.kind = .prototype ∧ body.IsBlock
  | _ => True

/-
  Which nodes may be parts of others in a tree: no programs;
  functions only of the whole tree; prototypes only of the whole
  tree, or as the one of a function.  What has no kind of its own
  is a block, so that no part is missing.
-/
def MayHold
    (tree node part : Node) :
    Prop :=
  match part.kind with
  | .program => False
  | .function => node = tree
  | .prototype => node = tree ∨ ∃ body, node = .function part body
  | .generic => part.IsBlock
  | _ => True

/- A node that can stand anywhere inside an item. -/
structure Nested
    (node : Node) :
    Prop where
  program : node.kind ≠ .program
  function : node.kind ≠ .function
  prototype : node.kind ≠ .prototype
  generic : node.kind = .generic → node.IsBlock

theorem Nested.mayHold
    {part : Node}
    (hNested : part.Nested)
    (tree node : Node) :
    tree.MayHold node part := by
  unfold MayHold
  split
  · exact hNested.program ‹_›
  · exact absurd ‹_› hNested.function
  · exact absurd ‹_› hNested.prototype
  · exact hNested.generic ‹_›
  · trivial

/-
  A tree inside an item: all its nodes are regular and have only
  such parts as can stand anywhere.
-/
structure Tidy
    (tree : Node) :
    Prop where
  nested : tree.Nested
  nodes : ∀ node ∈ tree.preorder,
    node.Regular ∧ ∀ part ∈ node.children, part.Nested

/- A regular node is tidy if its parts are. -/
theorem Tidy.of_children
    {tree : Node}
    (hNested : tree.Nested)
    (hRegular : tree.Regular)
    (hParts : ∀ part ∈ tree.children, part.Tidy) :
    tree.Tidy := by
  refine ⟨hNested, ?_⟩
  intro node hMem
  rcases mem_preorder_iff.mp hMem with ⟨_, rfl⟩ | ⟨part, hPart, hMem⟩
  · exact ⟨hRegular, fun part hPart => (hParts part hPart).nested⟩
  · exact (hParts part hPart).nodes node hMem

end Offside.Node
