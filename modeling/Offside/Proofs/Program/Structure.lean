import Mathlib
import Offside.Proofs.Node.Tree
import Offside.Proofs.Parser.Shape

/-
  The structure of parsed programs: which nodes stand where in
  the tree, and what each of them is made of.

  Main statements:
    * `Offside.Precedence.default_of_nonneg`: what binds is one of
      the operators of the language.
    * `Offside.Precedence.shapes_tidy`: every expression that is
      parsed is tidy, however its forms are nested.
    * `Offside.Parser.parse_structure`: all nodes of a parsed
      program are regular, and functions and prototypes stand at
      the top only.
-/

------------------------------------------------------------
-- Expressions
------------------------------------------------------------

namespace Offside

/- What binds is one of the operators of the language. -/
theorem Precedence.default_of_nonneg
    {op : Value}
    (hBinds : 0 ≤ Precedence.default.of op) :
    ∃ entry ∈ Precedence.default.entries, op = .text entry.1 := by
  cases op with
  | amount a => exact absurd hBinds (by simp [Precedence.of])
  | text symbol =>
      unfold Precedence.of at hBinds
      dsimp only at hBinds
      cases hLookup : Precedence.default.entries.lookup symbol with
      | none =>
          rw [hLookup] at hBinds
          exact absurd hBinds (by simp)
      | some precedence =>
          rcases List.lookup_eq_some_iff.mp hLookup with
            ⟨before, after, hSplit, _⟩
          refine ⟨(symbol, precedence), ?_, rfl⟩
          rw [hSplit]
          simp

/- A block that is tidy. -/
def Node.TidyBlock
    (node : Node) :
    Prop :=
  node.Tidy ∧ node.IsBlock

theorem Node.tidy_block
    {nodes : List Node}
    (hNodes : ∀ node ∈ nodes, node.Tidy) :
    (Node.block nodes).Tidy := by
  apply Node.Tidy.of_children
  · constructor <;> simp [Node.kind, Node.IsBlock]
  · trivial
  · exact hNodes

/- The forms of the language are tidy if their parts are. -/
theorem Precedence.shapes_tidy :
    Precedence.default.Shapes Node.Tidy Node.TidyBlock where
  float value := by
    apply Node.Tidy.of_children
    · constructor <;> simp [Node.kind]
    · trivial
    · simp [Node.children]
  reference name location := by
    apply Node.Tidy.of_children
    · constructor <;> simp [Node.kind]
    · exact rfl
    · simp [Node.children]
  unary := by
    intro op operand hOpening hComma hOperand
    apply Node.Tidy.of_children
    · constructor <;> simp [Node.kind]
    · exact ⟨hOpening, hComma⟩
    · simpa [Node.children] using hOperand
  binary := by
    intro op lhs rhs location hBinds hLhs hRhs
    apply Node.Tidy.of_children
    · constructor <;> simp [Node.kind]
    · exact Precedence.default_of_nonneg hBinds
    · simp [Node.children, hLhs, hRhs]
  call := by
    intro callee args location hArgs
    apply Node.Tidy.of_children
    · constructor <;> simp [Node.kind]
    · trivial
    · exact hArgs
  branch := by
    intro cond yes no location hCond hYes hNo
    apply Node.Tidy.of_children
    · constructor <;> simp [Node.kind]
    · exact ⟨hYes.2, hNo.2⟩
    · simp [Node.children, hCond, hYes.1, hNo.1]
  loop := by
    intro counter first last step body hFirst hLast hStep hBody
    have hBlock : (Node.block [body]).Tidy :=
      Node.tidy_block (by simpa using hBody)
    apply Node.Tidy.of_children
    · constructor <;> simp [Node.kind]
    · exact ⟨body, rfl⟩
    · simp [Node.children, hFirst, hLast, hStep, hBlock]
  declare := by
    intro names body hSome hNames hBody
    apply Node.Tidy.of_children
    · constructor <;> simp [Node.kind]
    · exact ⟨hSome, rfl⟩
    · intro part hPart
      rcases List.mem_append.mp hPart with hValue | hLast
      · rcases List.mem_map.mp hValue with ⟨entry, hEntry, rfl⟩
        exact hNames entry hEntry
      · rw [List.mem_singleton.mp hLast]
        exact hBody
  ret := by
    intro value hValue
    apply Node.Tidy.of_children
    · constructor <;> simp [Node.kind]
    · trivial
    · simpa [Node.children] using hValue
  block := fun hNodes => ⟨Node.tidy_block hNodes, _, rfl⟩
  inner := fun hBlock => hBlock.1

end Offside

------------------------------------------------------------
-- Items
------------------------------------------------------------

namespace Offside.Node

/- That a node is regular and has only parts that it may have. -/
def Fits
    (tree node : Node) :
    Prop :=
  node.Regular ∧ ∀ part ∈ node.children, tree.MayHold node part

/- The nodes inside an item fit into any tree. -/
theorem Tidy.fits
    {item : Node}
    (hTidy : item.Tidy)
    (tree : Node) :
    ∀ node ∈ item.preorder, tree.Fits node := by
  intro node hMem
  rcases hTidy.nodes node hMem with ⟨hRegular, hParts⟩
  exact ⟨hRegular, fun part hPart => (hParts part hPart).mayHold _ _⟩

/- So does a prototype with its parameters. -/
theorem IsSignature.fits
    {proto : Node}
    (hProto : proto.IsSignature)
    (tree : Node) :
    ∀ node ∈ proto.preorder, tree.Fits node := by
  rcases hProto with ⟨name, args, line, rfl, hArgs⟩
  have hTidy : ∀ arg ∈ args, arg.Tidy := by
    intro arg hMem
    rcases hArgs arg hMem with ⟨param, location, rfl⟩
    exact Precedence.shapes_tidy.reference param location
  intro node hMem
  rcases mem_preorder_iff.mp hMem with ⟨_, rfl⟩ | ⟨arg, hArg, hMem⟩
  · refine ⟨⟨rfl, ?_⟩, ?_⟩
    · intro arg hArg
      rcases hArgs arg hArg with ⟨param, location, rfl⟩
      exact rfl
    · exact fun arg hArg => (hTidy arg hArg).nested.mayHold _ _
  · exact (hTidy arg hArg).fits tree node hMem

theorem IsSignature.kind
    {proto : Node}
    (hProto : proto.IsSignature) :
    proto.kind = .prototype := by
  rcases hProto with ⟨name, args, line, rfl, _⟩
  rfl

/- The nodes of an item fit into the tree of the program. -/
theorem IsItem.fits
    {item : Node}
    (hItem : item.IsItem Tidy TidyBlock)
    (tree : Node) :
    ∀ node ∈ item.preorder, tree.Fits node := by
  rcases hItem with ⟨proto, body, rfl, hProto, hBody⟩ | hProto | hTidy
  · intro node hMem
    have hParts : ∀ part ∈ (function proto body).children,
        part = proto ∨ part = body := by
      simp [children]
    rcases mem_preorder_iff.mp hMem with ⟨_, rfl⟩ | ⟨part, hPart, hInner⟩
    · refine ⟨⟨hProto.kind, hBody.2⟩, ?_⟩
      intro part hPart
      rcases hParts part hPart with rfl | rfl
      · unfold MayHold
        rw [hProto.kind]
        exact .inr ⟨body, rfl⟩
      · exact hBody.1.nested.mayHold _ _
    · rcases hParts part hPart with rfl | rfl
      · exact hProto.fits tree node hInner
      · exact hBody.1.fits tree node hInner
  · exact hProto.fits tree
  · exact hTidy.fits tree

/- The tree of a program may hold every item. -/
theorem IsItem.mayHold
    {item : Node}
    (hItem : item.IsItem Tidy TidyBlock)
    (tree : Node) :
    tree.MayHold tree item := by
  rcases hItem with ⟨proto, body, rfl, _, _⟩ | hProto | hTidy
  · exact rfl
  · unfold MayHold
    rw [hProto.kind]
    exact .inl rfl
  · exact hTidy.nested.mayHold _ _

end Offside.Node

------------------------------------------------------------
-- Programs
------------------------------------------------------------

namespace Offside.Parser

/-
  Whatever tokens are parsed, the tree is a program of which every
  node is regular: branches and bodies are blocks, the body of a
  loop is a block of one node, declarations declare something,
  operators between operands are those of the table, no operator
  before an operand is a parenthesis that opens or a comma,
  parameters are variables, and all types are the same.  Functions
  are parts of the whole tree only, and so are prototypes, unless
  they are that of a function; programs are part of nothing.
-/
theorem parse_structure
    (p p' : Parser)
    (hTable : p.table = Precedence.default)
    (tokens : TokenList)
    (name : String)
    (tree : Node)
    (hParse : p.parse tokens name = (.ok tree, p')) :
    (∃ items, tree = .program name items) ∧
    ∀ node ∈ tree.preorder,
      node.Regular ∧ ∀ part ∈ node.children, tree.MayHold node part := by
  have hShapes : p.table.Shapes Node.Tidy Node.TidyBlock := by
    rw [hTable]
    exact Precedence.shapes_tidy
  rcases run_gives (program_gives hShapes name) hParse with
    ⟨items, rfl, hItems⟩
  refine ⟨⟨items, rfl⟩, ?_⟩
  intro node hMem
  rcases Node.mem_preorder_iff.mp hMem with ⟨_, rfl⟩ | ⟨item, hItem, hMem⟩
  · exact ⟨trivial, fun item hItem => (hItems item hItem).mayHold _⟩
  · exact (hItems item hItem).fits _ node hMem

/- The tokens of `fn f(a):`, a line `a * return for i = a, a in`, and a
   line `-i` that is indented further. -/
def nestedTokens :
    List Token :=
  [⟨.kwFunction, .text "fn", ⟨0, 3⟩⟩,
    ⟨.identifier, .text "f", ⟨0, 5⟩⟩,
    ⟨.operator, .text "(", ⟨0, 6⟩⟩,
    ⟨.identifier, .text "a", ⟨0, 7⟩⟩,
    ⟨.operator, .text ")", ⟨0, 8⟩⟩,
    ⟨.operator, .text ":", ⟨1, 0⟩⟩,
    ⟨.indent, .amount (.whole 2), ⟨1, 3⟩⟩,
    ⟨.identifier, .text "a", ⟨1, 4⟩⟩,
    ⟨.operator, .text "*", ⟨1, 6⟩⟩,
    ⟨.kwReturn, .text "return", ⟨1, 13⟩⟩,
    ⟨.kwFor, .text "for", ⟨1, 17⟩⟩,
    ⟨.identifier, .text "i", ⟨1, 19⟩⟩,
    ⟨.operator, .text "=", ⟨1, 21⟩⟩,
    ⟨.identifier, .text "a", ⟨1, 23⟩⟩,
    ⟨.operator, .text ",", ⟨1, 24⟩⟩,
    ⟨.identifier, .text "a", ⟨1, 26⟩⟩,
    ⟨.kwIn, .text "in", ⟨2, 0⟩⟩,
    ⟨.indent, .amount (.whole 4), ⟨2, 5⟩⟩,
    ⟨.operator, .text "-", ⟨2, 6⟩⟩,
    ⟨.identifier, .text "i", ⟨2, 7⟩⟩,
    ⟨.endOfText, .text "", ⟨2, 8⟩⟩]

/- The program that they are parsed to: a loop is an operand, and its
   body a block inside a block. -/
def nestedTree : Node :=
  .program "main"
    [.function
      (.prototype (.text "f") Node.floatType
        [.reference (.text "a") Node.floatType ⟨0, 7⟩] 0)
      (.block
        [.binary (.text "*")
          (.reference (.text "a") Node.floatType ⟨1, 4⟩)
          (.ret
            (.loop (.text "i")
              (.reference (.text "a") Node.floatType ⟨1, 23⟩)
              (.reference (.text "a") Node.floatType ⟨1, 26⟩)
              Node.one
              (.block
                [.block
                  [.unary (.text "-")
                    (.reference (.text "i") Node.floatType ⟨2, 7⟩)]])))
          ⟨1, 6⟩])]

theorem parse_structure_nested :
    ∃ p',
      new.parse (TokenList.ofTokens nestedTokens) "main" =
        (.ok nestedTree, p') ∧
      (∃ items, nestedTree = .program "main" items) ∧
      ∀ node ∈ nestedTree.preorder,
        node.Regular ∧
          ∀ part ∈ node.children, nestedTree.MayHold node part := by
  have hParse :
      new.parse (TokenList.ofTokens nestedTokens) "main" =
        (.ok nestedTree,
          (new.parse (TokenList.ofTokens nestedTokens) "main").2) :=
    rfl
  exact ⟨_, hParse, parse_structure new _ rfl _ "main" _ hParse⟩

end Offside.Parser
