import Mathlib
import Offside.Proofs.Emit.Laying
import Offside.Proofs.IR.Graph

/-
  The graph of the function that code generation works on stays
  well formed.

  Key definitions include:
    * `Offside.EmitState.Good`
    * `Offside.EmitState.AtEnd`

  Main statements:
    * `Offside.Emit.visit_good`: from the end of the current block
      of a good graph, every visit that stays in one function
      leads to the end of the current block of a good graph.
    * `Offside.Emit.visit_start_not_good`: from the start of the
      block it need not.
-/

------------------------------------------------------------
-- Good States
------------------------------------------------------------

namespace Offside.EmitState

variable {s : EmitState}
variable {f : IR.Function}
variable {l : String}

/- Code goes to a block of a function whose graph is good. -/
structure Good
    (s : EmitState)
    (f : IR.Function)
    (l : String) :
    Prop where
  function : s.generator.module.function? f.name = some f
  cursor : ∃ anchor, s.generator.cursor = some ⟨f.name, l, anchor⟩
  graph : f.Good l

/- Code goes to the end of the block it is in. -/
def AtEnd
    (s : EmitState) :
    Prop :=
  ∃ c b,
    s.generator.cursor = some c ∧
    s.generator.module.blockAt? c = some b ∧
    c.anchor = b.body.length

/- These are the states in which code is laid in a good graph. -/
theorem open_iff :
    s.Open f l ∧ f.Good l ↔ s.Good f l ∧ s.AtEnd := by
  constructor
  · rintro ⟨hOpen, hGraph⟩
    rcases hOpen.cursor with ⟨b, hMem, rfl, _, hCursor⟩
    refine ⟨⟨hOpen.function, ⟨_, hCursor⟩, hGraph⟩, _, b, hCursor, ?_,
      rfl⟩
    rw [IR.Module.blockAt?, hOpen.function]
    exact hOpen.proper.block?_eq_some hMem
  · rintro ⟨hGood, c, b, hCursor, hBlock, hAnchor⟩
    rcases hGood.cursor with ⟨anchor, hCursor'⟩
    rw [hCursor] at hCursor'
    cases hCursor'
    rw [IR.Module.blockAt?, hGood.function] at hBlock
    have hMem : b ∈ f.blocks := List.mem_of_find?_eq_some hBlock
    have hLabel : b.label = l := IR.Function.label_of_block? hBlock
    refine ⟨⟨⟨hGood.function, hGood.graph.toProper⟩, b, hMem, hLabel,
      hGood.graph.unfinished b hMem hLabel, ?_⟩, hGood.graph⟩
    rw [hCursor]
    exact congrArg (fun n => some (IR.Cursor.mk f.name l n)) hAnchor

end Offside.EmitState

------------------------------------------------------------
-- Visits
------------------------------------------------------------

namespace Offside.Emit

open IR (Operand)

/- The first block is known by its label. -/
theorem head?_of_label
    {f : IR.Function}
    (hProper : f.Proper)
    {b : IR.Block}
    (hMem : b ∈ f.blocks)
    (hHead : f.labels.head? = some b.label) :
    f.blocks.head? = some b := by
  rw [IR.Function.labels, List.head?_map] at hHead
  rcases Option.map_eq_some_iff.mp hHead with ⟨c, hFirst, hSame⟩
  rw [hFirst, hProper.block_unique (List.mem_of_mem_head? hFirst) hMem
    hSame]

/-
  A visit that stays in one function, from the end of the current
  block of a good graph.  The graph is good again, code goes to
  the end of its current block, and the code of the other blocks
  is what it was, but for memory that is reserved at the start of
  the first block.
-/
theorem visit_good
    {node : Node}
    (hLocal : node.IsLocal)
    {s s' : EmitState}
    {f : IR.Function}
    {l : String}
    (hGood : s.Good f l)
    (hEnd : s.AtEnd)
    (hVisit : visit node s = .ok () s') :
    ∃ g m,
      s'.Good g m ∧
      s'.AtEnd ∧
      g.name = f.name ∧
      ∀ b ∈ f.blocks, b.label ≠ l →
        ∃ cells,
          { b with body := cells ++ b.body } ∈ g.blocks ∧
          (∀ i ∈ cells, ∃ type, i.op = .alloca type) ∧
          (cells ≠ [] → f.blocks.head? = some b) := by
  rcases EmitState.open_iff.mpr ⟨hGood, hEnd⟩ with ⟨hOpen, hGraph⟩
  rcases (structured_laid.visit hLocal s).ok () s' hVisit f l hOpen with
    ⟨g, m, hLays, hOpen'⟩
  rcases EmitState.open_iff.mp ⟨hOpen', hLays.good hGraph⟩ with
    ⟨hGood', hEnd'⟩
  have hKeeps := hLays.keeps.1
  refine ⟨g, m, hGood', hEnd', hKeeps.same, ?_⟩
  intro b hMem hOther
  rcases hKeeps.blocks b hMem with
    ⟨before, after, hMem', hReserved, hHead, hAfter⟩
  -- Code follows in the current block only.
  have hNone : after = [] := by
    apply List.eq_nil_iff_forall_not_mem.mpr
    intro i hCode
    exact hOther (hAfter (hGraph.labels b hMem) i hCode).1
  rw [hNone, List.append_nil] at hMem'
  refine ⟨before, hMem', ?_, fun hSome =>
    head?_of_label hGraph.toProper hMem (hHead hSome)⟩
  intro i hCode
  have hReserve := hReserved i hCode
  cases hOp : i.op with
  | alloca type => exact ⟨type, rfl⟩
  | _ =>
      rw [hOp] at hReserve
      cases hReserve

/- A function with one block, in which memory is reserved. -/
def memoryFunction : IR.Function where
  name := "f"
  signature := .ofArity 0
  params := []
  blocks := [⟨"entry", [⟨"x", .alloca .float⟩]⟩]
  scope := ⟨["x", "entry", ""], []⟩

/- Code goes to a place in the block of that function. -/
def memoryState
    (anchor : Nat) :
    EmitState where
  generator :=
    { Generator.new false "" "" false with
      module := ⟨[memoryFunction]⟩
      cursor := some ⟨"f", "entry", anchor⟩ }
  bindings := ⟨[("x", .register (.pointer .float) "x")]⟩
  printed := ""
  folder := .empty

/- A condition, with a loop in its first branch. -/
def forkNode : Node :=
  .branch (.reference (.text "x") Node.floatType .origin)
    (.loop (.text "i") Node.zero Node.zero Node.one
      (.block [.reference (.text "i") Node.floatType .origin]))
    Node.one .origin

theorem forkNode_isLocal : forkNode.IsLocal := by
  refine .branch _ (.reference ..) (.loop _ (.float _) (.float _)
    (.float _) (.block ?_)) (.float _)
  intro node hMem
  rw [List.mem_singleton.mp hMem]
  exact .reference ..

theorem memoryFunction_good : memoryFunction.Good "entry" := by
  have hBlock : ∀ b ∈ memoryFunction.blocks,
      b = ⟨"entry", [⟨"x", .alloca .float⟩]⟩ := by
    intro b hMem
    exact List.mem_singleton.mp hMem
  refine ⟨⟨⟨?_, ?_⟩, by decide⟩, by decide, ?_, ?_, ?_, ?_⟩
  · intro b hMem
    rw [hBlock b hMem]
    decide
  · intro b hMem i hCode
    rw [hBlock b hMem] at hCode
    rw [List.mem_singleton.mp hCode]
    decide
  · intro b hMem _
    rw [hBlock b hMem]
    rfl
  · intro b hMem hOther
    rw [hBlock b hMem] at hOther
    exact absurd rfl hOther
  · intro b hMem x hTarget
    rw [hBlock b hMem] at hTarget
    cases hTarget
  · intro b hMem
    rw [hBlock b hMem]
    refine IR.Block.IsPlain.joins ?_ _
    intro i hCode
    rw [List.mem_singleton.mp hCode]
    rfl

theorem memoryState_good
    (anchor : Nat) :
    (memoryState anchor).Good memoryFunction "entry" :=
  ⟨rfl, ⟨anchor, rfl⟩, memoryFunction_good⟩

theorem visit_good_sample :
    (memoryState 1).Good memoryFunction "entry" ∧
    (memoryState 1).AtEnd ∧
    ∃ s' g m,
      visit forkNode (memoryState 1) = .ok () s' ∧
      s'.Good g m ∧
      s'.AtEnd ∧
      g.labels =
        ["entry", "then", "loop", "afterloop", "else", "ifcont"] := by
  have hEnd : (memoryState 1).AtEnd := ⟨_, _, rfl, rfl, rfl⟩
  rcases
      exists_of_succeeds (visit forkNode) (memoryState 1)
        (fun s' =>
          (s'.generator.module.function? "f").all fun g =>
            g.labels = ["entry", "then", "loop", "afterloop", "else",
              "ifcont"])
        (by decide +kernel) with
    ⟨s', hVisit, hLabels⟩
  rcases
      visit_good forkNode_isLocal (memoryState_good 1) hEnd hVisit with
    ⟨g, m, hGood, hEnd', hName, _⟩
  refine ⟨memoryState_good 1, hEnd, s', g, m, hVisit, hGood, hEnd', ?_⟩
  have hFunction : s'.generator.module.function? "f" = some g := by
    rw [← hGood.function, hName]
    rfl
  rw [hFunction] at hLabels
  exact of_decide_eq_true hLabels

/-
  From the start of the block the branch comes to stand before
  the memory, which then is behind the end of its block.
-/
theorem visit_start_not_good :
    (memoryState 0).Good memoryFunction "entry" ∧
    ∃ s',
      visit forkNode (memoryState 0) = .ok () s' ∧
      ∀ g m, ¬s'.Good g m := by
  rcases
      exists_of_succeeds (visit forkNode) (memoryState 0)
        (fun s' =>
          s'.generator.cursor.all fun c =>
            c.function = "f" && c.block != "entry" &&
            (s'.generator.module.function? "f").any fun g =>
              g.blocks.any fun b =>
                b.label = "entry" &&
                b.body.getLast?.all fun i => !i.op.isTerminator)
        (by decide +kernel) with
    ⟨s', hVisit, hTest⟩
  refine ⟨memoryState_good 0, s', hVisit, ?_⟩
  intro g m hGood
  rcases hGood.cursor with ⟨anchor, hCursor⟩
  rw [hCursor] at hTest
  simp only [Option.all_some, Bool.and_eq_true, decide_eq_true_eq,
    bne_iff_ne] at hTest
  rcases hTest with ⟨⟨hName, hOther⟩, hEntry⟩
  rw [← hName, hGood.function] at hEntry
  simp only [Option.any_some, List.any_eq_true, Bool.and_eq_true,
    decide_eq_true_eq] at hEntry
  rcases hEntry with ⟨b, hMem, hLabel, hLast⟩
  rcases hGood.graph.closed b hMem (hLabel ▸ hOther.symm) with
    ⟨code, last, hBody, hEnds, _⟩
  rw [hBody] at hLast
  simp [hEnds] at hLast

end Offside.Emit
