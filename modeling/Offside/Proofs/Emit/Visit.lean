import Mathlib
import Offside.Proofs.Emit.Branch
import Offside.Proofs.Emit.Loop

/-
  Code generation keeps the meaning of nodes that have a value.

  Main statement:
    * `Offside.Emit.visit_follows_interpret`: at the end of a
      block that has not ended, the visit of a node succeeds,
      and the code it has placed takes the machine to the value
      and the store that the interpreter comes to.
-/

------------------------------------------------------------
-- Visits of Values
------------------------------------------------------------

namespace Offside.Emit

open IR (Numbers Operand Config Point)

variable {F : Type}

theorem isPresent_of_isValue
    {node : Node}
    (hNode : node.IsValue) :
    node.isPresent = true := by
  cases hNode <;> rfl

/- A loop, whatever its body is. -/
theorem sound_loop
    {N : Numbers F}
    {first last step body : Node}
    (hPresent : step.isPresent = true)
    (hFirst : Sound N (.value N) (taking (visit first))
      (fun n => first.interpret N n) first.free)
    (hLast : Sound N (.value N) (taking (visit last))
      (fun n => last.interpret N n) last.free)
    (hStep : Sound N (.value N) (taking (visit step))
      (fun n => step.interpret N n) step.free)
    (hBody : Sound N .effect (taking (visit body))
      (fun n => body.interpret N n) body.free)
    (x : String) :
    Sound N (.value N)
      (taking (visit (.loop (.text x) first last step body)))
      (fun n => (Node.loop (.text x) first last step body).interpret N n)
      (Node.loop (.text x) first last step body).free := by
  simp only [visit, Node.interpret, Node.free, hPresent]
  exact sound_repetition hFirst hLast hStep hBody x

/- Every node that has a value is compiled to code that has it. -/
theorem sound_visit
    (N : Numbers F)
    {node : Node}
    (hNode : node.IsValue) :
    Sound N (.value N) (taking (visit node))
      (fun n => node.interpret N n) node.free := by
  induction hNode with
  | float x =>
      simp only [visit, Node.interpret, Node.free]
      exact sound_constant N x
  | reference x type location =>
      simp only [visit, Node.interpret, Node.free]
      exact sound_reading N x
  | operation location hOp hLhs hRhs ihLhs ihRhs =>
      simp only [visit, Node.interpret_operation N _ hOp, Node.free]
      exact sound_binary ihLhs ihRhs hOp _
  | assignment x type inner location hRhs ihRhs =>
      simp only [visit, Node.interpret, Node.free, binary, if_true]
      exact sound_assignment ihRhs x type inner
  | branch location hCond hYes hNo ihCond ihYes ihNo =>
      simp only [visit, Node.interpret, Node.free]
      exact sound_conditional ihCond ihYes ihNo
  | loop x hFirst hLast hStep hBody ihFirst ihLast ihStep ihBody =>
      exact sound_loop (isPresent_of_isValue hStep) ihFirst ihLast ihStep
        ihBody.effect x
  | loopBlock x hFirst hLast hStep hSome hNodes ihFirst ihLast ihStep
      ihNodes =>
      exact sound_loop (isPresent_of_isValue hStep) ihFirst ihLast ihStep
        (sound_block hSome ihNodes) x

/-
  Where code can be placed, and every variable `x` of a list that
  has all free ones is bound to a number in memory of its own,
  at `cell x`, the visit of a node succeeds.  Whenever the
  interpreter comes from a store to a value and another store,
  the machine comes, from the place where the code begins and a
  memory that agrees with the first store, to the place where
  the code ends, with that value and a memory that agrees with
  the second.  The rest of memory in use is as it was.
-/
theorem visit_follows_interpret
    (N : Numbers F)
    {node : Node}
    (hNode : node.IsValue)
    {s : EmitState}
    {f : IR.Function}
    {p : Point}
    (hReady : s.Ready f p)
    {X : List String}
    (hFree : node.free ⊆ X)
    {cell : String → String}
    (hBound : ∀ x ∈ X,
      s.bindings.get? x = some (.register (.pointer .float) (cell x)))
    (hReserved : ∀ x ∈ X,
      ∃ b ∈ f.blocks, ⟨cell x, .alloca .float⟩ ∈ b.body)
    (hApart : ∀ x ∈ X, ∀ y ∈ X, cell x = cell y → x = y) :
    ∃ out s' f' q,
      visit node s = .ok () (s'.pushed out) ∧
      s.Extends f p s' f' q ∧
      out.type? = some .float ∧
      ∀ n σ v τ, node.interpret N n σ = some (v, τ) →
        ∀ c : Config F, c.point = p → c.Agrees X cell σ →
          ∃ c',
            IR.Reaches N f' c c' ∧
            c'.point = q ∧
            out.number? N c'.registers = some v ∧
            c'.Agrees X cell τ ∧
            c.Keeps f.scope.used X cell c' := by
  have hBinds : s.Binds f X cell := by
    refine ⟨hBound, fun x hX => ?_, fun x hX => ?_, hApart⟩
    · rcases hReserved x hX with ⟨b, hBlock, hCode⟩
      exact hReady.registered.names b hBlock _ hCode
    · rcases hReserved x hX with ⟨b, hBlock, hCode⟩
      exact IR.Function.mem_cells.mpr ⟨b, hBlock, _, hCode, rfl, rfl⟩
  rcases sound_visit N hNode s f p X cell hReady hBinds hFree with
    ⟨out, s', f', q, hTaking, hCode⟩
  refine ⟨out, s', f', q, pushed_of_taking hTaking, hCode.toExtends,
    hCode.fits.type?_eq, ?_⟩
  intro n σ v τ hRun c hPoint hAgrees
  rcases hCode.follows n σ v τ hRun c hPoint hAgrees with
    ⟨c', hArrives, hValue⟩
  exact ⟨c', hArrives.reaches, hArrives.point, hValue,
    hArrives.agrees, hArrives.keeps⟩

/- Whole numbers, of which only zero and one can be written. -/
def sampleNumbers : Numbers ℤ where
  literal := fun x => if x = Binary64.zero then 0 else 1
  add := fun x y => x + y
  sub := fun x y => x - y
  mul := fun x y => x * y
  less := fun x y => x < y
  greater := fun x y => x > y
  differ := fun x y => x ≠ y
  ofBool := fun b => if b then 1 else 0

/- A function that has reserved memory for a variable. -/
def sampleFunction : IR.Function where
  name := "f"
  signature := .ofArity 0
  params := []
  blocks := [⟨"entry", [⟨"y", .alloca .float⟩]⟩]
  scope := ⟨["y", "entry", ""], []⟩

/- Code goes to the end of that function. -/
def sampleState : EmitState where
  generator :=
    { Generator.new true "" "" false with
      module := ⟨[sampleFunction]⟩
      cursor := some ⟨"f", "entry", 1⟩ }
  bindings := ⟨[("y", .register (.pointer .float) "y")]⟩
  printed := ""
  folder := .empty

/- A variable. -/
def sampleReference
    (x : String) :
    Node :=
  .reference (.text x) Node.floatType .origin

/- An operation. -/
def sampleOperation
    (op : String)
    (lhs rhs : Node) :
    Node :=
  .binary (.text op) lhs rhs .origin

/-
  A loop which assigns to a variable that is read after it: with
  `y` at zero at first, `y` is one after the first round, when
  `x` is zero, and two after the second.
-/
def sampleNode : Node :=
  sampleOperation "+"
    (.loop (.text "x") Node.zero
      (sampleOperation "<" (sampleReference "y")
        (sampleOperation "+" Node.one Node.one))
      Node.one
      (.block
        [sampleOperation "=" (sampleReference "y")
          (.branch (sampleReference "x")
            (sampleOperation "+" (sampleReference "y")
              (sampleReference "x"))
            Node.one .origin)]))
    (sampleReference "y")

theorem sampleNode_isValue : sampleNode.IsValue := by
  refine .operation _ (by decide) (.loopBlock "x" (.float _) ?_
    (.float _) (by decide) ?_) (.reference ..)
  · exact .operation _ (by decide) (.reference ..)
      (.operation _ (by decide) (.float _) (.float _))
  · intro node hMem
    rw [List.mem_singleton.mp hMem]
    exact .assignment _ _ _ _ (.branch _ (.reference ..)
      (.operation _ (by decide) (.reference ..) (.reference ..))
      (.float _))

theorem sampleState_ready :
    sampleState.Ready sampleFunction ⟨"entry", 0⟩ := by
  refine ⟨⟨rfl, ?_, ?_⟩, _, rfl, rfl, rfl, rfl⟩
  · intro b hMem
    rw [List.mem_singleton.mp hMem]
    decide
  · intro b hMem i hCode
    rw [List.mem_singleton.mp hMem] at hCode
    rw [List.mem_singleton.mp hCode]
    decide

theorem interpret_sampleNode :
    ∃ τ,
      sampleNode.interpret sampleNumbers 2 (fun _ => some 0) =
        some (2, τ) ∧
      τ "y" = some 2 := by
  have hRun :
      (sampleNode.interpret sampleNumbers 2 fun _ => some 0).map
        (fun result => (result.1, result.2 "y")) =
          some (2, some 2) := by
    decide
  rcases Option.map_eq_some_iff.mp hRun with
    ⟨⟨v, τ⟩, hResult, hPair⟩
  rcases Prod.mk.inj hPair with ⟨rfl, hStore⟩
  exact ⟨τ, hResult, hStore⟩

theorem visit_follows_interpret_sample :
    ∃ (out : Operand) (s' : EmitState) (f' : IR.Function) (q : Point)
        (c' : Config ℤ),
      visit sampleNode sampleState = .ok () (s'.pushed out) ∧
      s'.Ready f' q ∧
      IR.Reaches sampleNumbers f'
        ⟨⟨"entry", 0⟩, "", fun _ => none, fun _ => 0⟩ c' ∧
      c'.point = q ∧
      out.number? sampleNumbers c'.registers = some 2 ∧
      c'.memory "y" = 2 := by
  rcases
      visit_follows_interpret sampleNumbers sampleNode_isValue
        sampleState_ready (X := ["y"]) (by decide)
        (fun x hX => by
          rw [List.mem_singleton.mp hX]
          rfl)
        (fun x hX => by
          rw [List.mem_singleton.mp hX]
          exact ⟨_, List.mem_cons_self, List.mem_cons_self⟩)
        fun x _ y _ hCell => hCell with
    ⟨out, s', f', q, hVisit, hExtends, -, hFollows⟩
  rcases interpret_sampleNode with ⟨τ, hRun, hStore⟩
  rcases
      hFollows 2 _ 2 τ hRun
        ⟨⟨"entry", 0⟩, "", fun _ => none, fun _ => 0⟩ rfl
        (fun x _ => rfl) with
    ⟨c', hReaches, hPoint, hValue, hAgrees, -⟩
  have hCell : some 2 = some (c'.memory "y") :=
    hStore.symm.trans (hAgrees "y" List.mem_cons_self)
  exact ⟨out, s', f', q, c', hVisit, hExtends.ready, hReaches, hPoint,
    hValue, (Option.some.inj hCell).symm⟩

end Offside.Emit
