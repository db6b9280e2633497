import Mathlib
import Offside.Proofs.Emit.Simulation

/-
  Code for numbers, variables, assignments, operations and
  blocks follows their meaning.

  Key definition:
    * `Offside.Emit.Applies`

  Main statements:
    * `Offside.Emit.sound_constant`,
      `Offside.Emit.sound_reading`,
      `Offside.Emit.sound_assignment`,
      `Offside.Emit.sound_binary`,
      `Offside.Emit.sound_block`
-/

------------------------------------------------------------
-- Numbers and Variables
------------------------------------------------------------

namespace Offside.Emit

open IR (Numbers Operand Config)

variable {F : Type}

theorem address?_apply
    {s : EmitState}
    {x : String}
    {address : Option Operand}
    (hAddress : s.bindings.get? x = address) :
    address? x s = .ok address s := by
  rw [address?, Steps.bind_ok (Steps.get_apply s), hAddress]
  rfl

/- A number is its own code. -/
theorem sound_constant
    (N : Numbers F)
    (x : Binary64) :
    Sound N (.value N) (taking (push (.const .float x)))
      (fun _ => Meaning.constant (N.literal x)) [] := by
  intro s f p X cell hReady hBinds hFree
  refine ⟨.const .float x, s, f, p, taking_pushed rfl,
    ⟨hReady, .refl _ s f, .inl rfl⟩, .const x, ?_⟩
  intro n σ v τ hRun c hPoint hAgrees
  cases hRun
  exact ⟨c, .refl hPoint hAgrees, rfl⟩

/- A variable is read from its cell. -/
theorem sound_reading
    (N : Numbers F)
    (x : String) :
    Sound N (.value N) (taking (reading (.text x)))
      (fun _ => Meaning.reading x) [x] := by
  intro s f p X cell hReady hBinds hFree
  have hMem : x ∈ X := hFree List.mem_cons_self
  rcases load_ready hReady (cell x) x with
    ⟨name, s', f', hLoad, hPlaced⟩
  refine ⟨.register .float name, s', f', p.next, taking_pushed ?_,
    hPlaced.toExtends, .register hPlaced.used, ?_⟩
  · rw [reading]
    refine (Steps.bind_ok
      (address?_apply (hBinds.address x hMem)) _).trans ?_
    exact (Steps.bind_ok hLoad _).trans rfl
  · intro n σ v τ hRun c hPoint hAgrees
    rcases Meaning.reading_eq_some hRun with ⟨hStore, rfl⟩
    have hValue : v = c.memory (cell x) :=
      Option.some.inj (hStore.symm.trans (hAgrees x hMem))
    have hCell := hPlaced.builds.grows.within.cells
      (hBinds.reserved x hMem)
    refine ⟨_, Config.arrives_define hPlaced.fetch hPlaced.free hPoint
      hAgrees (IR.exec_load N c hCell name .float), ?_⟩
    rw [hValue]
    exact Operand.number?_define N c _ _ _

/- A value is written to the cell of a variable. -/
theorem sound_assignment
    {N : Numbers F}
    {rhs : Emit Unit}
    {run : Nat → Meaning F}
    {free : List String}
    (hRhs : Sound N (.value N) (taking rhs) run free)
    (x type : String)
    (location : Location) :
    Sound N (.value N)
      (taking (assignment (.reference (.text x) type location) rhs))
      (fun n => Meaning.assignment x (run n)) (x :: free) := by
  intro s f p X cell hReady hBinds hFree
  have hMem : x ∈ X := hFree List.mem_cons_self
  rcases
      hRhs s f p X cell hReady hBinds
        fun y hY => hFree (List.mem_cons_of_mem x hY) with
    ⟨out, s₁, f₁, q, hTaking, hCode⟩
  have hBinds₁ := hBinds.of_builds hCode.builds
  rcases store_ready hCode.ready out hCode.fits.type?_eq (cell x) with
    ⟨name, s₂, f₂, hStore, hPlaced⟩
  refine ⟨out, s₂, f₂, q.next, taking_pushed ?_,
    hCode.toExtends.trans hPlaced.toExtends,
    hCode.fits.mono hPlaced.builds.grows.used, ?_⟩
  · rw [assignment]
    refine (Steps.bind_ok (takingValue_of_taking hTaking
      hCode.fits.isNothing_eq _) _).trans ?_
    refine (Steps.bind_ok
      (address?_apply (hBinds₁.address x hMem)) _).trans ?_
    exact (Steps.bind_ok hStore _).trans rfl
  · intro n σ v τ hRun c hPoint hAgrees
    rcases Meaning.assignment_eq_some hRun with ⟨σ₁, hFirst, rfl⟩
    rcases hCode.follows n σ v σ₁ hFirst c hPoint hAgrees with
      ⟨c₁, hArrives, hValue⟩
    have hCell := hPlaced.builds.grows.within.cells
      (hBinds₁.reserved x hMem)
    have hWrite :=
      Config.arrives_write hPlaced.fetch f₁.scope.used hArrives.point
        hMem (hBinds.apart x hMem)
        (fun y hY _ => hArrives.agrees y hY)
        (IR.exec_store hValue hCell name .float)
    exact ⟨_, hArrives.trans hPlaced.builds.grows.within
      hCode.builds.grows.used hWrite, hValue⟩

end Offside.Emit

------------------------------------------------------------
-- Operations
------------------------------------------------------------

namespace Offside.Emit

open EmitState (Extends)
open IR (Numbers Operand Config)

variable {F : Type}
variable {N : Numbers F}
variable {lhs rhs : Operand}

/- Code that applies a function to two numbers. -/
def Applies
    (N : Numbers F)
    (apply : F → F → F)
    (lhs rhs : Operand)
    (m : Emit Operand) :
    Prop :=
  ∀ s f p X cell,
    s.Ready f p → lhs.Settled f.scope.used → rhs.Settled f.scope.used →
      ∃ out s' f' q,
        m s = .ok out s' ∧
        Extends s f p s' f' q ∧
        out.Settled f'.scope.used ∧
        ∀ σ (c : Config F) x y,
          c.point = p → c.Agrees X cell σ →
          lhs.number? N c.registers = some x →
          rhs.number? N c.registers = some y →
            ∃ c',
              Config.Arrives N f' f.scope.used X cell q σ c c' ∧
              out.number? N c'.registers = some (apply x y)

theorem applies_arithmetic
    (N : Numbers F)
    (op : IR.Arithmetic)
    (lhs rhs : Operand)
    (hint : String) :
    Applies N (N.arithmetic op) lhs rhs
      (arithmetic op lhs rhs hint) := by
  intro s f p X cell hReady hLhs hRhs
  rcases
      arithmetic_ready hReady op lhs rhs hLhs.type?_eq hRhs.type?_eq
        hint with
    ⟨name, s', f', hRun, hPlaced⟩
  refine ⟨_, s', f', p.next, hRun, hPlaced.toExtends,
    .register hPlaced.used, ?_⟩
  intro σ c x y hPoint hAgrees hX hY
  exact ⟨_, Config.arrives_define hPlaced.fetch hPlaced.free hPoint
    hAgrees (IR.exec_arithmetic hX hY name op),
    Operand.number?_define N c _ _ _⟩

theorem applies_comparison
    (N : Numbers F)
    (op : IR.Comparison)
    (lhs rhs : Operand)
    (hint : String) :
    Applies N (fun x y => N.ofBool (N.compare op x y)) lhs rhs
      (comparison op lhs rhs hint) := by
  intro s f p X cell hReady hLhs hRhs
  rcases compare_ready hReady op hLhs.type?_eq rhs hint with
    ⟨test, s₁, f₁, hCompare, hFirst⟩
  rcases
      toFloat_ready hFirst.ready (.register .bool test) "booltmp" with
    ⟨name, s₂, f₂, hConvert, hSecond⟩
  refine ⟨_, s₂, f₂, p.next.next, ?_,
    hFirst.toExtends.trans hSecond.toExtends,
    .register hSecond.used, ?_⟩
  · rw [comparison, Steps.bind_ok hCompare]
    exact hConvert
  · intro σ c x y hPoint hAgrees hX hY
    have hArrives :=
      Config.arrives_define hFirst.fetch hFirst.free hPoint hAgrees
        (IR.exec_compare hX hY test op)
    have hConverted :=
      Config.arrives_define hSecond.fetch hSecond.free hArrives.point
        hArrives.agrees
        (IR.exec_toFloat (Operand.truth?_define N c .bool test _) name)
    exact ⟨_, hArrives.trans hSecond.builds.grows.within
      hFirst.builds.grows.used hConverted,
      Operand.number?_define N _ _ _ _⟩

/- Every operator is applied as its sign says. -/
theorem applies_operation
    (N : Numbers F)
    {op : String}
    (hOp : op ∈ Node.operators)
    (lhs rhs : Operand) :
    ∃ apply,
      N.operator? op = some apply ∧
      Applies N apply lhs rhs (operation op lhs rhs) := by
  simp only [Node.operators, List.mem_cons, List.not_mem_nil,
    or_false] at hOp
  rcases hOp with rfl | rfl | rfl | rfl | rfl
  · exact ⟨_, rfl, applies_arithmetic N .add lhs rhs "addtmp"⟩
  · exact ⟨_, rfl, applies_arithmetic N .sub lhs rhs "subtmp"⟩
  · exact ⟨_, rfl, applies_arithmetic N .mul lhs rhs "multmp"⟩
  · exact ⟨_, rfl, applies_comparison N .less lhs rhs "lttmp"⟩
  · exact ⟨_, rfl, applies_comparison N .greater lhs rhs "gttmp"⟩

/- The operands are computed from left to right. -/
theorem sound_binary
    {lhs rhs : Emit Unit}
    {runLhs runRhs : Nat → Meaning F}
    {freeLhs freeRhs : List String}
    (hLhs : Sound N (.value N) (taking lhs) runLhs freeLhs)
    (hRhs : Sound N (.value N) (taking rhs) runRhs freeRhs)
    {op : String}
    (hOp : op ∈ Node.operators)
    (lhsNode : Node) :
    Sound N (.value N) (taking (binary (.text op) lhsNode lhs rhs))
      (fun n => Meaning.operation N op (runLhs n) (runRhs n))
      (freeLhs ++ freeRhs) := by
  intro s f p X cell hReady hBinds hFree
  rcases
      hLhs s f p X cell hReady hBinds fun x hX =>
        hFree (List.mem_append_left freeRhs hX) with
    ⟨a, s₁, f₁, q₁, hTakeLhs, hCodeLhs⟩
  rcases
      hRhs s₁ f₁ q₁ X cell hCodeLhs.ready
        (hBinds.of_builds hCodeLhs.builds) fun x hX =>
          hFree (List.mem_append_right freeLhs hX) with
    ⟨b, s₂, f₂, q₂, hTakeRhs, hCodeRhs⟩
  rcases applies_operation N hOp a b with ⟨apply, hApply, hApplies⟩
  rcases
      hApplies s₂ f₂ q₂ X cell hCodeRhs.ready
        (hCodeLhs.fits.mono hCodeRhs.builds.grows.used) hCodeRhs.fits with
    ⟨out, s₃, f₃, q₃, hOperation, hExtends, hSettled, hFollows⟩
  refine ⟨out, s₃, f₃, q₃, taking_pushed ?_,
    (hCodeLhs.toExtends.trans hCodeRhs.toExtends).trans hExtends,
    hSettled, ?_⟩
  · have hAssign : Value.text op ≠ .text "=" := by
      rintro hSame
      cases hSame
      exact absurd hOp (by decide)
    rw [binary, if_neg hAssign, Steps.bind_ok hTakeLhs,
      Steps.bind_ok hTakeRhs, hCodeLhs.fits.isNothing_eq,
      hCodeRhs.fits.isNothing_eq]
    exact (Steps.bind_ok hOperation _).trans rfl
  · intro n σ v τ hRun c hPoint hAgrees
    rcases Meaning.operation_eq_some hRun with
      ⟨x, σ₁, y, apply', hRunLhs, hRunRhs, hApply', rfl⟩
    cases hApply.symm.trans hApply'
    rcases hCodeLhs.follows n σ x σ₁ hRunLhs c hPoint hAgrees with
      ⟨c₁, hFirst, hX⟩
    rcases
        hCodeRhs.follows n σ₁ y τ hRunRhs c₁ hFirst.point
          hFirst.agrees with
      ⟨c₂, hSecond, hY⟩
    -- the code for the right operand keeps the value of the left
    have hKept : a.number? N c₂.registers = some x :=
      (hCodeLhs.fits.number?_eq N hSecond.keeps.registers).trans hX
    rcases
        hFollows τ c₂ x y hSecond.point hSecond.agrees hKept hY with
      ⟨c₃, hThird, hResult⟩
    have hBoth := hFirst.trans hCodeRhs.builds.grows.within
      hCodeLhs.builds.grows.used hSecond
    have hUsed := List.Subset.trans hCodeLhs.builds.grows.used
      hCodeRhs.builds.grows.used
    exact ⟨c₃, hBoth.trans hExtends.builds.grows.within hUsed hThird,
      hResult⟩

end Offside.Emit

------------------------------------------------------------
-- Blocks
------------------------------------------------------------

namespace Offside.Emit

open IR (Numbers Operand Config)

variable {F : Type}
variable {N : Numbers F}

/- The results of several nodes are not used, but there are some. -/
def Result.effects
    (count : Nat) :
    Result F (List Operand) where
  fits := fun _ values => values.length = count
  holds := fun _ _ _ => True

/- A value need not be used. -/
theorem Sound.effect
    {m : Emit Operand}
    {run : Nat → Meaning F}
    {free : List String}
    (hSound : Sound N (.value N) m run free) :
    Sound N .effect m run free := by
  intro s f p X cell hReady hBinds hFree
  rcases hSound s f p X cell hReady hBinds hFree with
    ⟨out, s', f', q, hRun, hCode⟩
  refine ⟨out, s', f', q, hRun, hCode.toExtends,
    hCode.fits.isNothing_eq, ?_⟩
  intro n σ v τ hMeaning c hPoint hAgrees
  rcases hCode.follows n σ v τ hMeaning c hPoint hAgrees with
    ⟨c', hArrives, -⟩
  exact ⟨c', hArrives, trivial⟩

/- Nodes are visited one after another. -/
theorem sound_visitAll
    {nodes : List Node}
    (hNodes : ∀ node ∈ nodes,
      Sound N (.value N) (taking (visit node))
        (fun n => node.interpret N n) node.free) :
    Sound N (.effects nodes.length) (visitAll nodes)
      (fun n => Node.interpretAll N n nodes) (Node.freeAll nodes) := by
  induction nodes with
  | nil =>
      intro s f p X cell hReady hBinds hFree
      refine ⟨[], s, f, p, rfl, ⟨hReady, .refl _ s f, .inl rfl⟩, rfl,
        ?_⟩
      intro n σ v τ hRun c hPoint hAgrees
      cases hRun
      exact ⟨c, .refl hPoint hAgrees, trivial⟩
  | cons node nodes ih =>
      intro s f p X cell hReady hBinds hFree
      rcases
          hNodes node List.mem_cons_self s f p X cell hReady hBinds
            fun x hX => hFree (List.mem_append_left _ hX) with
        ⟨out, s₁, f₁, q₁, hTaking, hFirst⟩
      rcases
          ih (fun node' hMem => hNodes node' (List.mem_cons_of_mem _ hMem))
            s₁ f₁ q₁ X cell hFirst.ready (hBinds.of_builds hFirst.builds)
            fun x hX => hFree (List.mem_append_right _ hX) with
        ⟨outs, s₂, f₂, q₂, hVisit, hRest⟩
      refine ⟨out :: outs, s₂, f₂, q₂, ?_,
        hFirst.toExtends.trans hRest.toExtends,
        congrArg Nat.succ hRest.fits, ?_⟩
      · rw [visitAll, Steps.bind_ok hTaking]
        exact (Steps.bind_ok hVisit _).trans rfl
      · intro n σ v τ hRun c hPoint hAgrees
        rcases Meaning.sequence_eq_some hRun with
          ⟨w, σ₁, hRunFirst, hRunRest⟩
        rcases hFirst.follows n σ w σ₁ hRunFirst c hPoint hAgrees with
          ⟨c₁, hArrives, -⟩
        rcases
            hRest.follows n σ₁ v τ hRunRest c₁ hArrives.point
              hArrives.agrees with
          ⟨c₂, hArrives', hHolds⟩
        exact ⟨c₂, hArrives.trans hRest.builds.grows.within
          hFirst.builds.grows.used hArrives', hHolds⟩

/- A block of at least one node. -/
theorem sound_block
    {nodes : List Node}
    (hSome : nodes ≠ [])
    (hNodes : ∀ node ∈ nodes,
      Sound N (.value N) (taking (visit node))
        (fun n => node.interpret N n) node.free) :
    Sound N .effect (taking (visit (.block nodes)))
      (fun n => (Node.block nodes).interpret N n)
      (Node.block nodes).free := by
  intro s f p X cell hReady hBinds hFree
  rcases sound_visitAll hNodes s f p X cell hReady hBinds hFree with
    ⟨values, s', f', q, hVisit, hCode⟩
  refine ⟨.many values, s', f', q, taking_pushed ?_, hCode.toExtends,
    ?_, hCode.follows⟩
  · rw [visit, Steps.bind_ok hVisit]
    rfl
  · have hLength : values.length = nodes.length := hCode.fits
    have hPos := List.length_pos_iff.mpr hSome
    cases values with
    | nil =>
        rw [← hLength] at hPos
        cases hPos
    | cons value values => rfl

end Offside.Emit
