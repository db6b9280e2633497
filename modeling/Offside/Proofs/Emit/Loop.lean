import Mathlib
import Offside.Proofs.Emit.Operations

/-
  Code for loops follows their meaning.

  The counter of a loop has a cell of its own, also where a
  variable of that name is bound already; the cell of that
  variable is kept until the loop is left.

  Key definition:
    * `Offside.Emit.Closes`

  Main statements:
    * `Offside.Emit.arrives_rounds`
    * `Offside.Emit.sound_repetition`
-/

------------------------------------------------------------
-- The Scope of a Counter
------------------------------------------------------------

namespace Offside

/- The cells of variables, of which one is new. -/
theorem forall_update
    {X : List String}
    {cell : String → String}
    {x a : String}
    {P : String → String → Prop}
    (hNew : P x a)
    (hOld : ∀ y ∈ X, y ≠ x → P y (cell y)) :
    ∀ y ∈ x :: X, P y (Function.update cell x a y) := by
  intro y hMem
  by_cases hSame : y = x
  · rw [hSame, Function.update_self]
    exact hNew
  · rw [Function.update_of_ne hSame]
    exact hOld y (List.mem_of_ne_of_mem hSame hMem) hSame

end Offside

namespace Offside.EmitState

/- The state with another binding of a variable. -/
def bound
    (s : EmitState)
    (x : String)
    (address : IR.Operand) :
    EmitState :=
  { s with bindings := s.bindings.set x address }

/- The state with a variable bound as before. -/
def restored
    (s : EmitState)
    (x : String)
    (old : Option IR.Operand) :
    EmitState :=
  { s with bindings := s.bindings.restore x old }

variable {s s' : EmitState}
variable {f f' : IR.Function}
variable {p : IR.Point}
variable {X : List String}
variable {cell : String → String}
variable {x : String}

/- Where code goes does not depend on the bindings. -/
theorem Ready.of_generator
    (hReady : s.Ready f p)
    (hSame : s'.generator = s.generator) :
    s'.Ready f p where
  function := by
    rw [hSame]
    exact hReady.function
  registered := hReady.registered
  cursor := by
    rw [hSame]
    exact hReady.cursor

/- In its scope the counter has a new cell. -/
theorem Binds.bound
    (hBinds : s.Binds f X cell)
    {a : String}
    (hUsed : a ∈ f.scope.used)
    (hReserved : a ∈ f.cells)
    (hNew : ∀ y ∈ X, cell y ≠ a) :
    (s.bound x (.register (.pointer .float) a)).Binds f (x :: X)
      (Function.update cell x a) where
  address := by
    refine forall_update (P := fun y name => _ = some
      (IR.Operand.register (.pointer .float) name)) ?_ ?_
    · rw [EmitState.bound, Bindings.get?_set, if_pos rfl]
    · intro y hMem hOther
      rw [EmitState.bound, Bindings.get?_set, if_neg hOther]
      exact hBinds.address y hMem
  used := forall_update hUsed fun y hMem _ => hBinds.used y hMem
  reserved :=
    forall_update hReserved fun y hMem _ => hBinds.reserved y hMem
  apart := by
    intro y hY z hZ hCell
    by_cases hYx : y = x
    · by_cases hZx : z = x
      · rw [hYx, hZx]
      · rw [hYx, Function.update_self, Function.update_of_ne hZx]
          at hCell
        exact absurd hCell.symm (hNew z (List.mem_of_ne_of_mem hZx hZ))
    · have hY' := List.mem_of_ne_of_mem hYx hY
      by_cases hZx : z = x
      · rw [hZx, Function.update_self, Function.update_of_ne hYx]
          at hCell
        exact absurd hCell (hNew y hY')
      · rw [Function.update_of_ne hYx, Function.update_of_ne hZx]
          at hCell
        exact hBinds.apart y hY' z (List.mem_of_ne_of_mem hZx hZ) hCell

/- After its scope the variables are bound as before. -/
theorem Builds.restored
    {kept : List String}
    {address : IR.Operand}
    (hBuilds : Builds kept (s.bound x address) f s' f') :
    Builds kept s f (s'.restored x (s.bindings.get? x)) f' where
  grows := hBuilds.grows
  stack := hBuilds.stack
  bindings := by
    intro y
    rw [EmitState.restored, Bindings.get?_restore]
    by_cases hSame : y = x
    · rw [if_pos hSame, hSame]
    · rw [if_neg hSame, hBuilds.bindings y, EmitState.bound,
        Bindings.get?_set, if_neg hSame]

theorem Extends.restored
    {s'' : EmitState}
    {f'' : IR.Function}
    {q r : IR.Point}
    {address : IR.Operand}
    (hOuter : Extends s f p s' f' q)
    (hInner : Extends (s'.bound x address) f' q s'' f'' r) :
    Extends s f p (s''.restored x (s'.bindings.get? x)) f'' r :=
  hOuter.trans ⟨hInner.ready.of_generator rfl, hInner.builds.restored,
    hInner.label⟩

end Offside.EmitState

namespace Offside.IR.Config

variable {F : Type}
variable {N : Numbers F}
variable {f : Function}
variable {used X : List String}
variable {cell : String → String}
variable {q : Point}
variable {σ τ : Store F}
variable {c c' : Config F}
variable {x a : String}

/-
  When the scope of a counter is left, the variable of its name
  has the value that it had before: nothing has been written to
  its cell.
-/
theorem Arrives.leave
    (hInner : Arrives N f used (x :: X) (Function.update cell x a) q τ
      c c')
    (hAgrees : c.Agrees X cell σ)
    (hFree : a ∉ used)
    (hUsed : ∀ y ∈ X, cell y ∈ used)
    (hApart : ∀ y ∈ X, ∀ z ∈ X, cell y = cell z → y = z) :
    Arrives N f used X cell q (Function.update τ x (σ x)) c c' where
  reaches := hInner.reaches
  point := hInner.point
  agrees := by
    intro y hY
    by_cases hSame : y = x
    · subst hSame
      rw [Function.update_self, hAgrees y hY]
      refine congrArg some (hInner.keeps.memory _ (hUsed y hY) ?_).symm
      refine forall_update (P := fun _ other => other ≠ cell y) ?_ ?_
      · rintro rfl
        exact hFree (hUsed y hY)
      · intro z hZ hOther hCell
        exact hOther (hApart z hZ y hY hCell)
    · rw [Function.update_of_ne hSame,
        hInner.agrees y (List.mem_cons_of_mem x hY),
        Function.update_of_ne hSame]
  keeps := by
    refine ⟨hInner.keeps.registers, fun name hMem hOther => ?_⟩
    apply hInner.keeps.memory name hMem
    refine forall_update (P := fun _ other => other ≠ name) ?_
      fun z hZ _ => hOther z hZ
    rintro rfl
    exact hFree hMem

end Offside.IR.Config

------------------------------------------------------------
-- The Rounds
------------------------------------------------------------

namespace Offside.Emit

open EmitState (Extends)
open IR (Numbers Operand Config Point)

variable {F : Type}
variable {N : Numbers F}

/-
  The code at the end of a round: the counter moves on, and
  another round begins, or the loop is over.
-/
def Closes
    (N : Numbers F)
    (g : IR.Function)
    (used X : List String)
    (cell : String → String)
    (p : Point)
    (x : String)
    (step last : Operand)
    (label after : String) :
    Prop :=
  ∀ (σ : Store F) (c : Config F) d e y,
    c.point = p → c.Agrees X cell σ →
    step.number? N c.registers = some d →
    last.number? N c.registers = some e →
    σ x = some y →
      ∃ c',
        Config.Arrives N g used X cell
          (.start (if N.differ e N.zero then label else after))
          (Function.update σ x (some (N.add y d))) c c'

theorem closeLoop_ready
    {s : EmitState}
    {f : IR.Function}
    {p : Point}
    (hReady : s.Ready f p)
    {X : List String}
    {cell : String → String}
    (hBinds : s.Binds f X cell)
    {x : String}
    (hMem : x ∈ X)
    {step last : Operand}
    (hStep : step.Settled f.scope.used)
    (hLast : last.Settled f.scope.used)
    (N : Numbers F)
    (label : String) :
    ∃ after s' f',
      closeLoop x (.register (.pointer .float) (cell x)) step last label
        s = .ok () s' ∧
      Extends s f p s' f' (.start after) ∧
      Closes N f' f.scope.used X cell p x step last label after := by
  rcases load_ready hReady (cell x) x with
    ⟨value, s₁, f₁, hLoad, hFirst⟩
  rcases
      arithmetic_ready hFirst.ready .add (.register .float value) step
        rfl hStep.type?_eq "nextvar" with
    ⟨next, s₂, f₂, hAdd, hSecond⟩
  rcases
      store_ready hSecond.ready (.register .float next) rfl (cell x) with
    ⟨write, s₃, f₃, hStore, hThird⟩
  rcases
      compare_ready hThird.ready .differ hLast.type?_eq (.zero .double)
        "loopcond" with
    ⟨test, s₄, f₄, hCompare, hFourth⟩
  rcases hFourth.ready.cursor with ⟨b, -, -, -, hCursor⟩
  rcases
      turn_ready hFourth.ready "afterloop"
        (fun after => .branch (.register .bool test) label after)
        fun _ => rfl with
    ⟨after, s₅, s₆, s₇, f₇, hAppend, hTerminate, hMove, hTurn, ⟨jump,
      hJump⟩, -⟩
  refine ⟨after, s₇, f₇, ?_,
    (((hFirst.toExtends.trans hSecond.toExtends).trans
      hThird.toExtends).trans hFourth.toExtends).trans hTurn, ?_⟩
  · rw [closeLoop, Steps.bind_ok hLoad, Steps.bind_ok hAdd,
      Steps.bind_ok hStore, Steps.bind_ok hCompare,
      Steps.bind_ok (currentFunction_apply hCursor),
      Steps.bind_ok hAppend, Steps.bind_ok hTerminate]
    exact hMove
  · intro σ c d e y hPoint hAgrees hD hE hY
    have hCell : c.memory (cell x) = y :=
      Option.some.inj ((hAgrees x hMem).symm.trans hY)
    have hUsed₁ := hFirst.builds.grows.used
    have hUsed₂ := (hFirst.builds.append hSecond.builds).grows.used
    -- the counter is read and moves on
    have hCell₁ := hFirst.builds.grows.within.cells
      (hBinds.reserved x hMem)
    have hCell₃ := (hSecond.builds.grows.within.trans
      hThird.builds.grows.within).cells hCell₁
    have hRead := Config.arrives_define hFirst.fetch hFirst.free hPoint
      hAgrees (IR.exec_load N c hCell₁ value .float)
    rw [hCell] at hRead
    have hD₁ := (hStep.number?_eq N hRead.keeps.registers).trans hD
    have hNext := hRead.trans hSecond.builds.grows.within hUsed₁
      (Config.arrives_define hSecond.fetch hSecond.free hRead.point
        hRead.agrees
        (IR.exec_arithmetic (Operand.number?_define N c _ value y) hD₁
          next .add))
    have hWritten := hNext.trans hThird.builds.grows.within hUsed₂
      (Config.arrives_write hThird.fetch f₂.scope.used hNext.point hMem
        (hBinds.apart x hMem) (fun z hZ _ => hNext.agrees z hZ)
        (IR.exec_store (Operand.number?_define N _ _ next _) hCell₃
          write .float))
    -- the test is that of the end value
    have hE₃ := (hLast.number?_eq N hWritten.keeps.registers).trans hE
    have hUsed₃ := ((hFirst.builds.append hSecond.builds).append
      hThird.builds).grows.used
    have hTested := hWritten.trans hFourth.builds.grows.within hUsed₃
      (Config.arrives_define hFourth.fetch hFourth.free hWritten.point
        hWritten.agrees
        (IR.exec_compare hE₃ (Operand.number?_const N _ .double _) test
          .differ))
    have hGone := Config.arrives_goTo hJump f.scope.used hTested.point
      hTested.agrees
      (IR.exec_branch (Operand.truth?_define N _ .bool test _) jump
        label after)
    exact ⟨_, hTested.trans hTurn.builds.grows.within
      (List.Subset.refl _) hGone⟩

variable {runLast runStep runBody : Nat → Meaning F}
variable {X : List String}
variable {cell : String → String}
variable {s s₁ s₂ s₃ : EmitState}
variable {f f₁ f₂ f₃ g : IR.Function}
variable {q₁ q₂ q₃ : Point}
variable {body step last : Operand}
variable {x label after : String}

/-
  Rounds of a loop lead from its start to the block after it.
  The induction is on the number of rounds; each of them begins
  at the start again, with the store that the last one has left.
-/
theorem arrives_rounds
    (hBody : Compiled N .effect runBody X cell s f (.start label)
      body s₁ f₁ q₁)
    (hStep : Compiled N (.value N) runStep X cell s₁ f₁ q₁
      step s₂ f₂ q₂)
    (hLast : Compiled N (.value N) runLast X cell s₂ f₂ q₂
      last s₃ f₃ q₃)
    (hCloses : Closes N g f₃.scope.used X cell q₃ x step last label
      after)
    (hWithin : f₃.Within g)
    (n m : Nat)
    {σ τ : Store F}
    (hRun : Meaning.rounds N x (runLast n) (runStep n) (runBody n) m σ
      = some τ)
    {c : Config F}
    (hPoint : c.point = .start label)
    (hAgrees : c.Agrees X cell σ) :
    ∃ c',
      Config.Arrives N g f.scope.used X cell (.start after) τ c c' := by
  induction m generalizing σ c with
  | zero => cases hRun
  | succ m ih =>
      rcases Meaning.rounds_eq_some hRun with
        ⟨w, σ₁, d, σ₂, e, σ₃, y, hRunBody, hRunStep, hRunLast,
          hCounter, hRest⟩
      have hBuilds₂ := hBody.builds.append hStep.builds
      have hBuilds₃ := hBuilds₂.append hLast.builds
      rcases hBody.follows n σ w σ₁ hRunBody c hPoint hAgrees with
        ⟨c₁, hFirst, -⟩
      rcases
          hStep.follows n σ₁ d σ₂ hRunStep c₁ hFirst.point
            hFirst.agrees with
        ⟨c₂, hArrives, hD⟩
      have hSecond := hFirst.trans hStep.builds.grows.within
        hBody.builds.grows.used hArrives
      rcases
          hLast.follows n σ₂ e σ₃ hRunLast c₂ hSecond.point
            hSecond.agrees with
        ⟨c₃, hArrives, hE⟩
      have hThird := hSecond.trans hLast.builds.grows.within
        hBuilds₂.grows.used hArrives
      -- the end value is computed after the step, and keeps it
      have hD₃ : step.number? N c₃.registers = some d :=
        (hStep.fits.number?_eq N hArrives.keeps.registers).trans hD
      rcases
          hCloses σ₃ c₃ d e y hThird.point hThird.agrees hD₃ hE
            hCounter with
        ⟨c₄, hArrives⟩
      have hRound := hThird.trans hWithin hBuilds₃.grows.used hArrives
      by_cases hTest : N.differ e N.zero
      · rw [if_pos hTest] at hRest hRound
        rcases ih hRest hRound.point hRound.agrees with
          ⟨c₅, hArrives⟩
        exact ⟨c₅, hRound.trans (.refl g) (List.Subset.refl _)
          hArrives⟩
      · rw [if_neg hTest] at hRest hRound
        cases hRest
        exact ⟨c₄, hRound⟩

end Offside.Emit

------------------------------------------------------------
-- Loops
------------------------------------------------------------

namespace Offside.Emit

open EmitState (Extends)
open IR (Numbers Operand Config Point)

variable {F : Type}
variable {N : Numbers F}

/- The variables of the parts that are in the scope of a counter. -/
theorem subset_cons_of_filter
    {names X : List String}
    {x : String}
    (hFree : names.filter (fun y => y ≠ x) ⊆ X) :
    names ⊆ x :: X := by
  intro y hY
  by_cases hSame : y = x
  · exact hSame ▸ List.mem_cons_self
  · exact List.mem_cons_of_mem x
      (hFree (List.mem_filter.mpr ⟨hY, by simpa using hSame⟩))

/-
  The code before the first round: the counter gets a cell, and
  in it the first value, which is computed outside of its scope.
-/
theorem enter_ready
    {first : Emit Unit}
    {run : Nat → Meaning F}
    {free : List String}
    (hFirst : Sound N (.value N) (taking first) run free)
    {s : EmitState}
    {f : IR.Function}
    {p : Point}
    (hReady : s.Ready f p)
    {X : List String}
    {cell : String → String}
    (hBinds : s.Binds f X cell)
    (hFree : free ⊆ X)
    (x : String) :
    ∃ a function start label s₀ s₁ s₂ s₃ s₄ s₅ s' f',
      allocate x "float" s =
        .ok (.register (.pointer .float) a) s₀ ∧
      moveToEnd s₀ = .ok () s₁ ∧
      takingValue first .firstValue s₁ = .ok start s₂ ∧
      store start (.register (.pointer .float) a) s₂ = .ok () s₃ ∧
      currentFunction s₃ = .ok function s₃ ∧
      appendBlock function "loop" s₃ = .ok label s₄ ∧
      terminate (.jump label) s₄ = .ok () s₅ ∧
      moveToStart function label s₅ = .ok () s' ∧
      Extends s f p s' f' (.start label) ∧
      a ∉ f.scope.used ∧
      (s'.bound x (.register (.pointer .float) a)).Binds f' (x :: X)
        (Function.update cell x a) ∧
      ∀ n σ y τ, run n σ = some (y, τ) →
        ∀ c : Config F, c.point = p → c.Agrees X cell σ →
          ∃ q c₁ c₂,
            Config.Arrives N f' f.scope.used X cell q τ c c₁ ∧
            Config.Arrives N f' f.scope.used (x :: X)
              (Function.update cell x a) (.start label)
              (Function.update τ x (some y)) c₁ c₂ := by
  rcases allocate_ready hReady x with
    ⟨a, s₀, s₁, f₁, hAllocate, hMoveEnd, hReserved, hNew, hUsed,
      hCell⟩
  rcases
      hFirst s₁ f₁ p X cell hReserved.ready
        (hBinds.of_builds hReserved.builds) hFree with
    ⟨start, s₂, f₂, q, hTake, hCode⟩
  rcases store_ready hCode.ready start hCode.fits.type?_eq a with
    ⟨write, s₃, f₃, hStore, hWrite⟩
  rcases hWrite.ready.cursor with ⟨b, -, -, -, hCursor⟩
  rcases
      turn_ready hWrite.ready "loop" (fun label => .jump label)
        (fun _ => rfl) with
    ⟨label, s₄, s₅, s', f', hAppend, hTerminate, hMove, hTurn,
      ⟨jump, hJump⟩, -⟩
  have hAfter := hCode.toExtends.trans (hWrite.toExtends.trans hTurn)
  have hExtends := hReserved.trans hAfter
  have hNewOf : ∀ y ∈ X, cell y ≠ a := by
    rintro y hY rfl
    exact hNew (hBinds.used y hY)
  have hInner := (hBinds.of_builds hExtends.builds).bound (x := x)
    (hAfter.builds.grows.used hUsed)
    (hAfter.builds.grows.within.cells hCell) hNewOf
  refine ⟨a, f₃.name, start, label, s₀, s₁, s₂, s₃, s₄, s₅, s', f',
    hAllocate, hMoveEnd,
    takingValue_of_taking hTake hCode.fits.isNothing_eq _, hStore,
    currentFunction_apply hCursor, hAppend, hTerminate, hMove, hExtends,
    hNew, hInner, ?_⟩
  intro n σ y τ hRun c hPoint hAgrees
  rcases hCode.follows n σ y τ hRun c hPoint hAgrees with
    ⟨c₁, hArrives, hValue⟩
  have hWithin := hWrite.builds.grows.within.trans
    hTurn.builds.grows.within
  have hStarted :=
    ((Config.Arrives.refl hPoint hAgrees).trans
      (hReserved.builds.grows.within.trans hCode.builds.grows.within)
      hReserved.builds.grows.used hArrives).within hWithin
  -- from here on the counter is the new cell
  have hExec :
      IR.exec N f₃.cells c₁
          ⟨write, .store start (.register (.pointer .float) a)⟩ =
        some (c₁.write (Function.update cell x a x) y) := by
    rw [Function.update_self]
    exact IR.exec_store hValue
      ((hCode.builds.grows.within.trans
        hWrite.builds.grows.within).cells hCell) write .float
  have hOthers : ∀ z ∈ x :: X, z ≠ x →
      τ z = some (c₁.memory (Function.update cell x a z)) := by
    intro z hZ hOther
    rw [Function.update_of_ne hOther]
    exact hArrives.agrees z (List.mem_of_ne_of_mem hOther hZ)
  have hWritten :=
    Config.arrives_write hWrite.fetch f.scope.used hArrives.point
      List.mem_cons_self (hInner.apart x List.mem_cons_self) hOthers
      hExec
  have hEntered :=
    Config.arrives_goTo (N := N) hJump f.scope.used hWritten.point
      hWritten.agrees rfl
  exact ⟨q, c₁, _, hStarted, hWritten.trans
    hTurn.builds.grows.within (List.Subset.refl _) hEntered⟩

/- The code of the rounds, which are all in the scope of the counter. -/
theorem rounds_ready
    {last step body : Emit Unit}
    {runLast runStep runBody : Nat → Meaning F}
    {freeLast freeStep freeBody : List String}
    (hLast : Sound N (.value N) (taking last) runLast freeLast)
    (hStep : Sound N (.value N) (taking step) runStep freeStep)
    (hBody : Sound N .effect (taking body) runBody freeBody)
    {s : EmitState}
    {f : IR.Function}
    {label : String}
    (hReady : s.Ready f (.start label))
    {X : List String}
    {cell : String → String}
    (hBinds : s.Binds f X cell)
    {x : String}
    (hMem : x ∈ X)
    (hFree : freeBody ++ (freeStep ++ freeLast) ⊆ X) :
    ∃ value d e after s₁ s₂ s₃ s' f',
      taking body s = .ok value s₁ ∧
      value.isNothing = false ∧
      taking step s₁ = .ok d s₂ ∧
      d.isNothing = false ∧
      taking last s₂ = .ok e s₃ ∧
      e.isNothing = false ∧
      closeLoop x (.register (.pointer .float) (cell x)) d e label s₃ =
        .ok () s' ∧
      Extends s f (.start label) s' f' (.start after) ∧
      ∀ n m σ τ,
        Meaning.rounds N x (runLast n) (runStep n) (runBody n) m σ =
          some τ →
        ∀ c : Config F, c.point = .start label → c.Agrees X cell σ →
          ∃ c',
            Config.Arrives N f' f.scope.used X cell (.start after) τ c
              c' := by
  rcases List.append_subset.mp hFree with ⟨hFreeBody, hFreeRest⟩
  rcases List.append_subset.mp hFreeRest with ⟨hFreeStep, hFreeLast⟩
  rcases hBody s f _ X cell hReady hBinds hFreeBody with
    ⟨value, s₁, f₁, q₁, hTakeBody, hCodeBody⟩
  have hBinds₁ := hBinds.of_builds hCodeBody.builds
  rcases hStep s₁ f₁ q₁ X cell hCodeBody.ready hBinds₁ hFreeStep with
    ⟨d, s₂, f₂, q₂, hTakeStep, hCodeStep⟩
  have hBinds₂ := hBinds₁.of_builds hCodeStep.builds
  rcases hLast s₂ f₂ q₂ X cell hCodeStep.ready hBinds₂ hFreeLast with
    ⟨e, s₃, f₃, q₃, hTakeLast, hCodeLast⟩
  have hBinds₃ := hBinds₂.of_builds hCodeLast.builds
  rcases
      closeLoop_ready hCodeLast.ready hBinds₃ hMem
        (hCodeStep.fits.mono hCodeLast.builds.grows.used) hCodeLast.fits
        N label with
    ⟨after, s', f', hClose, hClosed, hCloses⟩
  refine ⟨value, d, e, after, s₁, s₂, s₃, s', f', hTakeBody,
    hCodeBody.fits, hTakeStep, hCodeStep.fits.isNothing_eq, hTakeLast,
    hCodeLast.fits.isNothing_eq, hClose,
    hCodeBody.toExtends.trans (hCodeStep.toExtends.trans
      (hCodeLast.toExtends.trans hClosed)), ?_⟩
  intro n m σ τ hRun c hPoint hAgrees
  exact arrives_rounds hCodeBody hCodeStep hCodeLast hCloses
    hClosed.builds.grows.within n m hRun hPoint hAgrees

/- A loop runs as long as its end value says. -/
theorem sound_repetition
    {first last step body : Emit Unit}
    {runFirst runLast runStep runBody : Nat → Meaning F}
    {freeFirst freeLast freeStep freeBody : List String}
    (hFirst : Sound N (.value N) (taking first) runFirst freeFirst)
    (hLast : Sound N (.value N) (taking last) runLast freeLast)
    (hStep : Sound N (.value N) (taking step) runStep freeStep)
    (hBody : Sound N .effect (taking body) runBody freeBody)
    (x : String) :
    Sound N (.value N)
      (taking (repetition (.text x) true first last step body))
      (fun n => Meaning.loop N n x (runFirst n) (runLast n) (runStep n)
        (runBody n))
      (freeFirst ++ (freeBody ++ (freeStep ++ freeLast)).filter
        fun y => y ≠ x) := by
  intro s f p X cell hReady hBinds hFree
  rcases List.append_subset.mp hFree with ⟨hFreeFirst, hFreeInner⟩
  rcases enter_ready hFirst hReady hBinds hFreeFirst x with
    ⟨a, function, start, label, s₀, s₁, s₂, s₃, s₄, s₅, s₆, f₆,
      hAllocate, hMoveEnd, hTakeFirst, hStore, hFunction, hAppend,
      hTerminate, hMove, hOuter, hNew, hBinds₆, hEnters⟩
  have hReady₆ :
      (s₆.bound x (.register (.pointer .float) a)).Ready f₆
        (.start label) :=
    hOuter.ready.of_generator rfl
  rcases
      rounds_ready hLast hStep hBody hReady₆ hBinds₆
        List.mem_cons_self (subset_cons_of_filter hFreeInner) with
    ⟨value, d, e, after, s₇, s₈, s₉, s₁₀, f₁₀, hTakeBody, hBodySome,
      hTakeStep, hStepSome, hTakeLast, hLastSome, hClose, hInner,
      hRounds⟩
  rw [Function.update_self] at hClose
  refine ⟨.zero .float, s₁₀.restored x (s₆.bindings.get? x), f₁₀,
    .start after, taking_pushed ?_, hOuter.restored hInner, .const _, ?_⟩
  · have hShown : (Value.text x).shown = x := rfl
    have hBound :
        setBinding x (.register (.pointer .float) a) s₆ =
          .ok () (s₆.bound x (.register (.pointer .float) a)) := rfl
    have hRestored :
        (modify fun s : EmitState =>
          { s with
            bindings := s.bindings.restore x (s₆.bindings.get? x) } :
            Emit Unit) s₁₀ =
          .ok () (s₁₀.restored x (s₆.bindings.get? x)) := rfl
    rw [repetition]
    simp only [hShown]
    rw [Steps.bind_ok hAllocate, Steps.bind_ok hMoveEnd,
      Steps.bind_ok hTakeFirst, Steps.bind_ok hStore,
      Steps.bind_ok hFunction, Steps.bind_ok hAppend,
      Steps.bind_ok hTerminate, Steps.bind_ok hMove,
      Steps.bind_ok (address?_apply rfl), Steps.bind_ok hBound,
      Steps.bind_ok hTakeBody]
    simp only [hBodySome, Bool.false_eq_true, if_false, if_true]
    rw [Steps.bind_ok hTakeStep, hStepSome, if_neg Bool.false_ne_true,
      Steps.bind_ok hTakeLast, hLastSome, if_neg Bool.false_ne_true,
      Steps.bind_ok hClose, Steps.bind_ok hRestored]
    rfl
  · intro n σ v τ hRun c hPoint hAgrees
    rcases Meaning.loop_eq_some hRun with
      ⟨y, σ₁, σ₂, hRunFirst, hRunRounds, rfl, rfl⟩
    rcases hEnters n σ y σ₁ hRunFirst c hPoint hAgrees with
      ⟨q, c₁, c₂, hStarted, hEntered⟩
    rcases
        hRounds n n _ σ₂ hRunRounds c₂ hEntered.point
          hEntered.agrees with
      ⟨c₃, hArrives⟩
    have hScope := hEntered.trans hInner.builds.grows.within
      hOuter.builds.grows.used hArrives
    have hLeft := hScope.leave hStarted.agrees hNew hBinds.used
      hBinds.apart
    exact ⟨c₃, hStarted.trans hInner.builds.grows.within
      (List.Subset.refl _) hLeft, rfl⟩

end Offside.Emit
