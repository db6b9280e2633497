import Mathlib
import Offside.Proofs.Emit.Operations

/-
  Code for conditions follows their meaning.

  A branch may end in another block than the one it began in,
  so where branches meet, each is known by the block it ends in.

  Key definitions include:
    * `Offside.Emit.Forked`
    * `Offside.Emit.Branched`

  Main statements:
    * `Offside.Emit.fork_ready`
    * `Offside.Emit.branch_ready`
    * `Offside.Emit.Branched.arrives_meet`
    * `Offside.Emit.sound_conditional`
-/

------------------------------------------------------------
-- The Choice
------------------------------------------------------------

namespace Offside.Emit

open EmitState (Builds Extends)
open IR (Numbers Operand Config Point)

variable {F : Type}
variable {N : Numbers F}
variable {s : EmitState}
variable {f : IR.Function}
variable {p : Point}

/-
  The code that chooses between two branches.  Their labels and
  that of the block where they meet are new, but only the block
  of the first branch is there yet.
-/
structure Forked
    (s : EmitState)
    (f : IR.Function)
    (p : Point)
    (value : Operand)
    (yes no meet : String)
    (s' : EmitState)
    (f' : IR.Function) :
    Prop where
  ready : s'.Ready f' (.start yes)
  builds : Builds f.scope.used s f s' f'
  code :
    ∃ test jump,
      test ∉ f.scope.used ∧
      f'.fetch p =
        some ⟨test, .compare .differ value (.zero .float)⟩ ∧
      f'.fetch p.next =
        some ⟨jump, .branch (.register .bool test) yes no⟩
  apart : yes ≠ no ∧ meet ≠ no
  free : no ∉ f.scope.used ∧ meet ∉ f.scope.used
  used : no ∈ f'.scope.used ∧ meet ∈ f'.scope.used
  none : f'.block? no = none ∧ f'.block? meet = none

theorem fork_ready
    (hReady : s.Ready f p)
    {function : String}
    (hName : f.name = function)
    {value : Operand}
    (hValue : value.type? = some .float) :
    ∃ test yes no meet s₁ s₂ s₃ s₄ s₅ s' f',
      compare .differ value (.zero .float) "" s = .ok test s₁ ∧
      currentFunction s₁ = .ok function s₁ ∧
      appendBlock function "then" s₁ = .ok yes s₂ ∧
      register function "else" s₂ = .ok no s₃ ∧
      register function "ifcont" s₃ = .ok meet s₄ ∧
      terminate (.branch test yes no) s₄ = .ok () s₅ ∧
      moveToStart function yes s₅ = .ok () s' ∧
      Forked s f p value yes no meet s' f' := by
  rcases compare_ready hReady .differ hValue (.zero .float) "" with
    ⟨test, s₁, f₁, hCompare, hTest⟩
  have hName₁ := hTest.builds.grows.name.trans hName
  rcases hTest.ready.cursor with ⟨b, -, -, -, hCursor⟩
  rcases appendBlock_ready hTest.ready hName₁ "then" with
    ⟨yes, s₂, f₂, hYes, hAppend, hFreeYes, hUsedYes, hBlockYes⟩
  have hBuilds₂ := hTest.builds.append hAppend.builds
  have hName₂ := hBuilds₂.grows.name.trans hName
  rcases register_ready hAppend.ready hName₂ "else" with
    ⟨no, s₃, f₃, hNo, hElse, -, hBlocks₃, hFreeNo, hUsedNo⟩
  have hBuilds₃ := hBuilds₂.append hElse.builds
  have hName₃ := hBuilds₃.grows.name.trans hName
  rcases register_ready hElse.ready hName₃ "ifcont" with
    ⟨meet, s₄, f₄, hMeet, hCont, -, hBlocks₄, hFreeMeet, hUsedMeet⟩
  have hBuilds₄ := hBuilds₃.append hCont.builds
  rcases
      terminate_ready hCont.ready
        (.branch (.register .bool test) yes no) rfl with
    ⟨s₅, f₅, hTerminate, hEnded⟩
  have hBuilds₅ := hBuilds₄.append hEnded.builds
  -- the last step has changed none of the three blocks
  have hBlock : ∀ label, label ≠ p.label →
      f₅.block? label = f₂.block? label := by
    intro label hOther
    rw [hEnded.others label hOther, IR.Function.block?, hBlocks₄,
      hBlocks₃]
    rfl
  have hYesOther : yes ≠ p.label := by
    rintro rfl
    exact hFreeYes hTest.ready.label_used
  have hNoOther : no ≠ p.label := by
    rintro rfl
    exact hFreeNo hAppend.ready.label_used
  have hMeetOther : meet ≠ p.label := by
    rintro rfl
    exact hFreeMeet hElse.ready.label_used
  rcases
      moveToStart_ready hEnded.toHas
        (hBuilds₅.grows.name.trans hName) f₅.scope.used
        ((hBlock yes hYesOther).trans hBlockYes) with
    ⟨s₆, hMove, hReady₆, hBuilds₆⟩
  refine ⟨_, yes, no, meet, s₁, s₂, s₃, s₄, s₅, s₆, f₅, hCompare,
    (currentFunction_apply hCursor).trans (by rw [hName₁]), hYes, hNo,
    hMeet, hTerminate, hMove, hReady₆, hBuilds₅.append hBuilds₆, ?_,
    ⟨?_, ?_⟩, ⟨?_, ?_⟩, ⟨?_, hEnded.builds.grows.used hUsedMeet⟩,
    ⟨?_, ?_⟩⟩
  · rcases hEnded.fetch with ⟨jump, hJump⟩
    have hWithin := (((hAppend.builds.append hElse.builds).append
      hCont.builds).append hEnded.builds).grows.within
    exact ⟨test, jump, hTest.free, hWithin.code p _ hTest.fetch, hJump⟩
  · rintro rfl
    exact hFreeNo hUsedYes
  · rintro rfl
    exact hFreeMeet hUsedNo
  · exact fun hUsed => hFreeNo (hBuilds₂.grows.used hUsed)
  · exact fun hUsed => hFreeMeet (hBuilds₃.grows.used hUsed)
  · exact (hCont.builds.append hEnded.builds).grows.used hUsedNo
  · rw [hBlock no hNoOther]
    exact hAppend.ready.registered.block?_eq_none hFreeNo
  · rw [hBlock meet hMeetOther]
    exact hAppend.ready.registered.block?_eq_none fun hUsed =>
      hFreeMeet (hElse.builds.grows.used hUsed)

/- The branch is taken that the value asks for. -/
theorem Forked.arrives
    {value : Operand}
    {yes no meet : String}
    {s' : EmitState}
    {f' : IR.Function}
    (hForked : Forked s f p value yes no meet s' f')
    {X : List String}
    {cell : String → String}
    {σ : Store F}
    {c : Config F}
    (hPoint : c.point = p)
    (hAgrees : c.Agrees X cell σ)
    {x : F}
    (hValue : value.number? N c.registers = some x) :
    ∃ c',
      Config.Arrives N f' f.scope.used X cell
        (.start (if N.differ x N.zero then yes else no)) σ c c' := by
  rcases hForked.code with ⟨test, jump, hFree, hCompare, hBranch⟩
  have hTest :=
    Config.arrives_define hCompare hFree hPoint hAgrees
      (IR.exec_compare hValue (Operand.number?_const N _ _ _) test
        .differ)
  have hJump :=
    Config.arrives_goTo hBranch f.scope.used hTest.point hTest.agrees
      (IR.exec_branch (Operand.truth?_define N c .bool test _) jump yes
        no)
  exact ⟨_, hTest.trans (.refl f') (List.Subset.refl _) hJump⟩

end Offside.Emit

------------------------------------------------------------
-- The Branches
------------------------------------------------------------

namespace Offside.Emit

open EmitState (Builds)
open IR (Numbers Operand Config Point)

variable {F : Type}
variable {N : Numbers F}
variable {s : EmitState}
variable {f : IR.Function}
variable {p : Point}

/-
  The code of a branch: it follows the meaning of the branch, and
  ends with a jump to where the branches meet.  Code goes to
  another block from there on.
-/
structure Branched
    (N : Numbers F)
    (run : Nat → Meaning F)
    (kept X : List String)
    (cell : String → String)
    (meet label : String)
    (s : EmitState)
    (f : IR.Function)
    (p : Point)
    (out : Operand)
    (q : Point)
    (s' : EmitState)
    (f' : IR.Function) :
    Prop where
  ready : s'.Ready f' (.start label)
  builds : Builds kept s f s' f'
  label : q.label = p.label ∨ q.label ∉ f.scope.used
  used : q.label ∈ f'.scope.used
  jump : ∃ name, f'.fetch q = some ⟨name, .jump meet⟩
  follows :
    ∀ n σ v τ, run n σ = some (v, τ) →
      ∀ c : Config F, c.point = p → c.Agrees X cell σ →
        ∃ c',
          Config.Arrives N f' f.scope.used X cell q τ c c' ∧
          out.number? N c'.registers = some v

/-
  A branch is visited, and code goes to a block of a known name,
  which is none of those that are kept.
-/
theorem branch_ready
    {visit : Emit Unit}
    {run : Nat → Meaning F}
    {free : List String}
    (hSound : Sound N (.value N) (taking visit) run free)
    (hReady : s.Ready f p)
    {function : String}
    (hName : f.name = function)
    {X : List String}
    {cell : String → String}
    (hBinds : s.Binds f X cell)
    (hFree : free ⊆ X)
    (cause : Invalid)
    (meet : String)
    (kept : List String)
    (hKept : kept ⊆ f.scope.used)
    {label : String}
    (hUsed : label ∈ f.scope.used)
    (hNew : label ∉ kept)
    (hNone : f.block? label = none) :
    ∃ out q before after s₁ s₂ s₃ s' f',
      takingValue visit cause s = .ok out s₁ ∧
      s₁.generator.cursor = some ⟨function, q.label, before⟩ ∧
      terminate (.jump meet) s₁ = .ok () s₂ ∧
      s₂.generator.cursor = some ⟨function, q.label, after⟩ ∧
      attachBlock function label s₂ = .ok () s₃ ∧
      moveToStart function label s₃ = .ok () s' ∧
      Branched N run kept X cell meet label s f p out q s' f' := by
  subst hName
  rcases hSound s f p X cell hReady hBinds hFree with
    ⟨out, s₁, f₁, q, hTaking, hCode⟩
  have hName₁ := hCode.builds.grows.name
  rcases hCode.ready.cursor with ⟨b, -, -, -, hBefore⟩
  rcases terminate_ready hCode.ready (.jump meet) rfl with
    ⟨s₂, f₂, hTerminate, hEnded⟩
  rcases hEnded.cursor with ⟨after, hAfter⟩
  rcases hEnded.fetch with ⟨jump, hJump⟩
  have hBuilds₂ := hCode.builds.append hEnded.builds
  rcases
      attach_ready hEnded.toHas hBuilds₂.grows.name
        (hBuilds₂.grows.used hUsed) hNew
        (hBuilds₂.grows.blocks label hUsed hNone) with
    ⟨s₃, s', f', hAttach, hMove, hReady', hBuilds⟩
  rw [hName₁] at hBefore hAfter
  refine ⟨out, q, _, after, s₁, s₂, s₃, s', f',
    takingValue_of_taking hTaking hCode.fits.isNothing_eq cause, hBefore,
    hTerminate, hAfter, hAttach, hMove, hReady',
    (hBuilds₂.mono hKept).trans hBuilds, hCode.label, ?_,
    ⟨jump, hBuilds.grows.within.code q _ hJump⟩, ?_⟩
  · exact hBuilds.grows.used
      (hEnded.builds.grows.used hCode.ready.label_used)
  · intro n σ v τ hRun c hPoint hAgrees
    rcases hCode.follows n σ v τ hRun c hPoint hAgrees with
      ⟨c', hArrives, hValue⟩
    exact ⟨c', hArrives.within (hEnded.builds.grows.within.trans
      hBuilds.grows.within), hValue⟩

/- Where branches meet, the value is that of the branch taken. -/
theorem Branched.arrives_meet
    {run : Nat → Meaning F}
    {kept used X : List String}
    {cell : String → String}
    {meet label : String}
    {s' : EmitState}
    {f' g h : IR.Function}
    {out : Operand}
    {q : Point}
    (hBranch : Branched N run kept X cell meet label s f p out q s' f')
    (hBefore : h.Within f)
    (hUsed : used ⊆ f.scope.used)
    (hWithin : f'.Within g)
    {name : String}
    {incoming : List (Operand × String)}
    (hPhi : g.fetch (.start meet) = some ⟨name, .phi .float incoming⟩)
    (hFree : name ∉ used)
    (hFind : incoming.find? (fun entry => entry.2 = q.label) =
      some (out, q.label))
    {n : Nat}
    {σ τ : Store F}
    {v : F}
    (hRun : run n σ = some (v, τ))
    {c c₁ : Config F}
    (hTaken : Config.Arrives N h used X cell p σ c c₁) :
    ∃ c',
      Config.Arrives N g used X cell (Point.start meet).next τ c c' ∧
      (Operand.register .float name).number? N c'.registers =
        some v := by
  rcases hBranch.follows n σ v τ hRun c₁ hTaken.point hTaken.agrees with
    ⟨c₂, hArrives, hValue⟩
  rcases hBranch.jump with ⟨jump, hJump⟩
  have hEnd := hTaken.trans (hBefore.trans hBranch.builds.grows.within)
    hUsed hArrives
  have hGo :=
    Config.arrives_goTo (hWithin.code q _ hJump) used hEnd.point
      hEnd.agrees
      (rfl : IR.exec N g.cells c₂ ⟨jump, .jump meet⟩ =
        some (c₂.goTo meet))
  have hExec :
      IR.exec N g.cells (c₂.goTo meet)
          ⟨name, .phi .float incoming⟩ =
        some ((c₂.goTo meet).define name (.number v)) := by
    have hLabel : (c₂.goTo meet).previous = q.label := by
      rw [← hEnd.point]
      rfl
    have hEval :
        out.eval N (c₂.goTo meet).registers = some (.number v) :=
      Operand.eval_of_number? hValue
    simp [IR.exec, hLabel, hFind, hEval]
  have hPick :=
    Config.arrives_define hPhi hFree hGo.point hGo.agrees hExec
  have hBoth := hGo.trans (.refl g) (List.Subset.refl _) hPick
  exact ⟨_, hEnd.trans hWithin (List.Subset.refl _) hBoth,
    Operand.number?_define N _ _ _ _⟩

/- The branches of a condition end in different blocks. -/
theorem Forked.ends_apart
    {value : Operand}
    {yes no meet : String}
    {s' : EmitState}
    {f' g : IR.Function}
    (hForked : Forked s f p value yes no meet s' f')
    {q r : Point}
    (hYes : q.label = yes ∨ q.label ∉ f'.scope.used)
    (hUsed : q.label ∈ g.scope.used)
    (hNo : r.label = no ∨ r.label ∉ g.scope.used) :
    q.label ≠ r.label := by
  intro hSame
  rcases hNo with hNo | hNew
  · rcases hYes with hYes | hNew
    · exact hForked.apart.1 (hYes.symm.trans (hSame.trans hNo))
    · rw [hSame, hNo] at hNew
      exact hNew hForked.used.1
  · rw [← hSame] at hNew
    exact hNew hUsed

/- A condition chooses the branch, and has the value of it. -/
theorem sound_conditional
    {cond yes no : Emit Unit}
    {runCond runYes runNo : Nat → Meaning F}
    {freeCond freeYes freeNo : List String}
    (hCond : Sound N (.value N) (taking cond) runCond freeCond)
    (hYes : Sound N (.value N) (taking yes) runYes freeYes)
    (hNo : Sound N (.value N) (taking no) runNo freeNo) :
    Sound N (.value N) (taking (conditional cond yes no))
      (fun n => Meaning.conditional N (runCond n) (runYes n) (runNo n))
      (freeCond ++ (freeYes ++ freeNo)) := by
  intro s f p X cell hReady hBinds hFree
  rcases List.append_subset.mp hFree with ⟨hFreeCond, hFreeRest⟩
  rcases List.append_subset.mp hFreeRest with ⟨hFreeYes, hFreeNo⟩
  -- the condition and the choice
  rcases hCond s f p X cell hReady hBinds hFreeCond with
    ⟨a, s₁, f₁, q₁, hTakeCond, hCodeCond⟩
  rcases
      fork_ready hCodeCond.ready hCodeCond.builds.grows.name
        hCodeCond.fits.type?_eq with
    ⟨test, yesLabel, noLabel, meet, s₂, s₃, s₄, s₅, s₆, s₇, f₇,
      hCompare, hFunction, hThen, hElse, hCont, hBranch, hMoveYes,
      hForked⟩
  have hBuilds₇ := hCodeCond.builds.append hForked.builds
  have hNewNo : noLabel ∉ f.scope.used := fun hUsed =>
    hForked.free.1 (hCodeCond.builds.grows.used hUsed)
  have hNewMeet : meet ∉ f.scope.used := fun hUsed =>
    hForked.free.2 (hCodeCond.builds.grows.used hUsed)
  -- the first branch, after which there is no block to meet in yet
  rcases
      branch_ready hYes hForked.ready hBuilds₇.grows.name
        (hBinds.of_builds hBuilds₇) hFreeYes .firstBranch meet
        (meet :: f.scope.used)
        (List.cons_subset.mpr ⟨hForked.used.2, hBuilds₇.grows.used⟩)
        hForked.used.1 (by simp [hForked.apart.2.symm, hNewNo])
        hForked.none.1 with
    ⟨b, q₈, before₈, after₈, s₈, s₉, s₁₀, s₁₁, f₁₁, hTakeYes,
      hBeforeYes, hEndYes, hAfterYes, hAttachNo, hMoveNo, hBranchYes⟩
  have hBuilds₁₁ := hBuilds₇.trans
    (hBranchYes.builds.mono (List.subset_cons_self meet f.scope.used))
  have hUsedMeet := hBranchYes.builds.grows.used hForked.used.2
  have hNoneMeet := hBranchYes.builds.grows.blocks meet
    List.mem_cons_self hForked.none.2
  -- the second branch
  rcases
      branch_ready hNo hBranchYes.ready hBuilds₁₁.grows.name
        (hBinds.of_builds hBuilds₁₁) hFreeNo .secondBranch meet
        f.scope.used hBuilds₁₁.grows.used hUsedMeet hNewMeet
        hNoneMeet with
    ⟨d, q₁₂, before₁₂, after₁₂, s₁₂, s₁₃, s₁₄, s₁₅, f₁₅, hTakeNo,
      hBeforeNo, hEndNo, hAfterNo, hAttachMeet, hMoveMeet, hBranchNo⟩
  have hBuilds₁₅ := hBuilds₁₁.trans hBranchNo.builds
  -- the block where they meet
  rcases
      place_ready hBranchNo.ready "iftmp"
        (.phi .float [(b, q₈.label), (d, q₁₂.label)]) rfl rfl with
    ⟨name, s₁₆, f₁₆, hPlace, hPlaced⟩
  refine ⟨.register .float name, s₁₆, f₁₆, (Point.start meet).next,
    taking_pushed ?_,
    ⟨hPlaced.ready, hBuilds₁₅.append hPlaced.builds, .inr hNewMeet⟩,
    .register hPlaced.used, ?_⟩
  · rw [conditional,
      Steps.bind_ok (takingValue_of_taking hTakeCond
        hCodeCond.fits.isNothing_eq _),
      Steps.bind_ok hCompare, Steps.bind_ok hFunction,
      Steps.bind_ok hThen, Steps.bind_ok hElse, Steps.bind_ok hCont,
      Steps.bind_ok hBranch, Steps.bind_ok hMoveYes,
      Steps.bind_ok hTakeYes, Steps.bind_ok hEndYes,
      Steps.bind_ok (currentBlock_apply hAfterYes),
      Steps.bind_ok (currentFunction_apply hAfterYes),
      Steps.bind_ok hAttachNo, Steps.bind_ok hMoveNo,
      Steps.bind_ok hTakeNo,
      Steps.bind_ok (currentBlock_apply hBeforeNo),
      Steps.bind_ok hEndNo,
      Steps.bind_ok (currentFunction_apply hAfterNo),
      Steps.bind_ok hAttachMeet, Steps.bind_ok hMoveMeet]
    exact (Steps.bind_ok hPlace _).trans rfl
  · intro n σ v τ hRun c hPoint hAgrees
    rcases Meaning.conditional_eq_some hRun with
      ⟨x, σ₁, hRunCond, hRunBranch⟩
    rcases hCodeCond.follows n σ x σ₁ hRunCond c hPoint hAgrees with
      ⟨c₁, hFirst, hX⟩
    rcases hForked.arrives hFirst.point hFirst.agrees hX with
      ⟨c₂, hChoice⟩
    have hChosen := hFirst.trans hForked.builds.grows.within
      hCodeCond.builds.grows.used hChoice
    have hFreeName : name ∉ f.scope.used := fun hUsed =>
      hPlaced.free (hBuilds₁₅.grows.used hUsed)
    have hWithin₁₅ := hPlaced.builds.grows.within
    have hWithin₁₁ := hBranchNo.builds.grows.within.trans hWithin₁₅
    by_cases hTest : N.differ x N.zero
    · rw [if_pos hTest] at hRunBranch hChosen
      exact hBranchYes.arrives_meet (.refl f₇) hBuilds₇.grows.used
        hWithin₁₁ hPlaced.fetch hFreeName (by simp) hRunBranch hChosen
    · rw [if_neg hTest] at hRunBranch hChosen
      have hEnds : q₈.label ≠ q₁₂.label :=
        hForked.ends_apart hBranchYes.label hBranchYes.used
          hBranchNo.label
      exact hBranchNo.arrives_meet hBranchYes.builds.grows.within
        hBuilds₁₁.grows.used hWithin₁₅ hPlaced.fetch hFreeName
        (by simp [hEnds]) hRunBranch hChosen

end Offside.Emit
