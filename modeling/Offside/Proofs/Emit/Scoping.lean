import Mathlib
import Offside.Proofs.Emit.Lookup
import Offside.Proofs.Emit.Probe

/-
  Whose variables a function works on.  Bindings stay when a
  function has been defined, so that a later one may find those
  of an earlier one.

  Key definitions include:
    * `Offside.EmitState.after`
    * `Offside.Emit.Scoped`

  Main statement:
    * `Offside.Emit.scoped_iff_unbound`: functions work on
      variables of their own exactly as long as the names that
      they take from outside are not bound.
-/

------------------------------------------------------------
-- Histories
------------------------------------------------------------

namespace Offside.EmitState

/- Nodes are visited one after another; visits may fail. -/
def after
    (s : EmitState)
    (history : List Node) :
    EmitState :=
  history.foldl (fun s node => (Emit.attempt node s).2) s

theorem Regular.after
    {s : EmitState}
    (hRegular : s.Regular)
    {history : List Node}
    (hProper : ∀ node ∈ history, node.IsProper) :
    (s.after history).Regular := by
  induction history generalizing s with
  | nil => exact hRegular
  | cons node history ih =>
      rcases List.forall_mem_cons.mp hProper with ⟨hNode, hHistory⟩
      exact ih (Emit.attempt_regular hNode hRegular) hHistory

end Offside.EmitState

------------------------------------------------------------
-- Blocks of One Variable
------------------------------------------------------------

namespace Offside.Node

variable {x y : String}

theorem reads_mention :
    (mention x).Reads x :=
  .block List.mem_cons_self (.reference _ _ rfl)

theorem not_abandons_mention :
    ¬(mention x).Abandons y := by
  rintro ⟨counter, first, last, step, body, _, hInner, _⟩
  rcases Relation.ReflTransGen.cases_tail hInner with
    hSame | ⟨part, hInner', hPart⟩
  · cases hSame
  · cases hPart with
    | node hMem =>
        rw [List.mem_singleton.mp hMem] at hInner'
        rcases Relation.ReflTransGen.cases_tail hInner' with
          hSame | ⟨_, _, hPart⟩
        · cases hSame
        · cases hPart

end Offside.Node

------------------------------------------------------------
-- Variables of a Function
------------------------------------------------------------

namespace Offside.Emit

/-
  The definition of a function has worked on its own variables:
  all code is in the function, reads and writes memory that is
  reserved there, and every name that is read outside of a loop
  that counts with it is one of the arguments, unless a loop was
  left before its counter was restored.
-/
structure Scoped
    (function : String)
    (body : Node)
    (s s' : EmitState) :
    Prop where
  code :
    ∃ emitted,
      s.generator.module.Emits emitted s'.generator.module ∧
      ∀ e ∈ emitted,
        e.1 = function ∧
        ∀ address, e.2.op.pointer? = some address →
          IR.Reserves emitted function address
  names :
    ∃ f,
      s'.generator.module.function? function = some f ∧
      ∀ x, body.Reads x → IR.Names f.arguments x ∨ body.Abandons x

variable {s s' : EmitState}
variable {name : Value}
variable {type : String}
variable {params : List Node}
variable {line : Nat}
variable {body : Node}

/- So it is where no variable is bound. -/
theorem scoped_of_empty
    (hEmpty : s.bindings = .empty)
    (hLocal : body.IsLocal)
    (hVisit :
      visit (.function (.prototype name type params line) body) s =
        .ok () s') :
    Scoped name.shown body s s' := by
  have hNone : ∀ x, s.bindings.get? x = none := by
    intro x
    rw [hEmpty]
    rfl
  rcases Steps.map_eq_ok hVisit with ⟨operand, hRun, _⟩
  rcases definition_emission hLocal hRun with
    ⟨args, emitted, t, value, u, hLive, hEmission, hBody, hBound⟩
  refine ⟨⟨emitted, hEmission.code, fun e hMem =>
    ⟨(hEmission.instructions e hMem).1, fun address hPointer => ?_⟩⟩, ?_⟩
  · refine (hEmission.pointers e hMem address hPointer).resolve_left ?_
    rintro ⟨x, hKnown⟩
    rw [hNone x] at hKnown
    cases hKnown
  · rcases hLive.arguments with ⟨f, hFunction, rfl⟩
    refine ⟨f, hFunction, fun x hReads => ?_⟩
    rw [or_iff_not_imp_right]
    intro hFinished
    by_contra hOther
    -- A name that is not bound when the body is visited is needed.
    have hUnbound : t.bindings.get? x = none := by
      rw [← Option.not_isSome_iff_eq_none, hBound, hNone x]
      simpa using hOther
    have hNeeds := visit_needs hReads ⟨hLocal, hFinished⟩
    exact hNeeds.taking t hUnbound value u hBody

/-
  It is so, too, where only those variables are not bound which
  are taken from outside.
-/
theorem scoped_of_unbound
    (hRegular : s.Regular)
    (hLocal : body.IsLocal)
    (hUnbound : ∀ x,
      (Node.function (.prototype name type params line) body).Takes s x →
        s.bindings.get? x = none)
    (hVisit :
      visit (.function (.prototype name type params line) body) s =
        .ok () s') :
    Scoped name.shown body s s' := by
  let t : EmitState := { s with bindings := .empty }
  have hAlike : s.Alike
      ((Node.function (.prototype name type params line) body).Takes s)
      t :=
    ⟨hRegular, ⟨hRegular.resolves, hRegular.prototypes, nofun⟩, rfl,
      fun x hTakes => (hUnbound x hTakes).symm⟩
  have hResults :=
    visit_alike hLocal.isProper_function (fun _ hTakes => hTakes) hAlike
  rw [hVisit] at hResults
  cases hRun :
      visit (.function (.prototype name type params line) body) t with
  | error e t' =>
      rw [hRun] at hResults
      exact hResults.elim
  | ok a t' =>
      rw [hRun] at hResults
      have hGenerator := hResults.2.generator
      rcases scoped_of_empty rfl hLocal hRun with ⟨hCode, hNames⟩
      rw [hGenerator] at hCode hNames
      exact ⟨hCode, hNames⟩

/-
  After some visits of a new generator, functions that take no
  other variables from outside than `X` work on variables of
  their own exactly when none of `X` is bound.
-/
theorem scoped_iff_unbound
    {start : EmitState}
    (hNew : start.IsNew)
    {history : List Node}
    (hHistory : ∀ node ∈ history, node.IsProper)
    (X : String → Prop) :
    (∀ name type params line body s',
        body.IsLocal →
        (∀ x,
          (Node.function (.prototype name type params line) body).Takes
            (start.after history) x → X x) →
        visit (.function (.prototype name type params line) body)
            (start.after history) = .ok () s' →
          Scoped name.shown body (start.after history) s') ↔
      ∀ x, X x → (start.after history).bindings.get? x = none := by
  have hRegular := hNew.regular.after hHistory
  constructor
  · intro hScoped x hName
    rcases (start.after history).generator.module.exists_isFree with
      ⟨function, hFree⟩
    rw [← Option.not_isSome_iff_eq_none, Option.isSome_iff_exists]
    rintro ⟨address, hBound⟩
    -- A probe of the variable would read it without an argument.
    rcases probe_succeeds hRegular hFree hBound with
      ⟨s', hVisit, hLive⟩
    rcases (hScoped _ _ _ _ _ s' Node.isLocal_mention (fun y hTakes => by
        rw [Node.takes_probe hTakes]
        exact hName) hVisit).names with
      ⟨f, hFunction, hNames⟩
    rcases hLive.arguments with ⟨g, hFunction', hArgs⟩
    cases hFunction.symm.trans hFunction'
    rcases hNames x Node.reads_mention with ⟨_, hMem⟩ | hAbandons
    · rw [hArgs] at hMem
      cases hMem
    · exact Node.not_abandons_mention hAbandons
  · intro hUnbound name type params line body s' hLocal hTakes
    exact scoped_of_unbound hRegular hLocal fun x hTaken =>
      hUnbound x (hTakes x hTaken)

theorem scoped_iff_unbound_echo :
    EmitState.fresh.IsNew ∧
      (Node.echo "f" "a").IsProper ∧
      ¬∀ name type params line body s',
        body.IsLocal →
        (∀ x,
          (Node.function (.prototype name type params line) body).Takes
            (EmitState.fresh.after [.echo "f" "a"]) x → x = "a") →
        visit (.function (.prototype name type params line) body)
            (EmitState.fresh.after [.echo "f" "a"]) = .ok () s' →
          Scoped name.shown body
            (EmitState.fresh.after [.echo "f" "a"]) s' := by
  have hNew : EmitState.fresh.IsNew := ⟨⟨"", "", false, rfl⟩, rfl⟩
  refine ⟨hNew, Node.isProper_echo, ?_⟩
  have hHistory : ∀ node ∈ [Node.echo "f" "a"], node.IsProper := by
    intro node hMem
    rw [List.mem_singleton.mp hMem]
    exact Node.isProper_echo
  rw [scoped_iff_unbound hNew hHistory (· = "a")]
  intro hUnbound
  -- The argument of the first function is still bound.
  have hBound :
      ((EmitState.fresh.after [.echo "f" "a"]).bindings.get? "a").isSome =
        true := by
    decide +kernel
  rw [hUnbound "a" rfl] at hBound
  cases hBound

end Offside.Emit
