import Mathlib
import Offside.Proofs.Emit.Probe

/-
  Two generators that work by turns.  They share the bindings of
  variables, and these are all that one of them can notice of the
  other.

  Key definitions include:
    * `Offside.Shared`
    * `Offside.Shared.Unnoticed`
    * `Offside.Shared.Within`

  Main statement:
    * `Offside.Shared.unnoticed_iff_bindings`: the second generator
      goes on as if the first one were not there exactly when the
      variables that it takes from outside are bound as they would
      be then.
-/

------------------------------------------------------------
-- Two Generators
------------------------------------------------------------

namespace Offside

/- One of two generators. -/
inductive Side where
  | first
  | second
  deriving DecidableEq, Repr

/- Two generators and what they share. -/
structure Shared where
  first : Generator
  second : Generator
  bindings : Bindings
  printed : String
  folder : Folder

namespace Shared

/- The state in which a generator works. -/
def state
    (w : Shared)
    (side : Side) :
    EmitState where
  generator :=
    match side with
    | .first => w.first
    | .second => w.second
  bindings := w.bindings
  printed := w.printed
  folder := w.folder

/- What a generator leaves. -/
def put
    (w : Shared)
    (side : Side)
    (s : EmitState) :
    Shared where
  first :=
    match side with
    | .first => s.generator
    | .second => w.first
  second :=
    match side with
    | .first => w.second
    | .second => s.generator
  bindings := s.bindings
  printed := s.printed
  folder := s.folder

/- A generator visits a node; the visit may fail. -/
def visit
    (w : Shared)
    (call : Side × Node) :
    Shared :=
  w.put call.1 (Emit.attempt call.2 (w.state call.1)).2

/- The generators visit nodes by turns. -/
def after
    (w : Shared)
    (calls : List (Side × Node)) :
    Shared :=
  calls.foldl visit w

/- How the visits of the second generator have ended. -/
def outcomes
    (w : Shared) :
    List (Side × Node) →
    List (Option EmitError)
  | [] => []
  | (.first, node) :: calls => (w.visit (.first, node)).outcomes calls
  | (.second, node) :: calls =>
      (Emit.attempt node (w.state .second)).1 ::
        (w.visit (.second, node)).outcomes calls

/- The visits of the second generator alone. -/
def alone
    (calls : List (Side × Node)) :
    List (Side × Node) :=
  calls.filter fun call => call.1 = .second

/-
  The second generator cannot notice the first one: its visits
  have ended in the same way, and its module, stack, cursor and
  prototypes are the same as if only its visits had been made.
-/
def Unnoticed
    (w : Shared)
    (calls : List (Side × Node)) :
    Prop :=
  w.outcomes calls = w.outcomes (alone calls) ∧
    (w.after calls).second = (w.after (alone calls)).second

/-
  Visits by turns in which the second generator takes no other
  variables from outside than `X`, and the first one leaves
  these bound as they are.
-/
def Within
    (X : String → Prop)
    (w : Shared) :
    List (Side × Node) →
    Prop
  | [] => True
  | (.first, node) :: calls =>
      node.IsProper ∧
        (∀ x, X x → (w.visit (.first, node)).bindings.get? x =
          w.bindings.get? x) ∧
        (w.visit (.first, node)).Within X calls
  | (.second, node) :: calls =>
      node.IsProper ∧
        (∀ x, node.Takes (w.state .second) x → X x) ∧
        (w.visit (.second, node)).Within X calls

end Shared

end Offside

------------------------------------------------------------
-- Visits by Turns
------------------------------------------------------------

namespace Offside.Shared

open Emit (attempt)

variable {X : String → Prop}
variable {w v : Shared}
variable {calls more : List (Side × Node)}

theorem after_append :
    w.after (calls ++ more) = (w.after calls).after more :=
  List.foldl_append

theorem outcomes_append :
    w.outcomes (calls ++ more) =
      w.outcomes calls ++ (w.after calls).outcomes more := by
  induction calls generalizing w with
  | nil => rfl
  | cons call calls ih =>
      rcases call with ⟨_ | _, node⟩
      · exact ih
      · exact congrArg (_ :: ·) ih

theorem alone_append :
    alone (calls ++ more) = alone calls ++ alone more :=
  List.filter_append _ _

/- Both generators are in states that are regular. -/
def Regular
    (w : Shared) :
    Prop :=
  ∀ side, (w.state side).Regular

/- Of the generators only the one that visits changes. -/
theorem state_visit
    (w : Shared)
    (call : Side × Node)
    (other : Side) :
    ((w.visit call).state other).generator =
      if other = call.1 then
        (attempt call.2 (w.state call.1)).2.generator
      else (w.state other).generator := by
  rcases call with ⟨_ | _, node⟩ <;> cases other <;> rfl

theorem Regular.visit
    (hRegular : w.Regular)
    {call : Side × Node}
    (hProper : call.2.IsProper) :
    (w.visit call).Regular := by
  have hVisited := Emit.attempt_regular hProper (hRegular call.1)
  intro other
  refine ⟨?_, ?_, hVisited.cells⟩
  · rw [state_visit]
    split
    · exact hVisited.resolves
    · exact (hRegular other).resolves
  · rw [state_visit]
    split
    · exact hVisited.prototypes
    · exact (hRegular other).prototypes

theorem Regular.after
    (hRegular : w.Regular)
    (hProper : ∀ call ∈ calls, call.2.IsProper) :
    (w.after calls).Regular := by
  induction calls generalizing w with
  | nil => exact hRegular
  | cons call calls ih =>
      rcases List.forall_mem_cons.mp hProper with ⟨hCall, hCalls⟩
      exact ih (hRegular.visit hCall) hCalls

/- The second generator is in the same state, up to variables. -/
structure Same
    (X : String → Prop)
    (w v : Shared) :
    Prop where
  left : w.Regular
  right : v.Regular
  second : v.second = w.second
  bindings : ∀ x, X x → v.bindings.get? x = w.bindings.get? x

theorem Same.alike
    (hSame : w.Same X v) :
    (w.state .second).Alike X (v.state .second) :=
  ⟨hSame.left .second, hSame.right .second, hSame.second, hSame.bindings⟩

/-
  From such states on the second generator cannot notice the first
  one, nor what the first one does.
-/
theorem Same.within
    (hSame : w.Same X v)
    (hWithin : w.Within X more) :
    w.outcomes more = v.outcomes (alone more) ∧
      (w.after more).second = (v.after (alone more)).second := by
  induction more generalizing w v with
  | nil => exact ⟨rfl, hSame.second.symm⟩
  | cons call more ih =>
      rcases call with ⟨_ | _, node⟩
      · rcases hWithin with ⟨hProper, hKept, hRest⟩
        refine ih (v := v) ⟨hSame.left.visit hProper, hSame.right,
          hSame.second, fun x hName => ?_⟩ hRest
        rw [hKept x hName]
        exact hSame.bindings x hName
      · rcases hWithin with ⟨hProper, hTakes, hRest⟩
        rcases Emit.attempt_alike hProper hTakes hSame.alike with
          ⟨hOutcome, hAlike⟩
        have hNext : (w.visit (.second, node)).Same X
            (v.visit (.second, node)) :=
          ⟨hSame.left.visit hProper, hSame.right.visit hProper,
            hAlike.generator, hAlike.bindings⟩
        rcases ih hNext hRest with ⟨hOutcomes, hSecond⟩
        exact ⟨congrArg₂ List.cons hOutcome.symm hOutcomes, hSecond⟩

/-
  The second generator cannot notice the first one, whatever it
  visits with variables among `X`, exactly when it has not noticed
  it so far and these variables are bound as if only its visits
  had been made.
-/
theorem unnoticed_iff_bindings
    (hRegular : w.Regular)
    (hProper : ∀ call ∈ calls, call.2.IsProper)
    (X : String → Prop) :
    (∀ more, (w.after calls).Within X more →
        w.Unnoticed (calls ++ more)) ↔
      w.Unnoticed calls ∧
        ∀ x, X x → (w.after calls).bindings.get? x =
          (w.after (alone calls)).bindings.get? x := by
  have hLeft := hRegular.after hProper
  have hRight : (w.after (alone calls)).Regular :=
    hRegular.after fun call hMem =>
      hProper call (List.mem_of_mem_filter hMem)
  constructor
  · intro hUnnoticed
    have hSoFar : w.Unnoticed calls := by
      have hNone := hUnnoticed [] trivial
      rwa [List.append_nil] at hNone
    refine ⟨hSoFar, fun x hName => ?_⟩
    -- A probe of the variable shows where it is bound.
    rcases (w.after calls).second.module.exists_isFree with
      ⟨function, hFree⟩
    have hProbe : (w.after calls).Within X
        [(.second, .probe function x)] := by
      refine ⟨Node.isProper_probe, fun y hTakes => ?_, trivial⟩
      rw [Node.takes_probe hTakes]
      exact hName
    rcases hUnnoticed _ hProbe with ⟨hOutcomes, hSecond⟩
    rw [alone_append, outcomes_append, outcomes_append, hSoFar.1]
      at hOutcomes
    rw [alone_append, after_append, after_append] at hSecond
    have hOutcome := List.append_cancel_left hOutcomes
    symm
    refine Emit.probe_separates
      ⟨hLeft .second, hRight .second, hSoFar.2.symm, nofun⟩ hFree ?_
      hSecond.symm
    exact (List.cons.inj hOutcome).1.symm
  · rintro ⟨⟨hOutcomes, hSecond⟩, hBindings⟩ more hWithin
    have hSame : (w.after calls).Same X (w.after (alone calls)) :=
      ⟨hLeft, hRight, hSecond.symm, fun x hName =>
        (hBindings x hName).symm⟩
    rcases hSame.within hWithin with ⟨hOutcomes', hSecond'⟩
    unfold Unnoticed
    rw [alone_append, outcomes_append, outcomes_append, after_append,
      after_append, hOutcomes, hOutcomes']
    exact ⟨rfl, hSecond'⟩

/- Two new generators. -/
def fresh : Shared where
  first := .new true "" "" true
  second := .new true "" "" true
  bindings := .empty
  printed := ""
  folder := .empty

theorem regular_fresh :
    fresh.Regular := by
  intro side
  apply EmitState.IsNew.regular
  cases side with
  | first => exact ⟨⟨"", "", true, rfl⟩, rfl⟩
  | second => exact ⟨⟨"", "", true, rfl⟩, rfl⟩

theorem unnoticed_iff_bindings_echo :
    fresh.Regular ∧
      (Node.echo "f" "a").IsProper ∧
      ¬∀ more,
        (fresh.after [(.first, .echo "f" "a")]).Within (· = "a") more →
          fresh.Unnoticed ([(.first, .echo "f" "a")] ++ more) := by
  refine ⟨regular_fresh, Node.isProper_echo, ?_⟩
  have hProper : ∀ call ∈ [(Side.first, Node.echo "f" "a")],
      call.2.IsProper := by
    intro call hMem
    rw [List.mem_singleton.mp hMem]
    exact Node.isProper_echo
  rw [unnoticed_iff_bindings regular_fresh hProper]
  rintro ⟨_, hBindings⟩
  -- The argument of the first generator's function is still bound.
  have hBound :
      ((fresh.after [(.first, .echo "f" "a")]).bindings.get? "a").isSome =
        true := by
    decide +kernel
  rw [hBindings "a" rfl] at hBound
  cases hBound

end Offside.Shared
