import Mathlib
import Offside.Proofs.Emit.Placing
import Offside.Proofs.Node.Meaning

/-
  Code that does what an interpreter does: what it means for a
  run of the machine to follow a meaning, and which single
  instructions do.

  Key definitions include:
    * `Offside.EmitState.Binds`
    * `Offside.IR.Config.Arrives`
    * `Offside.Emit.Sound`

  A store and a memory agree on a list `X` of variables, each of
  which has a `cell` of its own.  Code keeps all registers that
  were in use before it, and all cells of other variables.

  Main statements:
    * `Offside.IR.Config.Arrives.trans`: runs follow one another.
    * `Offside.IR.Config.arrives_define`,
      `Offside.IR.Config.arrives_write`,
      `Offside.IR.Config.arrives_goTo`: single instructions.
-/

------------------------------------------------------------
-- Variables and Their Cells
------------------------------------------------------------

namespace Offside.EmitState

/- Every variable is bound to a cell of its own. -/
structure Binds
    (s : EmitState)
    (f : IR.Function)
    (X : List String)
    (cell : String → String) :
    Prop where
  address :
    ∀ x ∈ X, s.bindings.get? x =
      some (.register (.pointer .float) (cell x))
  used : ∀ x ∈ X, cell x ∈ f.scope.used
  reserved : ∀ x ∈ X, cell x ∈ f.cells
  apart : ∀ x ∈ X, ∀ y ∈ X, cell x = cell y → x = y

theorem Binds.of_builds
    {kept X : List String}
    {cell : String → String}
    {s s' : EmitState}
    {f f' : IR.Function}
    (hBinds : s.Binds f X cell)
    (hBuilds : Builds kept s f s' f') :
    s'.Binds f' X cell where
  address := fun x hMem =>
    (hBuilds.bindings x).trans (hBinds.address x hMem)
  used := fun x hMem => hBuilds.grows.used (hBinds.used x hMem)
  reserved := fun x hMem =>
    hBuilds.grows.within.cells (hBinds.reserved x hMem)
  apart := hBinds.apart

end Offside.EmitState

namespace Offside.IR.Operand

variable {F : Type}

/- A number that will not change: a constant or a named value. -/
inductive Settled (used : List String) : Operand → Prop
  | const (x : Binary64) :
      Settled used (.const .float x)
  | register {name : String} (hUsed : name ∈ used) :
      Settled used (.register .float name)

namespace Settled

variable {used used' : List String}
variable {operand : Operand}

theorem type?_eq
    (hSettled : Settled used operand) :
    operand.type? = some .float := by
  cases hSettled <;> rfl

theorem isNothing_eq
    (hSettled : Settled used operand) :
    operand.isNothing = false := by
  cases hSettled <;> rfl

theorem mono
    (hSettled : Settled used operand)
    (hSubset : used ⊆ used') :
    Settled used' operand := by
  cases hSettled with
  | const x => exact .const x
  | register hUsed => exact .register (hSubset hUsed)

/- Its value is the same while no register in use is changed. -/
theorem number?_eq
    (hSettled : Settled used operand)
    (N : Numbers F)
    {registers registers' : Registers F}
    (hKept : ∀ name ∈ used, registers' name = registers name) :
    operand.number? N registers' = operand.number? N registers := by
  cases hSettled with
  | const x => rfl
  | register hUsed =>
      have hSame := hKept _ hUsed
      simp only [number?, eval, hSame]

end Settled

@[simp] theorem number?_const
    (N : Numbers F)
    (registers : Registers F)
    (type : Ty)
    (x : Binary64) :
    (const type x).number? N registers = some (N.literal x) :=
  rfl

/- A register that has just been set. -/
@[simp] theorem number?_define
    (N : Numbers F)
    (c : Config F)
    (type : Ty)
    (name : String)
    (x : F) :
    (register type name).number? N
      (c.define name (.number x)).registers = some x := by
  simp [number?, eval, Config.define]

@[simp] theorem truth?_define
    (N : Numbers F)
    (c : Config F)
    (type : Ty)
    (name : String)
    (b : Bool) :
    (register type name).truth? N
      (c.define name (.truth b)).registers = some b := by
  simp [truth?, eval, Config.define]

/- An operand with a number is worth that number. -/
theorem eval_of_number?
    {N : Numbers F}
    {registers : Registers F}
    {operand : Operand}
    {x : F}
    (hNumber : operand.number? N registers = some x) :
    operand.eval N registers = some (.number x) := by
  unfold number? at hNumber
  split at hNumber
  · rename_i y hEval
    cases hNumber
    exact hEval
  · cases hNumber

end Offside.IR.Operand

------------------------------------------------------------
-- Runs
------------------------------------------------------------

namespace Offside.IR.Config

variable {F : Type}

/- The memory holds the values of the variables. -/
def Agrees
    (X : List String)
    (cell : String → String)
    (σ : Store F)
    (c : Config F) :
    Prop :=
  ∀ x ∈ X, σ x = some (c.memory (cell x))

/-
  Registers in use are as they were, and so are cells in use
  which belong to no variable.
-/
structure Keeps
    (used X : List String)
    (cell : String → String)
    (c c' : Config F) :
    Prop where
  registers : ∀ name ∈ used, c'.registers name = c.registers name
  memory :
    ∀ name ∈ used, (∀ x ∈ X, cell x ≠ name) →
      c'.memory name = c.memory name

/-
  The machine comes to a point of the function, with a memory
  that agrees with the store, and has kept what it has to.
-/
structure Arrives
    (N : Numbers F)
    (f : Function)
    (used X : List String)
    (cell : String → String)
    (q : Point)
    (σ : Store F)
    (c c' : Config F) :
    Prop where
  reaches : Reaches N f c c'
  point : c'.point = q
  agrees : c'.Agrees X cell σ
  keeps : c.Keeps used X cell c'

variable {N : Numbers F}
variable {f g : Function}
variable {used used' X : List String}
variable {cell : String → String}
variable {p q : Point}
variable {σ τ : Store F}
variable {c c' c'' : Config F}

theorem Arrives.refl
    (hPoint : c.point = p)
    (hAgrees : c.Agrees X cell σ) :
    Arrives N f used X cell p σ c c where
  reaches := .refl
  point := hPoint
  agrees := hAgrees
  keeps := ⟨fun _ _ => rfl, fun _ _ _ => rfl⟩

/- A run goes the same way in a larger function. -/
theorem Arrives.within
    (hRun : Arrives N f used X cell q σ c c')
    (hWithin : f.Within g) :
    Arrives N g used X cell q σ c c' :=
  { hRun with reaches := hRun.reaches.within hWithin }

/- The second run may be in a larger function, and keep more. -/
theorem Arrives.trans
    (hFirst : Arrives N f used X cell p σ c c')
    (hWithin : f.Within g)
    (hUsed : used ⊆ used')
    (hSecond : Arrives N g used' X cell q τ c' c'') :
    Arrives N g used X cell q τ c c'' where
  reaches := (hFirst.reaches.within hWithin).trans hSecond.reaches
  point := hSecond.point
  agrees := hSecond.agrees
  keeps :=
    { registers := fun name hMem =>
        (hSecond.keeps.registers name (hUsed hMem)).trans
          (hFirst.keeps.registers name hMem)
      memory := fun name hMem hOther =>
        (hSecond.keeps.memory name (hUsed hMem) hOther).trans
          (hFirst.keeps.memory name hMem hOther) }

end Offside.IR.Config

------------------------------------------------------------
-- Single Instructions
------------------------------------------------------------

namespace Offside.IR.Config

variable {F : Type}
variable {N : Numbers F}
variable {f : Function}
variable {p : Point}
variable {i : Instruction}
variable {X : List String}
variable {cell : String → String}
variable {σ : Store F}
variable {c : Config F}

/- A register with a new name is set. -/
theorem arrives_define
    (hFetch : f.fetch p = some i)
    {used : List String}
    (hFree : i.name ∉ used)
    (hPoint : c.point = p)
    (hAgrees : c.Agrees X cell σ)
    {d : Datum F}
    (hExec : exec N f.cells c i = some (c.define i.name d)) :
    Arrives N f used X cell p.next σ c
      (c.define i.name d) where
  reaches := .exec (hPoint ▸ hFetch) hExec
  point := by
    rw [← hPoint]
    rfl
  agrees := hAgrees
  keeps := by
    refine ⟨fun name hMem => ?_, fun _ _ _ => rfl⟩
    apply Function.update_of_ne
    rintro rfl
    exact hFree hMem

/- The cell of a variable is set. -/
theorem arrives_write
    (hFetch : f.fetch p = some i)
    (used : List String)
    (hPoint : c.point = p)
    {x : String}
    (hMem : x ∈ X)
    (hApart : ∀ y ∈ X, cell x = cell y → x = y)
    (hAgrees : ∀ y ∈ X, y ≠ x → σ y = some (c.memory (cell y)))
    {v : F}
    (hExec : exec N f.cells c i = some (c.write (cell x) v)) :
    Arrives N f used X cell p.next
      (Function.update σ x (some v)) c (c.write (cell x) v) where
  reaches := .exec (hPoint ▸ hFetch) hExec
  point := by
    rw [← hPoint]
    rfl
  agrees := by
    intro y hY
    change _ = some (Function.update c.memory (cell x) v (cell y))
    by_cases hSame : y = x
    · rw [hSame, Function.update_self, Function.update_self]
    · have hOther : cell y ≠ cell x := fun hCell =>
        hSame (hApart y hY hCell.symm).symm
      rw [Function.update_of_ne hSame, Function.update_of_ne hOther]
      exact hAgrees y hY hSame
  keeps := by
    refine ⟨fun _ _ => rfl, fun name _ hOther => ?_⟩
    exact Function.update_of_ne (hOther x hMem).symm _ _

/- Another block is entered. -/
theorem arrives_goTo
    (hFetch : f.fetch p = some i)
    (used : List String)
    (hPoint : c.point = p)
    (hAgrees : c.Agrees X cell σ)
    {label : String}
    (hExec : exec N f.cells c i = some (c.goTo label)) :
    Arrives N f used X cell (.start label) σ c
      (c.goTo label) where
  reaches := .exec (hPoint ▸ hFetch) hExec
  point := rfl
  agrees := hAgrees
  keeps := ⟨fun _ _ => rfl, fun _ _ _ => rfl⟩

end Offside.IR.Config

------------------------------------------------------------
-- Code That Follows a Meaning
------------------------------------------------------------

namespace Offside.Emit

open EmitState (Extends)
open IR (Numbers Operand Registers Config)

variable {F α : Type}

/-
  What is known of a result: once code has been placed, by the
  names in use, and once it has run, by the value.
-/
structure Result (F α : Type) where
  fits : List String → α → Prop
  holds : Registers F → α → F → Prop

namespace Result

/- The result is a number. -/
def value
    (N : Numbers F) :
    Result F Operand where
  fits := Operand.Settled
  holds := fun registers operand v =>
    operand.number? N registers = some v

/- The result is not used, but there is one. -/
def effect : Result F Operand where
  fits := fun _ operand => operand.isNothing = false
  holds := fun _ _ _ => True

end Result

/-
  Code has been placed whose runs follow a meaning, whenever the
  meaning comes to an end.
-/
structure Compiled
    (N : Numbers F)
    (R : Result F α)
    (run : Nat → Meaning F)
    (X : List String)
    (cell : String → String)
    (s : EmitState)
    (f : IR.Function)
    (p : IR.Point)
    (out : α)
    (s' : EmitState)
    (f' : IR.Function)
    (q : IR.Point) :
    Prop extends Extends s f p s' f' q where
  fits : R.fits f'.scope.used out
  follows :
    ∀ n σ v τ, run n σ = some (v, τ) →
      ∀ c : Config F, c.point = p → c.Agrees X cell σ →
        ∃ c',
          Config.Arrives N f' f.scope.used X cell q τ c c' ∧
          R.holds c'.registers out v

/-
  Wherever code can be placed, and whatever the cells of its
  free variables are, this step places code that follows the
  meaning.
-/
def Sound
    (N : Numbers F)
    (R : Result F α)
    (m : Emit α)
    (run : Nat → Meaning F)
    (free : List String) :
    Prop :=
  ∀ s f p X cell,
    s.Ready f p → s.Binds f X cell → free ⊆ X →
      ∃ out s' f' q,
        m s = .ok out s' ∧
        Compiled N R run X cell s f p out s' f' q

end Offside.Emit
