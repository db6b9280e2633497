import Mathlib
import Offside.Node.Basic
import Offside.Proofs.IR.Machine

/-
  The meaning of nodes that have a value: an interpreter, which
  takes the parts of a node from left to right.

  Key definitions include:
    * `Offside.Store`
    * `Offside.Node.IsValue`
    * `Offside.Node.free`
    * `Offside.Node.interpret`

  A loop need not come to an end.  The interpreter is therefore
  given a number of rounds that no loop may exceed; a node has a
  meaning when some number is enough.
-/

------------------------------------------------------------
-- Meanings
------------------------------------------------------------

namespace Offside

/- Variables and their values. -/
abbrev Store (F : Type) := String → Option F

/- From one store to a value and another store, if at all. -/
abbrev Meaning (F : Type) := Store F → Option (F × Store F)

/- The operators, by their signs. -/
def IR.Numbers.operator?
    {F : Type}
    (N : IR.Numbers F) :
    String →
    Option (F → F → F)
  | "+" => some N.add
  | "-" => some N.sub
  | "*" => some N.mul
  | "<" => some fun x y => N.ofBool (N.less x y)
  | ">" => some fun x y => N.ofBool (N.greater x y)
  | _ => none

namespace Meaning

variable {F : Type}
variable (N : IR.Numbers F)

/- A value that is given. -/
def constant
    (v : F) :
    Meaning F :=
  fun σ => some (v, σ)

/- The value of a variable. -/
def reading
    (x : String) :
    Meaning F :=
  fun σ => do
    let v ← σ x
    return (v, σ)

/- An assignment has the value that is assigned. -/
def assignment
    (x : String)
    (rhs : Meaning F) :
    Meaning F :=
  fun σ => do
    let (v, σ) ← rhs σ
    return (v, Function.update σ x (some v))

/- One after another, with the value of the second. -/
def sequence
    (m k : Meaning F) :
    Meaning F :=
  fun σ => do
    let (_, σ) ← m σ
    k σ

/- An operator between its operands. -/
def operation
    (op : String)
    (lhs rhs : Meaning F) :
    Meaning F :=
  fun σ => do
    let (x, σ) ← lhs σ
    let (y, σ) ← rhs σ
    let apply ← N.operator? op
    return (apply x y, σ)

/- One of two, by whether the condition is a number but zero. -/
def conditional
    (cond yes no : Meaning F) :
    Meaning F :=
  fun σ => do
    let (x, σ) ← cond σ
    if N.differ x N.zero then yes σ else no σ

/-
  The rounds of a loop: body, step and end, and the counter
  moves on, for as long as the end is a number but zero.
-/
def rounds
    (x : String)
    (last step body : Meaning F) :
    Nat →
    Store F →
    Option (Store F)
  | 0, _ => none
  | n + 1, σ => do
      let (_, σ) ← body σ
      let (d, σ) ← step σ
      let (e, σ) ← last σ
      let v ← σ x
      let σ := Function.update σ x (some (N.add v d))
      if N.differ e N.zero then rounds x last step body n σ
      else return σ

/-
  A loop has the value zero.  Its counter is one of its own,
  which the first value does not see.
-/
def loop
    (n : Nat)
    (x : String)
    (first last step body : Meaning F) :
    Meaning F :=
  fun σ => do
    let (v, σ) ← first σ
    let σ' ←
      rounds N x last step body n (Function.update σ x (some v))
    return (N.zero, Function.update σ' x (σ x))

end Meaning

end Offside

------------------------------------------------------------
-- Meanings That Come to an End
------------------------------------------------------------

namespace Offside.Meaning

variable {F : Type}
variable {N : IR.Numbers F}
variable {σ τ : Store F}
variable {v : F}

theorem reading_eq_some
    {x : String}
    (hRun : reading x σ = some (v, τ)) :
    σ x = some v ∧ τ = σ := by
  rcases Option.bind_eq_some_iff.mp hRun with ⟨w, hStore, hPair⟩
  cases hPair
  exact ⟨hStore, rfl⟩

theorem assignment_eq_some
    {x : String}
    {rhs : Meaning F}
    (hRun : assignment x rhs σ = some (v, τ)) :
    ∃ σ₁,
      rhs σ = some (v, σ₁) ∧ τ = Function.update σ₁ x (some v) := by
  rcases Option.bind_eq_some_iff.mp hRun with ⟨⟨w, σ₁⟩, hRhs, hPair⟩
  cases hPair
  exact ⟨σ₁, hRhs, rfl⟩

theorem sequence_eq_some
    {m k : Meaning F}
    (hRun : sequence m k σ = some (v, τ)) :
    ∃ w σ₁, m σ = some (w, σ₁) ∧ k σ₁ = some (v, τ) := by
  rcases Option.bind_eq_some_iff.mp hRun with
    ⟨⟨w, σ₁⟩, hFirst, hSecond⟩
  exact ⟨w, σ₁, hFirst, hSecond⟩

theorem operation_eq_some
    {op : String}
    {lhs rhs : Meaning F}
    (hRun : operation N op lhs rhs σ = some (v, τ)) :
    ∃ x σ₁ y apply,
      lhs σ = some (x, σ₁) ∧
      rhs σ₁ = some (y, τ) ∧
      N.operator? op = some apply ∧
      v = apply x y := by
  rcases Option.bind_eq_some_iff.mp hRun with ⟨⟨x, σ₁⟩, hLhs, hRun⟩
  rcases Option.bind_eq_some_iff.mp hRun with ⟨⟨y, σ₂⟩, hRhs, hRun⟩
  rcases Option.bind_eq_some_iff.mp hRun with ⟨apply, hApply, hPair⟩
  cases hPair
  exact ⟨x, σ₁, y, apply, hLhs, hRhs, hApply, rfl⟩

theorem conditional_eq_some
    {cond yes no : Meaning F}
    (hRun : conditional N cond yes no σ = some (v, τ)) :
    ∃ x σ₁,
      cond σ = some (x, σ₁) ∧
      (if N.differ x N.zero then yes else no) σ₁ = some (v, τ) := by
  rcases Option.bind_eq_some_iff.mp hRun with ⟨⟨x, σ₁⟩, hCond, hRun⟩
  refine ⟨x, σ₁, hCond, ?_⟩
  split_ifs with hTest
  · simpa [hTest] using hRun
  · simpa [hTest] using hRun

theorem rounds_eq_some
    {x : String}
    {last step body : Meaning F}
    {n : Nat}
    (hRun : rounds N x last step body (n + 1) σ = some τ) :
    ∃ w σ₁ d σ₂ e σ₃ y,
      body σ = some (w, σ₁) ∧
      step σ₁ = some (d, σ₂) ∧
      last σ₂ = some (e, σ₃) ∧
      σ₃ x = some y ∧
      (if N.differ e N.zero then rounds N x last step body n
        else some) (Function.update σ₃ x (some (N.add y d))) =
          some τ := by
  rcases Option.bind_eq_some_iff.mp hRun with ⟨⟨w, σ₁⟩, hBody, hRun⟩
  rcases Option.bind_eq_some_iff.mp hRun with ⟨⟨d, σ₂⟩, hStep, hRun⟩
  rcases Option.bind_eq_some_iff.mp hRun with ⟨⟨e, σ₃⟩, hLast, hRun⟩
  rcases Option.bind_eq_some_iff.mp hRun with ⟨y, hCounter, hRun⟩
  refine ⟨w, σ₁, d, σ₂, e, σ₃, y, hBody, hStep, hLast, hCounter, ?_⟩
  split_ifs with hTest
  · simpa [hTest] using hRun
  · simpa [hTest] using hRun

theorem loop_eq_some
    {n : Nat}
    {x : String}
    {first last step body : Meaning F}
    (hRun : loop N n x first last step body σ = some (v, τ)) :
    ∃ y σ₁ σ₂,
      first σ = some (y, σ₁) ∧
      rounds N x last step body n
        (Function.update σ₁ x (some y)) = some σ₂ ∧
      v = N.zero ∧
      τ = Function.update σ₂ x (σ₁ x) := by
  rcases Option.bind_eq_some_iff.mp hRun with
    ⟨⟨y, σ₁⟩, hFirst, hRun⟩
  rcases Option.bind_eq_some_iff.mp hRun with ⟨σ₂, hRounds, hPair⟩
  cases hPair
  exact ⟨y, σ₁, σ₂, hFirst, hRounds, rfl, rfl⟩

end Offside.Meaning

------------------------------------------------------------
-- Nodes With a Value
------------------------------------------------------------

namespace Offside.Node

/- The signs of the operators between values. -/
def operators : List String := ["+", "-", "*", "<", ">"]

/-
  The nodes that have a value: numbers, variables, operations,
  assignments, conditions and loops.  Blocks are only found as
  the bodies of loops.
-/
inductive IsValue : Node → Prop
  | float (x : Binary64) :
      IsValue (.float (.amount (.real x)))
  | reference (x type : String) (location : Location) :
      IsValue (.reference (.text x) type location)
  | operation
      {op : String} {lhs rhs : Node} (location : Location)
      (hOp : op ∈ operators)
      (hLhs : IsValue lhs)
      (hRhs : IsValue rhs) :
      IsValue (.binary (.text op) lhs rhs location)
  | assignment
      {rhs : Node} (x type : String) (inner location : Location)
      (hRhs : IsValue rhs) :
      IsValue
        (.binary (.text "=") (.reference (.text x) type inner) rhs
          location)
  | branch
      {cond yes no : Node} (location : Location)
      (hCond : IsValue cond)
      (hYes : IsValue yes)
      (hNo : IsValue no) :
      IsValue (.branch cond yes no location)
  | loop
      {first last step body : Node} (x : String)
      (hFirst : IsValue first)
      (hLast : IsValue last)
      (hStep : IsValue step)
      (hBody : IsValue body) :
      IsValue (.loop (.text x) first last step body)
  | loopBlock
      {first last step : Node} {nodes : List Node} (x : String)
      (hFirst : IsValue first)
      (hLast : IsValue last)
      (hStep : IsValue step)
      (hSome : nodes ≠ [])
      (hNodes : ∀ node ∈ nodes, IsValue node) :
      IsValue (.loop (.text x) first last step (.block nodes))

mutual

/- The variables that a node reads or assigns from outside. -/
def free :
    Node →
    List String
  | .reference name _ _ => [name.shown]
  | .binary _ lhs rhs _ => lhs.free ++ rhs.free
  | .branch cond yes no _ => cond.free ++ (yes.free ++ no.free)
  | .loop counter first last step body =>
      first.free ++
        (body.free ++ (step.free ++ last.free)).filter
          fun x => x ≠ counter.shown
  | .block nodes => freeAll nodes
  | _ => []

/- The same for several nodes. -/
def freeAll :
    List Node →
    List String
  | [] => []
  | node :: nodes => node.free ++ freeAll nodes

end

variable {F : Type}

mutual

/- The meaning of a node, where no loop has more than `n` rounds. -/
def interpret
    (N : IR.Numbers F)
    (n : Nat) :
    Node →
    Meaning F
  | .float (.amount (.real x)) => Meaning.constant (N.literal x)
  | .reference (.text x) _ _ => Meaning.reading x
  | .binary (.text "=") (.reference (.text x) _ _) rhs _ =>
      Meaning.assignment x (interpret N n rhs)
  | .binary (.text op) lhs rhs _ =>
      Meaning.operation N op (interpret N n lhs) (interpret N n rhs)
  | .branch cond yes no _ =>
      Meaning.conditional N (interpret N n cond) (interpret N n yes)
        (interpret N n no)
  | .loop (.text x) first last step body =>
      Meaning.loop N n x (interpret N n first) (interpret N n last)
        (interpret N n step) (interpret N n body)
  | .block nodes => interpretAll N n nodes
  | _ => fun _ => none

/- Nodes one after another; their values are not used. -/
def interpretAll
    (N : IR.Numbers F)
    (n : Nat) :
    List Node →
    Meaning F
  | [] => Meaning.constant N.zero
  | node :: nodes =>
      Meaning.sequence (interpret N n node) (interpretAll N n nodes)

end

/- An operator has a meaning of its own, which is no assignment. -/
theorem interpret_operation
    (N : IR.Numbers F)
    (n : Nat)
    {op : String}
    (hOp : op ∈ operators)
    (lhs rhs : Node)
    (location : Location) :
    interpret N n (.binary (.text op) lhs rhs location) =
      Meaning.operation N op (interpret N n lhs)
        (interpret N n rhs) := by
  have hAssign : op ≠ "=" := by
    rintro rfl
    exact absurd hOp (by decide)
  rw [interpret]
  intro x type inner _
  exact hAssign

end Offside.Node
