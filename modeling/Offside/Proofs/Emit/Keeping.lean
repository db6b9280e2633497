import Mathlib
import Offside.Proofs.Emit.Walk
import Offside.Proofs.IR.Code
import Offside.Proofs.IR.Laying

/-
  What steps of code generation keep: relations between the
  state before and the state after, where a step succeeds and
  where it fails.

  Key definitions include:
    * `Offside.Emit.Keeps`
    * `Offside.Emit.Steady`
    * `Offside.Emit.Structured`

  A relation that the elementary steps keep is kept by every
  form of the language that lays no branches, and by the whole
  walk if branches and loops keep it too.

  Main statements:
    * `Offside.Emit.Steady.atoms`
    * `Offside.Emit.Structured.visit`
-/

------------------------------------------------------------
-- Relations Between States
------------------------------------------------------------

namespace Offside.Emit

variable {α β : Type}

/- Whether a run succeeds, in a state that passes a test. -/
def succeeds
    (m : Emit Unit)
    (s : EmitState)
    (test : EmitState → Bool) :
    Bool :=
  match m s with
  | .ok _ s' => test s'
  | .error _ _ => false

theorem exists_of_succeeds
    (m : Emit Unit)
    (s : EmitState)
    (test : EmitState → Bool)
    (hTest : succeeds m s test = true) :
    ∃ s', m s = .ok () s' ∧ test s' = true := by
  unfold succeeds at hTest
  cases hRun : m s with
  | ok a s' =>
      rw [hRun] at hTest
      exact ⟨s', rfl, hTest⟩
  | error e s' =>
      rw [hRun] at hTest
      cases hTest

/- The result of a comparison is single. -/
theorem compare_isSingle
    {op : IR.Comparison}
    {lhs rhs test : IR.Operand}
    {name : String}
    {s s' : EmitState}
    (hRun : compare op lhs rhs name s = .ok test s') :
    test.isSingle = true := by
  rcases Steps.bind_eq_ok hRun with ⟨_, _, _, hRun₁⟩
  rcases Steps.bind_eq_ok hRun₁ with ⟨_, _, _, hTest⟩
  cases hTest
  rfl

theorem visitAll_length
    {s s' : EmitState}
    {nodes : List Node}
    {values : List IR.Operand}
    (hRun : visitAll nodes s = .ok values s') :
    values.length = nodes.length := by
  induction nodes generalizing values s with
  | nil =>
      cases hRun
      rfl
  | cons node nodes ih =>
      rcases Steps.bind_eq_ok hRun with ⟨value, t, _, hRun₁⟩
      rcases Steps.bind_eq_ok hRun₁ with ⟨rest, u, hRest, hDone⟩
      cases hDone
      rw [List.length_cons, List.length_cons, ih hRest]

/- The value of a block is the list of the values of its nodes. -/
theorem taking_block
    {s s' : EmitState}
    {nodes : List Node}
    {value : IR.Operand}
    (hRun : taking (visit (.block nodes)) s = .ok value s') :
    ∃ values, value = .many values ∧ values.length = nodes.length := by
  rcases Steps.bind_eq_ok hRun with ⟨_, t, hVisit, hPop⟩
  rcases Steps.bind_eq_ok hVisit with ⟨values, u, hAll, hPush⟩
  cases hPush
  cases hPop
  exact ⟨values, rfl, visitAll_length hAll⟩

/- What a run does to a state when it succeeds and when it fails. -/
structure KeepsAt
    (R E : EmitState → EmitState → Prop)
    (m : Emit α)
    (s : EmitState) :
    Prop where
  ok : ∀ a s', m s = .ok a s' → R s s'
  fail : ∀ e s', m s = .error e s' → E s s'

/- The same for every state. -/
def Keeps
    (R E : EmitState → EmitState → Prop)
    (m : Emit α) :
    Prop :=
  ∀ s, KeepsAt R E m s

/- Relations that are kept along sequences of steps. -/
structure Sequential
    (R E : EmitState → EmitState → Prop) :
    Prop where
  refl : ∀ s, R s s
  trans : ∀ {s t u}, R s t → R t u → R s u
  fails : ∀ s, E s s
  after : ∀ {s t u}, R s t → E t u → E s u

namespace Sequential

variable {R E : EmitState → EmitState → Prop}
variable (hR : Sequential R E)
variable {m : Emit α}
variable {s : EmitState}

include hR

theorem pure
    (a : α) :
    Keeps R E (Pure.pure a : Emit α) := by
  intro s
  constructor
  · intro b s' hRun
    cases hRun
    exact hR.refl s
  · intro e s' hRun
    cases hRun

theorem throw
    (e : EmitError) :
    Keeps R E (MonadExcept.throw e : Emit α) := by
  intro s
  constructor
  · intro a s' hRun
    cases hRun
  · intro e' s' hRun
    cases hRun
    exact hR.fails s

theorem get :
    Keeps R E (MonadState.get : Emit EmitState) := by
  intro s
  constructor
  · intro b s' hRun
    cases hRun
    exact hR.refl s
  · intro e s' hRun
    cases hRun

omit hR in
/- A change that the relation allows. -/
theorem changing
    {change : EmitState → EmitState}
    (hChange : ∀ s, R s (change s)) :
    Keeps R E (modify change : Emit Unit) := by
  intro s
  constructor
  · intro b s' hRun
    cases hRun
    exact hChange s
  · intro e s' hRun
    cases hRun

/- What comes second may use what came first. -/
theorem bindAt
    {k : α → Emit β}
    (hFirst : KeepsAt R E m s)
    (hSecond : ∀ a t, m s = .ok a t → KeepsAt R E (k a) t) :
    KeepsAt R E (m >>= k) s := by
  constructor
  · intro b s' hRun
    rcases Steps.bind_eq_ok hRun with ⟨a, t, hRun₁, hRun₂⟩
    exact hR.trans (hFirst.ok a t hRun₁)
      ((hSecond a t hRun₁).ok b s' hRun₂)
  · intro e s' hRun
    rcases Steps.bind_eq_error hRun with hRun₁ | ⟨a, t, hRun₁, hRun₂⟩
    · exact hFirst.fail e s' hRun₁
    · exact hR.after (hFirst.ok a t hRun₁)
        ((hSecond a t hRun₁).fail e s' hRun₂)

theorem bind
    {k : α → Emit β}
    (hFirst : Keeps R E m)
    (hSecond : ∀ a, Keeps R E (k a)) :
    Keeps R E (m >>= k) :=
  fun s => hR.bindAt (hFirst s) fun a t _ => hSecond a t

theorem part
    (found : Option α) :
    Keeps R E (Emit.part found) := by
  cases found with
  | none => exact hR.throw _
  | some a => exact hR.pure a

theorem target
    (access : Access)
    (address : IR.Operand) :
    Keeps R E (Emit.target access address) := by
  refine hR.bind (hR.part _) fun type => ?_
  split
  · exact hR.pure _
  · exact hR.throw _

theorem address?
    (name : String) :
    Keeps R E (Emit.address? name) :=
  hR.bind hR.get fun _ => hR.pure _

theorem function?
    (name : String) :
    Keeps R E (Emit.function? name) :=
  hR.bind hR.get fun _ => hR.pure _

theorem pop
    (hStack : ∀ s values, R s { s with generator.stack := values }) :
    Keeps R E Emit.pop := by
  intro s
  unfold Emit.pop
  constructor
  · intro a s' hRun
    split at hRun
    · cases hRun
    · cases hRun
      exact hStack s _
  · intro e s' hRun
    split at hRun
    · cases hRun
      exact hR.fails s
    · cases hRun

/- With changes of the stack and of what is printed. -/
theorem basic
    (hStack : ∀ s values, R s { s with generator.stack := values })
    (hPrinted : ∀ s text, R s { s with printed := text }) :
    Basic fun _ m => Keeps R E m where
  pure := hR.pure
  throw := hR.throw
  bind := hR.bind
  push := fun _ => changing fun s => hStack s _
  pop := hR.pop hStack
  print := fun _ => changing fun s => hPrinted s _

end Sequential

end Offside.Emit

------------------------------------------------------------
-- Elementary Steps
------------------------------------------------------------

namespace Offside.Emit

/-
  Relations that are kept by all changes of the stack and of
  what is printed, by instructions that end no block and pick no
  value, and by declarations.  An instruction is placed after it
  was checked, and it works on the memory of a variable.
-/
structure Steady
    (R E : EmitState → EmitState → Prop) :
    Prop extends Sequential R E where
  stack : ∀ s values, R s { s with generator.stack := values }
  printed : ∀ s text, R s { s with printed := text }
  place :
    ∀ {hint op}, op.isTerminator = false → op.isPhi = false →
      op.isChecked = true → op.pointer? = none →
        Keeps R E (place hint op)
  access :
    ∀ {s name address hint op}, s.bindings.get? name = some address →
      op.isChecked = true → op.pointer? = some address →
        KeepsAt R E (Emit.place hint op) s
  declare : ∀ {proto}, Keeps R E (declareFunction proto)

namespace Steady

variable {R E : EmitState → EmitState → Prop}
variable (hR : Steady R E)

include hR

theorem basic :
    Basic fun _ m => Keeps R E m :=
  hR.toSequential.basic hR.stack hR.printed

end Steady

end Offside.Emit

------------------------------------------------------------
-- Instructions
------------------------------------------------------------

namespace Offside.Emit.Steady

variable {R E : EmitState → EmitState → Prop}
variable (hR : Steady R E)

include hR

/- Reads the memory of a variable. -/
theorem load
    {s : EmitState}
    {name : String}
    {address : IR.Operand}
    (hBound : s.bindings.get? name = some address)
    (hint : String) :
    KeepsAt R E (Emit.load address hint) s := by
  apply hR.bindAt (hR.target _ _ s)
  intro type t hTarget
  rcases target_eq_ok hTarget with ⟨hType, rfl⟩
  exact hR.bindAt
    (hR.access hBound (IR.Op.isChecked_load hType) rfl)
    fun _ u _ => hR.pure _ u

/- Writes the memory of a variable. -/
theorem store
    {s : EmitState}
    {name : String}
    {address : IR.Operand}
    (hBound : s.bindings.get? name = some address)
    (value : IR.Operand) :
    KeepsAt R E (Emit.store value address) s := by
  apply hR.bindAt (hR.target _ _ s)
  intro type t hTarget
  rcases target_eq_ok hTarget with ⟨hPointer, rfl⟩
  apply hR.bindAt (hR.part _ t)
  intro valueType u hPart
  rcases part_eq_ok hPart with ⟨hValue, rfl⟩
  have hPlace : KeepsAt R E
      (do let _ ← Emit.place "" (.store value address)) u :=
    hR.bindAt
      (hR.access hBound (IR.Op.isChecked_store hValue hPointer) rfl)
      fun _ v _ => hR.pure _ v
  split
  · exact hPlace
  · exact hR.bindAt (hR.throw _ u) nofun

theorem arithmetic
    (op : IR.Arithmetic)
    (lhs rhs : IR.Operand)
    (name : String) :
    Keeps R E (Emit.arithmetic op lhs rhs name) := by
  intro s
  apply hR.bindAt (hR.part _ s)
  intro lhsType t hPart
  rcases part_eq_ok hPart with ⟨hLhs, rfl⟩
  apply hR.bindAt (hR.part _ t)
  intro rhsType u hPart'
  rcases part_eq_ok hPart' with ⟨hRhs, rfl⟩
  split
  · rename_i hSame
    subst hSame
    exact hR.bind
      (hR.place rfl rfl (IR.Op.isChecked_arithmetic op hLhs hRhs) rfl)
      (fun _ => hR.pure _) u
  · exact hR.bindAt (hR.throw _ u) nofun

theorem compare
    (op : IR.Comparison)
    (lhs rhs : IR.Operand)
    (name : String) :
    Keeps R E (Emit.compare op lhs rhs name) := by
  intro s
  apply hR.bindAt (hR.part _ s)
  intro lhsType t hPart
  rcases part_eq_ok hPart with ⟨hLhs, rfl⟩
  refine hR.bind (hR.place rfl rfl ?_ rfl) (fun _ => hR.pure _) t
  simp [IR.Op.isChecked, IR.Operand.isSingle, hLhs]

theorem toFloat
    {value : IR.Operand}
    (hSingle : value.isSingle = true)
    (name : String) :
    Keeps R E (Emit.toFloat value name) := by
  refine hR.bind (hR.place rfl rfl ?_ rfl) fun _ => hR.pure _
  simp [IR.Op.isChecked, IR.Op.isSound, IR.Op.operands,
    IR.Op.hasEqualTypes, hSingle]

theorem checkArguments
    (index : Nat)
    (types : List IR.Ty)
    (args : List IR.Operand) :
    Keeps R E (Emit.checkArguments index types args) := by
  induction types generalizing index args with
  | nil => exact hR.pure ()
  | cons type types ih =>
      cases args with
      | nil => exact hR.throw _
      | cons arg args =>
          apply hR.bind (hR.part _)
          intro found
          split
          · exact ih (index + 1) args
          · exact hR.bind (hR.throw _) fun _ => ih (index + 1) args

omit hR in
/- Arguments that were checked are single. -/
theorem checkArguments_isSingle
    {index : Nat}
    {types : List IR.Ty}
    {args : List IR.Operand}
    {s s' : EmitState}
    (hRun : Emit.checkArguments index types args s = .ok () s') :
    (args.take types.length).all IR.Operand.isSingle = true := by
  induction types generalizing index args s with
  | nil => rfl
  | cons type types ih =>
      cases args with
      | nil => rfl
      | cons arg args =>
          rcases Steps.bind_eq_ok hRun with ⟨found, t, hPart, hRest⟩
          rcases part_eq_ok hPart with ⟨hFound, rfl⟩
          split at hRest
          · rw [List.length_cons, List.take_succ_cons, List.all_cons,
              ih hRest, IR.Operand.isSingle, hFound]
            rfl
          · cases hRest

theorem call
    (function : IR.Operand)
    (args : List IR.Operand)
    (name : String) :
    Keeps R E (Emit.call function args name) := by
  cases function with
  | function signature callee =>
      intro s
      apply hR.bindAt (hR.checkArguments 1 _ _ s)
      intro _ t hCheck
      have hSingle := checkArguments_isSingle hCheck
      rw [IR.Signature.params, List.length_replicate] at hSingle
      refine hR.bind (hR.place rfl rfl ?_ rfl) (fun _ => hR.pure _) t
      exact hSingle
  | const type value => exact hR.throw _
  | register type name => exact hR.throw _
  | many items => exact hR.throw _

end Offside.Emit.Steady

------------------------------------------------------------
-- Forms of the Language
------------------------------------------------------------

namespace Offside.Emit.Steady

variable {R E : EmitState → EmitState → Prop}
variable (hR : Steady R E)

include hR

theorem reading
    (name : Value) :
    Keeps R E (Emit.reading name) := by
  intro s
  apply hR.bindAt (hR.address? _ s)
  intro found t hFound
  cases hFound
  split
  · exact hR.throw _ s
  · rename_i address hBound
    exact hR.bindAt (hR.load hBound _) fun _ t _ => hR.basic.push _ t

theorem assigned
    (name : String)
    (value : IR.Operand) :
    Keeps R E (Emit.assigned name value) := by
  intro s
  apply hR.bindAt (hR.address? _ s)
  intro found t hFound
  cases hFound
  split
  · exact hR.throw _ s
  · rename_i address hBound
    exact hR.bindAt (hR.store hBound _) fun _ t _ => hR.basic.push _ t

theorem getFunction
    (name : String) :
    Keeps R E (Emit.getFunction name) := by
  have hGiven : Keeps R E (resolved name) := by
    apply hR.bind hR.get
    intro s
    split
    · exact hR.bind (hR.function? _) fun _ => hR.pure _
    · exact hR.pure _
  apply hR.bind (hR.function? _)
  intro found
  cases found with
  | some f => exact hR.bind (hR.basic.push _) fun _ => hGiven
  | none =>
      apply hR.bind hR.get
      intro s
      split
      · exact hR.bind (hR.reading _) fun _ => hGiven
      · exact hR.bind (hR.basic.discard hR.declare) fun _ => hGiven
      · exact hR.pure _

theorem comparison
    (op : IR.Comparison)
    (lhs rhs : IR.Operand)
    (name : String) :
    Keeps R E (Emit.comparison op lhs rhs name) := by
  intro s
  apply hR.bindAt (hR.compare _ _ _ _ s)
  intro test t hCompare
  exact hR.toFloat (compare_isSingle hCompare) _ t

/- The steps that keep the relation make up all plain forms. -/
theorem atoms
    (X : String → Prop) :
    Atoms X fun _ m => Keeps R E m where
  toBasic := hR.basic
  reading := fun name _ => hR.reading name
  assigned := fun name value _ => hR.assigned name value
  getFunction := hR.getFunction
  declare := fun _ => hR.declare
  arithmetic := hR.arithmetic
  comparison := hR.comparison
  call := hR.call

end Offside.Emit.Steady

------------------------------------------------------------
-- The Walk
------------------------------------------------------------

namespace Offside.Emit

/- A steady relation that branches and loops keep with their parts. -/
structure Structured
    (R E : EmitState → EmitState → Prop) :
    Prop extends Steady R E where
  conditional :
    ∀ {cond yes no}, Keeps R E cond → Keeps R E yes → Keeps R E no →
      Keeps R E (conditional cond yes no)
  repetition :
    ∀ {counter hasStep first last step body},
      Keeps R E first → Keeps R E last → Keeps R E step → Keeps R E body →
        Keeps R E (repetition counter hasStep first last step body)

/- Every visit that stays in one function keeps such a relation. -/
theorem Structured.visit
    {R E : EmitState → EmitState → Prop}
    (hR : Structured R E)
    {node : Node}
    (hLocal : node.IsLocal) :
    Keeps R E (visit node) := by
  have hWalks : Walks fun _ _ m => Keeps R E m :=
    { atoms := hR.atoms
      conditional := hR.conditional
      repetition := hR.repetition }
  exact hWalks.visit hLocal (X := fun _ => True) fun _ _ => trivial

end Offside.Emit
