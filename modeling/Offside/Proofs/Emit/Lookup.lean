import Mathlib
import Offside.Proofs.Emit.Frame

/-
  Variables that a visit cannot do without: where such a variable
  is not bound the visit fails.

  Key definitions include:
    * `Offside.Node.isValued`
    * `Offside.Node.Reads`
    * `Offside.Node.Abandons`
    * `Offside.Emit.Fixed`
    * `Offside.Emit.Needs`

  Main statements:
    * `Offside.Emit.visit_fixed`: a visit leaves a variable as it
      was, unless a loop that counts with it is left early.
    * `Offside.Emit.visit_needs`: a visit fails where a variable
      that it reads is not bound.
-/

------------------------------------------------------------
-- Variables That Are Read
------------------------------------------------------------

namespace Offside.Node

/-
  Whether a visit leaves a value of the node, and not that of an
  empty block.  A loop has a value if its parts have.
-/
def isValued :
    Node →
    Bool
  | float _ | reference .. | unary .. | binary .. | call .. => true
  | branch .. => true
  | loop _ _ last step body =>
      body.isValued && (!step.isPresent || step.isValued)
        && last.isValued
  | block nodes => !nodes.isEmpty
  | _ => false

/- The same for the step of a loop, which may be left out. -/
def isAmount
    (step : Node) :
    Bool :=
  !step.isPresent || step.isValued

/- Whether code for a loop is generated to its end. -/
def isFinished
    (last step body : Node) :
    Bool :=
  body.isValued && step.isAmount && last.isValued

theorem isValued_of_isAmount
    {step : Node}
    (hAmount : step.isAmount = true)
    (hPresent : step.isPresent = true) :
    step.isValued = true := by
  unfold isAmount at hAmount
  rwa [hPresent] at hAmount

theorem isFinished_iff
    {last step body : Node} :
    isFinished last step body = true ↔
      body.isValued = true ∧ step.isAmount = true ∧
        last.isValued = true := by
  simp only [isFinished, Bool.and_eq_true, and_assoc]

/- A loop has a value just where code is generated to its end. -/
theorem isValued_loop
    (counter : Value)
    (first last step body : Node) :
    (loop counter first last step body).isValued =
      isFinished last step body := by
  rw [isValued]
  rfl

example (i j : Value) :
    (loop i one one absent (loop j one one absent one)).isValued =
      true :=
  rfl

/-
  A loop counts with the variable, and generation may leave it
  early.
-/
def Abandons
    (x : String)
    (node : Node) :
    Prop :=
  ∃ counter first last step body,
    counter.shown = x ∧
    Relation.ReflTransGen Part (.loop counter first last step body) node ∧
    isFinished last step body = false

/- A node in one function, all of whose loops with it are finished. -/
structure Spares
    (x : String)
    (node : Node) :
    Prop where
  isLocal : node.IsLocal
  finished : ¬node.Abandons x

theorem Spares.part
    {x : String}
    {child node : Node}
    (hSpares : Spares x node)
    (hPart : Part child node) :
    Spares x child := by
  refine ⟨hSpares.isLocal.part hPart, ?_⟩
  rintro ⟨counter, first, last, step, body, hCounter, hInner, hEarly⟩
  exact hSpares.finished ⟨counter, first, last, step, body, hCounter,
    hInner.tail hPart, hEarly⟩

/-
  A variable is read or assigned, outside of loops that count
  with it, in a part that generation does not pass over.
-/
inductive Reads
    (x : String) :
    Node →
    Prop
  | reference
      {name : Value} (type : String) (location : Location)
      (hName : name.shown = x) :
      Reads x (.reference name type location)
  | unary
      (op : Value) {operand : Node}
      (hOperand : Reads x operand) :
      Reads x (.unary op operand)
  | lhs
      (op : Value) {lhs : Node} (rhs : Node) (location : Location)
      (hLhs : Reads x lhs) :
      Reads x (.binary op lhs rhs location)
  | rhs
      (op : Value) (lhs : Node) {rhs : Node} (location : Location)
      (hRhs : Reads x rhs) :
      Reads x (.binary op lhs rhs location)
  | call
      (callee : Value) {args : List Node} (location : Location)
      {arg : Node}
      (hMem : arg ∈ args)
      (hArg : Reads x arg) :
      Reads x (.call callee args location)
  | cond
      {cond : Node} (yes no : Node) (location : Location)
      (hCond : Reads x cond) :
      Reads x (.branch cond yes no location)
  | yes
      (cond : Node) {yes : Node} (no : Node) (location : Location)
      (hYes : Reads x yes) :
      Reads x (.branch cond yes no location)
  | no
      (cond yes : Node) {no : Node} (location : Location)
      (hNo : Reads x no) :
      Reads x (.branch cond yes no location)
  | first
      (counter : Value) {first : Node} (last step body : Node)
      (hFirst : Reads x first) :
      Reads x (.loop counter first last step body)
  | body
      {counter : Value} (first last step : Node) {body : Node}
      (hOther : x ≠ counter.shown)
      (hBody : Reads x body) :
      Reads x (.loop counter first last step body)
  | step
      {counter : Value} (first last : Node) {step body : Node}
      (hOther : x ≠ counter.shown)
      (hValue : body.isValued = true)
      (hPresent : step.isPresent = true)
      (hStep : Reads x step) :
      Reads x (.loop counter first last step body)
  | last
      {counter : Value} (first : Node) {last step body : Node}
      (hOther : x ≠ counter.shown)
      (hValue : body.isValued = true)
      (hAmount : step.isAmount = true)
      (hLast : Reads x last) :
      Reads x (.loop counter first last step body)
  | block
      {nodes : List Node} {node : Node}
      (hMem : node ∈ nodes)
      (hNode : Reads x node) :
      Reads x (.block nodes)

end Offside.Node

------------------------------------------------------------
-- Values That Are Left
------------------------------------------------------------

namespace Offside.Emit

variable {s s' : EmitState}
variable {α : Type}

/- The result of an instruction is a value. -/
theorem load_value
    {pointer value : IR.Operand}
    {hint : String}
    (hRun : load pointer hint s = .ok value s') :
    value.isNothing = false := by
  rcases load_eq_ok hRun with ⟨type, name, _, _, rfl⟩
  rfl

theorem call_value
    {function value : IR.Operand}
    {args : List IR.Operand}
    {hint : String}
    (hRun : call function args hint s = .ok value s') :
    value.isNothing = false := by
  cases function with
  | function signature callee =>
      rcases Steps.bind_eq_ok hRun with ⟨_, _, _, hRun₁⟩
      rcases Steps.bind_eq_ok hRun₁ with ⟨_, _, _, hDone⟩
      cases hDone
      rfl
  | const type value => cases hRun
  | register type name => cases hRun
  | many items => cases hRun

theorem arithmetic_value
    {op : IR.Arithmetic}
    {lhs rhs value : IR.Operand}
    {hint : String}
    (hRun : arithmetic op lhs rhs hint s = .ok value s') :
    value.isNothing = false := by
  rcases Steps.bind_eq_ok hRun with ⟨_, _, _, hRun₁⟩
  rcases Steps.bind_eq_ok hRun₁ with ⟨_, _, _, hRun₂⟩
  split at hRun₂
  · rcases Steps.bind_eq_ok hRun₂ with ⟨_, _, _, hDone⟩
    cases hDone
    rfl
  · cases hRun₂

theorem comparison_value
    {op : IR.Comparison}
    {lhs rhs value : IR.Operand}
    {hint : String}
    (hRun : comparison op lhs rhs hint s = .ok value s') :
    value.isNothing = false := by
  rcases Steps.bind_eq_ok hRun with ⟨_, _, _, hRun₁⟩
  rcases Steps.bind_eq_ok hRun₁ with ⟨_, _, _, hDone⟩
  cases hDone
  rfl

theorem operation_value
    {op : String}
    {lhs rhs value : IR.Operand}
    (hRun : operation op lhs rhs s = .ok value s') :
    value.isNothing = false := by
  unfold operation at hRun
  split at hRun
  · exact arithmetic_value hRun
  · exact arithmetic_value hRun
  · exact arithmetic_value hRun
  · exact comparison_value hRun
  · exact comparison_value hRun
  · rcases Steps.bind_eq_ok hRun with ⟨found, _, _, hRun₁⟩
    cases found with
    | none => cases hRun₁
    | some f => exact call_value hRun₁

theorem takingValue_value
    {visit : Emit Unit}
    {cause : Invalid}
    {value : IR.Operand}
    (hRun : takingValue visit cause s = .ok value s') :
    value.isNothing = false := by
  rcases Steps.bind_eq_ok hRun with ⟨taken, _, _, hRun₁⟩
  split at hRun₁
  · cases hRun₁
  · rename_i hValue
    cases hRun₁
    exact Bool.eq_false_iff.mpr hValue

/- A step that leaves a value. -/
def Leaves
    (m : Emit Unit) :
    Prop :=
  ∀ s s', m s = .ok () s' →
    ∃ value t, s' = EmitState.pushed t value ∧ value.isNothing = false

theorem Leaves.push
    {value : IR.Operand}
    (hValue : value.isNothing = false) :
    Leaves (push value) := by
  intro s s' hRun
  cases hRun
  exact ⟨value, s, rfl, hValue⟩

theorem Leaves.throw
    (e : EmitError) :
    Leaves (MonadExcept.throw e) := by
  intro s s' hRun
  cases hRun

theorem Leaves.bind
    {m : Emit α}
    {k : α → Emit Unit}
    (hLast : ∀ s a s', m s = .ok a s' → Leaves (k a)) :
    Leaves (m >>= k) := by
  intro s s' hRun
  rcases Steps.bind_eq_ok hRun with ⟨a, t, hFirst, hRest⟩
  exact hLast s a t hFirst t s' hRest

theorem Leaves.taking
    {m : Emit Unit}
    (hLeaves : Leaves m)
    {value : IR.Operand}
    (hRun : taking m s = .ok value s') :
    value.isNothing = false := by
  rcases Steps.bind_eq_ok hRun with ⟨_, t, hVisit, hPop⟩
  rcases hLeaves s t hVisit with ⟨value', t', rfl, hValue⟩
  cases hPop
  exact hValue

/- The step of a loop has a value, also where it is left out. -/
theorem amount_value
    {hasStep : Bool}
    {step : Emit Unit}
    (hStep : hasStep = true → Leaves step)
    {value : IR.Operand}
    (hRun :
      (if hasStep then taking step
        else return IR.Operand.const .float Binary64.one) s =
          .ok value s') :
    value.isNothing = false := by
  split at hRun
  · rename_i hPresent
    exact (hStep hPresent).taking hRun
  · cases hRun
    rfl

/- What is generated in a loop whose parts leave values is all. -/
theorem turning_all
    {counter loopLabel : String}
    {hasStep : Bool}
    {last step body : Emit Unit}
    (hBody : Leaves body)
    (hStep : hasStep = true → Leaves step)
    (hLast : Leaves last)
    {address : IR.Operand}
    {all : Bool}
    (hRun :
      turning counter hasStep last step body address loopLabel s =
        .ok all s') :
    all = true := by
  rcases Steps.bind_eq_ok hRun with ⟨value, _, hTaking, hRun₁⟩
  rw [hBody.taking hTaking] at hRun₁
  rcases Steps.bind_eq_ok hRun₁ with ⟨amount, _, hAmount, hRun₂⟩
  rw [amount_value hStep hAmount] at hRun₂
  rcases Steps.bind_eq_ok hRun₂ with ⟨limit, _, hLimit, hRun₃⟩
  rw [hLast.taking hLimit] at hRun₃
  rcases Steps.bind_eq_ok hRun₃ with ⟨_, _, _, hDone⟩
  cases hDone
  rfl

/- Such a loop leaves a value itself. -/
theorem repetition_leaves
    (counter : Value)
    {hasStep : Bool}
    {first last step body : Emit Unit}
    (hBody : Leaves body)
    (hStep : hasStep = true → Leaves step)
    (hLast : Leaves last) :
    Leaves (repetition counter hasStep first last step body) := by
  rw [repetition_eq]
  iterate 8 refine .bind fun _ _ _ _ => ?_
  refine .bind fun _ _ _ _ => .bind fun _ _ _ _ =>
    .bind fun _ all _ hTurning => ?_
  rw [turning_all hBody hStep hLast hTurning]
  exact .bind fun _ _ _ _ => .push rfl

/- A value is left of every node that has one. -/
theorem visit_leaves
    {node : Node}
    (hValued : node.isValued = true) :
    Leaves (visit node) := by
  cases node with
  | float value =>
      apply Leaves.push
      unfold constant
      split <;> rfl
  | reference name type location =>
      refine .bind fun _ found _ _ => ?_
      cases found with
      | none => exact .throw _
      | some address =>
          exact .bind fun _ _ _ hLoad => .push (load_value hLoad)
  | unary op operand =>
      refine .bind fun _ _ _ _ => .bind fun _ found _ _ => ?_
      cases found with
      | none => exact .throw _
      | some f => exact .bind fun _ _ _ hCall => .push (call_value hCall)
  | binary op lhs rhs location =>
      unfold visit binary
      split
      · cases lhs with
        | reference name type location =>
            refine .bind fun _ value _ hTaking => .bind fun _ found _ _ => ?_
            cases found with
            | none => exact .throw _
            | some address =>
                exact .bind fun _ _ _ _ => .push (takingValue_value hTaking)
        | _ => exact .throw _
      · refine .bind fun _ x _ _ => .bind fun _ y _ _ => ?_
        have hApply : Leaves (do
            let result ← operation op.shown x y
            Emit.push result) :=
          .bind fun _ _ _ hRun => .push (operation_value hRun)
        split
        · exact .bind fun _ _ _ _ => hApply
        · exact hApply
  | call callee args location =>
      refine .bind fun _ found _ _ => ?_
      cases found with
      | none => exact .throw _
      | some operand =>
          cases operand with
          | function signature name =>
              have hCall : Leaves (do
                  let values ← visitArguments args
                  let result ← Emit.call (.function signature name) values
                    "calltmp"
                  Emit.push result) :=
                .bind fun _ _ _ _ => .bind fun _ _ _ hRun =>
                  .push (call_value hRun)
              dsimp only
              split
              · exact hCall
              · exact .bind fun _ _ _ _ => hCall
          | _ => exact .throw _
  | branch cond yes no location =>
      unfold visit conditional
      iterate 21 refine .bind fun _ _ _ _ => ?_
      exact .push rfl
  | block nodes =>
      refine .bind fun _ values _ hAll => .push ?_
      have hLength := visitAll_length hAll
      cases values with
      | nil =>
          rw [List.eq_nil_of_length_eq_zero hLength.symm] at hValued
          cases hValued
      | cons value values => rfl
  | absent => cases hValued
  | plain location => cases hValued
  | loop counter first last step body =>
      rw [Node.isValued_loop, Node.isFinished_iff] at hValued
      rcases hValued with ⟨hBody, hStep, hLast⟩
      exact repetition_leaves counter (visit_leaves hBody)
        (fun hPresent =>
          visit_leaves (Node.isValued_of_isAmount hStep hPresent))
        (visit_leaves hLast)
  | declare names type body => cases hValued
  | prototype name type args line => cases hValued
  | function proto body => cases hValued
  | ret value => cases hValued
  | program name nodes => cases hValued

theorem step_leaves
    {step : Node}
    (hAmount : step.isAmount = true)
    (hPresent : step.isPresent = true) :
    Leaves (visit step) :=
  visit_leaves (Node.isValued_of_isAmount hAmount hPresent)

end Offside.Emit

------------------------------------------------------------
-- Variables That Stay
------------------------------------------------------------

namespace Offside.Emit

variable {α β : Type}
variable {x : String}

/- The variable is bound as before. -/
def Fixed
    (x : String)
    (s s' : EmitState) :
    Prop :=
  s'.bindings.get? x = s.bindings.get? x

/- A step after which, if it succeeds, the variable is as before. -/
def Fixes
    (x : String)
    (m : Emit α) :
    Prop :=
  Keeps (Fixed x) (fun _ _ => True) m

theorem calm_fixed
    (x : String) :
    Calm (Fixed x) fun _ _ => True where
  refl := fun _ => rfl
  trans := fun hFirst hSecond => hSecond.trans hFirst
  fails := fun _ => trivial
  after := fun _ _ => trivial
  generator := fun _ _ _ _ => rfl
  printed := fun _ _ => rfl

theorem address?_fixes
    (name : String) :
    Fixes x (address? name) :=
  (calm_fixed x).bind (calm_fixed x).get fun _ =>
    (calm_fixed x).closed.pure _

/- A loop leaves the variables that it does not count with. -/
theorem counting_fixes
    {counter : String}
    (hOther : x ≠ counter)
    (address : IR.Operand)
    {inner : Emit Bool}
    (hInner : Fixes x inner) :
    Fixes x (counting counter address inner) := by
  have hClosed := (calm_fixed x).closed
  have hBind : ∀ change : EmitState → Bindings,
      (∀ s, (change s).get? x = s.bindings.get? x) →
        Fixes x (modify fun s => { s with bindings := change s }) :=
    fun change hChange => Sequential.changing hChange
  unfold counting
  refine hClosed.bind (address?_fixes _) fun old => ?_
  refine hClosed.bind (hBind _ fun s => ?_) fun _ =>
    hClosed.bind hInner fun all => ?_
  · rw [Bindings.get?_set, if_neg hOther]
  · split
    · refine hClosed.bind (hBind _ fun s => ?_) fun _ => hClosed.push _
      rw [Bindings.get?_restore, if_neg hOther]
    · exact hClosed.pure _

/- A loop whose code is generated to its end restores its counter. -/
theorem counting_fixes_counter
    (address : IR.Operand)
    {inner : Emit Bool}
    (hAll : ∀ s all s', inner s = .ok all s' → all = true) :
    Fixes x (counting x address inner) := by
  intro s
  refine ⟨fun _ s' hRun => ?_, fun _ _ _ => trivial⟩
  rcases Steps.bind_eq_ok hRun with ⟨old, t, hOld, hRun₁⟩
  cases hOld
  rcases Steps.bind_eq_ok hRun₁ with ⟨_, t₁, hSet, hRun₂⟩
  cases hSet
  rcases Steps.bind_eq_ok hRun₂ with ⟨all, t₂, hInner, hRun₃⟩
  cases hAll _ _ _ hInner
  cases hRun₃
  unfold Fixed
  exact (Bindings.get?_restore _ _ _ _).trans (if_pos rfl)

theorem fixes_covers
    (x : String) :
    Covers (Node.Spares x) fun _ _ m => Fixes x m where
  atoms := (calm_fixed x).steady.atoms
  conditional := (calm_fixed x).closed.conditional
  repetition := by
    intro X counter first last step body hLoop hFirst hLast hStep hBody
    have hClosed := (calm_fixed x).closed
    refine hClosed.repetition_of_counting (fun name head => ?_) hFirst
    by_cases hCounter : x = counter.shown
    · subst hCounter
      refine counting_fixes_counter _ fun _ _ _ hRun => ?_
      have hFinished : Node.isFinished last step body = true :=
        Bool.eq_true_of_not_eq_false fun hEarly =>
          hLoop.finished ⟨_, _, _, _, _, rfl, .refl, hEarly⟩
      rcases Node.isFinished_iff.mp hFinished with ⟨hBody, hStep, hLast⟩
      exact turning_all (visit_leaves hBody) (step_leaves hStep)
        (visit_leaves hLast) hRun
    · exact counting_fixes hCounter _ (hClosed.turning hLast hStep hBody)
  definition := by
    intro X proto body hFunction
    cases hFunction.isLocal
  part := Node.Spares.part

/-
  A visit leaves a variable as it was, unless a loop that counts
  with it is left early.
-/
theorem visit_fixed
    {node : Node}
    (hSpares : node.Spares x) :
    Fixes x (visit node) :=
  (fixes_covers x).visit (X := fun _ => True) hSpares fun _ _ => trivial

end Offside.Emit

------------------------------------------------------------
-- Variables That Are Needed
------------------------------------------------------------

namespace Offside.Emit

variable {α β : Type}
variable {x : String}

/- A step that fails where the variable is not bound. -/
def Needs
    (x : String)
    (m : Emit α) :
    Prop :=
  ∀ s, s.bindings.get? x = none → ∀ a s', m s ≠ .ok a s'

namespace Needs

theorem throw
    (e : EmitError) :
    Needs x (MonadExcept.throw e : Emit α) := by
  intro s _ a s' hRun
  cases hRun

theorem left
    {m : Emit α}
    {k : α → Emit β}
    (hFirst : Needs x m) :
    Needs x (m >>= k) := by
  intro s hNone b s' hRun
  rcases Steps.bind_eq_ok hRun with ⟨a, t, hRun₁, _⟩
  exact hFirst s hNone a t hRun₁

theorem right
    {m : Emit α}
    {k : α → Emit β}
    (hFirst : Fixes x m)
    (hSecond : ∀ s a s', m s = .ok a s' → Needs x (k a)) :
    Needs x (m >>= k) := by
  intro s hNone b s' hRun
  rcases Steps.bind_eq_ok hRun with ⟨a, t, hRun₁, hRun₂⟩
  have hFixed : Fixed x s t := (hFirst s).ok a t hRun₁
  exact hSecond s a t hRun₁ t (hFixed.trans hNone) b s' hRun₂

theorem taking
    {m : Emit Unit}
    (hNeeds : Needs x m) :
    Needs x (Emit.taking m) :=
  hNeeds.left

theorem takingValue
    {m : Emit Unit}
    (hNeeds : Needs x m)
    (cause : Invalid) :
    Needs x (Emit.takingValue m cause) :=
  hNeeds.taking.left

end Needs

theorem reading_needs
    {name : Value}
    (hName : name.shown = x) :
    Needs x (reading name) := by
  subst hName
  intro s hNone a s' hRun
  rcases Steps.bind_eq_ok hRun with ⟨found, t, hFound, hRun₁⟩
  cases hFound
  rw [hNone] at hRun₁
  cases hRun₁

theorem assigned_needs
    (x : String)
    (value : IR.Operand) :
    Needs x (assigned x value) := by
  intro s hNone a s' hRun
  rcases Steps.bind_eq_ok hRun with ⟨found, t, hFound, hRun₁⟩
  cases hFound
  rw [hNone] at hRun₁
  cases hRun₁

/- An assignment needs its variable, any operator its left side. -/
theorem binary_needs_lhs
    (op : Value)
    {lhs : Node}
    (hReads : lhs.Reads x)
    {rhs : Emit Unit}
    (hLhs : Needs x (visit lhs))
    (hRhs : Fixes x rhs) :
    Needs x (binary op lhs (visit lhs) rhs) := by
  unfold binary
  split
  · cases hReads with
    | reference type location hName =>
        subst hName
        exact .right ((calm_fixed _).closed.takingValue hRhs _)
          fun _ value _ _ => assigned_needs _ value
    | _ => exact .throw _
  · exact hLhs.taking.left

theorem binary_needs_rhs
    (op : Value)
    (lhsNode : Node)
    {lhs rhs : Emit Unit}
    (hLhs : Fixes x lhs)
    (hRhs : Needs x rhs) :
    Needs x (binary op lhsNode lhs rhs) := by
  unfold binary
  split
  · cases lhsNode with
    | reference name type location => exact (hRhs.takingValue _).left
    | _ => exact .throw _
  · exact .right ((calm_fixed x).closed.taking hLhs) fun _ _ _ _ =>
      hRhs.taking.left

theorem application_needs
    (callee : Value)
    (count : Nat)
    {args : Emit (List IR.Operand)}
    (hArgs : Needs x args) :
    Needs x (application callee count args) := by
  refine .right ((calm_fixed x).steady.getFunction _) fun _ found _ _ => ?_
  cases found with
  | none => exact .throw _
  | some operand =>
      cases operand with
      | function signature name =>
          dsimp only
          split
          · exact hArgs.left
          · exact (Needs.throw _).left
      | _ => exact .throw _

/- Nodes are visited one after another. -/
theorem visitAll_needs
    {nodes : List Node}
    (hFixes : ∀ node ∈ nodes, Fixes x (visit node))
    {node : Node}
    (hMem : node ∈ nodes)
    (hNode : Needs x (visit node)) :
    Needs x (visitAll nodes) := by
  induction nodes with
  | nil => cases hMem
  | cons other nodes ih =>
      rcases List.forall_mem_cons.mp hFixes with ⟨hOther, hNodes⟩
      rcases List.mem_cons.mp hMem with rfl | hMem
      · exact hNode.taking.left
      · exact .right ((calm_fixed x).closed.taking hOther)
          fun _ _ _ _ => (ih hNodes hMem).left

theorem visitArguments_needs
    {nodes : List Node}
    (hFixes : ∀ node ∈ nodes, Fixes x (visit node))
    {node : Node}
    (hMem : node ∈ nodes)
    (hNode : Needs x (visit node)) :
    Needs x (visitArguments nodes) := by
  induction nodes with
  | nil => cases hMem
  | cons other nodes ih =>
      rcases List.forall_mem_cons.mp hFixes with ⟨hOther, hNodes⟩
      rcases List.mem_cons.mp hMem with rfl | hMem
      · exact (hNode.takingValue _).left
      · exact .right ((calm_fixed x).closed.takingValue hOther _)
          fun _ _ _ _ => (ih hNodes hMem).left

end Offside.Emit

------------------------------------------------------------
-- Branches and Loops
------------------------------------------------------------

namespace Offside.Emit

variable {x : String}

/- A condition up to its first branch. -/
theorem opening_needs
    {cond : Emit Unit}
    (hCond : Fixes x cond)
    {rest : String → String → String → String → Emit Unit}
    (hRest : ∀ function thenLabel elseLabel meetLabel,
      Needs x (rest function thenLabel elseLabel meetLabel)) :
    Needs x (do
      let cond ← takingValue cond .condition
      let test ← compare .differ cond (.zero .float) ""
      let function ← currentFunction
      let thenLabel ← appendBlock function "then"
      let elseLabel ← register function "else"
      let meetLabel ← register function "ifcont"
      terminate (.branch test thenLabel elseLabel)
      moveToStart function thenLabel
      rest function thenLabel elseLabel meetLabel) := by
  have hClosed := (calm_fixed x).closed
  exact .right (hClosed.takingValue hCond _) fun _ _ _ _ =>
    .right (hClosed.compare _ _ _ _) fun _ _ _ _ =>
    .right hClosed.currentFunction fun _ _ _ _ =>
    .right (hClosed.appendBlock _ _) fun _ _ _ _ =>
    .right (hClosed.register _ _) fun _ _ _ _ =>
    .right (hClosed.register _ _) fun _ _ _ _ =>
    .right (hClosed.terminate _) fun _ _ _ _ =>
    .right (hClosed.moveTo _) fun _ _ _ _ => hRest _ _ _ _

theorem conditional_needs_yes
    {cond yes no : Emit Unit}
    (hCond : Fixes x cond)
    (hYes : Needs x yes) :
    Needs x (conditional cond yes no) := by
  unfold conditional
  exact opening_needs hCond fun _ _ _ _ => (hYes.takingValue _).left

theorem conditional_needs_no
    {cond yes no : Emit Unit}
    (hCond : Fixes x cond)
    (hYes : Fixes x yes)
    (hNo : Needs x no) :
    Needs x (conditional cond yes no) := by
  have hClosed := (calm_fixed x).closed
  unfold conditional
  refine opening_needs hCond fun _ _ _ _ => ?_
  exact .right (hClosed.takingValue hYes _) fun _ _ _ _ =>
    .right (hClosed.terminate _) fun _ _ _ _ =>
    .right hClosed.currentBlock fun _ _ _ _ =>
    .right hClosed.currentFunction fun _ _ _ _ =>
    .right (hClosed.attachBlock _ _) fun _ _ _ _ =>
    .right (hClosed.moveTo _) fun _ _ _ _ => (hNo.takingValue _).left

/- A loop needs what is needed for its first value. -/
theorem repetition_needs_first
    (counter : Value)
    (hasStep : Bool)
    {first last step body : Emit Unit}
    (hFirst : Needs x first) :
    Needs x (repetition counter hasStep first last step body) := by
  have hClosed := (calm_fixed x).closed
  exact .right (hClosed.allocate _ _) fun _ _ _ _ =>
    .right hClosed.moveToEnd fun _ _ _ _ => (hFirst.takingValue _).left

/- It needs what is needed where its counter is bound. -/
theorem repetition_needs_turning
    {counter : Value}
    (hOther : x ≠ counter.shown)
    {hasStep : Bool}
    {first last step body : Emit Unit}
    (hFirst : Fixes x first)
    (hTurning : ∀ address loopLabel,
      Needs x (turning counter.shown hasStep last step body address
        loopLabel)) :
    Needs x (repetition counter hasStep first last step body) := by
  have hClosed := (calm_fixed x).closed
  rw [repetition_eq]
  refine .right (hClosed.allocate _ _) fun _ _ _ _ =>
    .right hClosed.moveToEnd fun _ _ _ _ =>
    .right (hClosed.takingValue hFirst _) fun _ _ _ _ =>
    .right (hClosed.store _ _) fun _ _ _ _ =>
    .right hClosed.currentFunction fun _ _ _ _ =>
    .right (hClosed.appendBlock _ _) fun _ _ _ _ =>
    .right (hClosed.terminate _) fun _ _ _ _ =>
    .right (hClosed.moveTo _) fun _ _ _ _ => ?_
  refine .right (address?_fixes _) fun _ _ _ _ =>
    .right (Sequential.changing fun s => ?_) fun _ _ _ _ =>
      (hTurning _ _).left
  unfold Fixed
  rw [Bindings.get?_set, if_neg hOther]

theorem turning_needs_step
    {counter loopLabel : String}
    {address : IR.Operand}
    {last : Emit Unit}
    {step body : Node}
    (hValued : body.isValued = true)
    (hPresent : step.isPresent = true)
    (hBody : Fixes x (visit body))
    (hStep : Needs x (visit step)) :
    Needs x (turning counter step.isPresent last (visit step)
      (visit body) address loopLabel) := by
  refine .right ((calm_fixed x).closed.taking hBody)
    fun _ value _ hTaking => ?_
  rw [(visit_leaves hValued).taking hTaking, hPresent]
  exact hStep.taking.left

theorem turning_needs_last
    {counter loopLabel : String}
    {address : IR.Operand}
    {last : Emit Unit}
    {step body : Node}
    (hValued : body.isValued = true)
    (hAmount : step.isAmount = true)
    (hBody : Fixes x (visit body))
    (hStep : Fixes x (visit step))
    (hLast : Needs x last) :
    Needs x (turning counter step.isPresent last (visit step)
      (visit body) address loopLabel) := by
  have hClosed := (calm_fixed x).closed
  refine .right (hClosed.taking hBody) fun _ value _ hTaking => ?_
  rw [(visit_leaves hValued).taking hTaking]
  refine .right (hClosed.amount hStep) fun _ amount _ hRun => ?_
  rw [amount_value (step_leaves hAmount) hRun]
  exact hLast.taking.left

/- A visit fails where a variable that it reads is not bound. -/
theorem visit_needs
    {node : Node}
    (hReads : node.Reads x)
    (hSpares : node.Spares x) :
    Needs x (visit node) := by
  have hFixes : ∀ {child node : Node}, node.Spares x →
      Node.Part child node → Fixes x (visit child) :=
    fun hSpares hPart => visit_fixed (hSpares.part hPart)
  induction hReads with
  | reference type location hName => exact reading_needs hName
  | unary op hOperand ih =>
      exact ((ih (hSpares.part (.operand _ _))).takingValue _).left
  | lhs op rhs location hLhs ih =>
      exact binary_needs_lhs op hLhs (ih (hSpares.part (.lhs _ _ _ _)))
        (hFixes hSpares (.rhs _ _ _ _))
  | rhs op lhs location hRhs ih =>
      exact binary_needs_rhs op lhs (hFixes hSpares (.lhs _ _ _ _))
        (ih (hSpares.part (.rhs _ _ _ _)))
  | call callee location hMem hArg ih =>
      exact application_needs callee _ (visitArguments_needs
        (fun _ hOther => hFixes hSpares (.arg _ _ hOther)) hMem
        (ih (hSpares.part (.arg _ _ hMem))))
  | cond yes no location hCond ih =>
      exact ((ih (hSpares.part (.cond _ _ _ _))).takingValue _).left
  | yes cond no location hYes ih =>
      exact conditional_needs_yes (hFixes hSpares (.cond _ _ _ _))
        (ih (hSpares.part (.yes _ _ _ _)))
  | no cond yes location hNo ih =>
      exact conditional_needs_no (hFixes hSpares (.cond _ _ _ _))
        (hFixes hSpares (.yes _ _ _ _)) (ih (hSpares.part (.no _ _ _ _)))
  | first counter last step body hFirst ih =>
      exact repetition_needs_first counter _
        (ih (hSpares.part (.first _ _ _ _ _)))
  | body first last step hOther hBody ih =>
      exact repetition_needs_turning hOther
        (hFixes hSpares (.first _ _ _ _ _))
        fun _ _ => (ih (hSpares.part (.body _ _ _ _ _))).taking.left
  | step first last hOther hValue hPresent hStep ih =>
      exact repetition_needs_turning hOther
        (hFixes hSpares (.first _ _ _ _ _))
        fun _ _ => turning_needs_step hValue hPresent
          (hFixes hSpares (.body _ _ _ _ _))
          (ih (hSpares.part (.step _ _ _ _ _)))
  | last first hOther hValue hAmount hLast ih =>
      exact repetition_needs_turning hOther
        (hFixes hSpares (.first _ _ _ _ _))
        fun _ _ => turning_needs_last hValue hAmount
          (hFixes hSpares (.body _ _ _ _ _))
          (hFixes hSpares (.step _ _ _ _ _))
          (ih (hSpares.part (.last _ _ _ _ _)))
  | block hMem hNode ih =>
      exact (visitAll_needs
        (fun _ hOther => hFixes hSpares (.node hOther)) hMem
        (ih (hSpares.part (.node hMem)))).left

end Offside.Emit
