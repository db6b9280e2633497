import Mathlib
import Offside.Proofs.Emit.Frame
import Offside.Proofs.Emit.Graph

/-
  The discipline of stack and variables: a visit leaves one value
  on the stack, and the variables as they were.

  Key definitions include:
    * `Offside.Node.Valued`
    * `Offside.Node.Yields`
    * `Offside.EmitState.Undisturbed`
    * `Offside.Emit.Works`
    * `Offside.Emit.Adds`

  Main statements:
    * `Offside.Emit.getFunction_eq_none`: a generator that does not
      resolve names finds no function, so no call succeeds.
    * `Offside.Emit.adds_counting`: however the inner part of a
      loop binds variables, the counter is bound as before.
    * `Offside.Emit.visit_adds_one`: the discipline, for all nodes
      that have a value.
-/

------------------------------------------------------------
-- Nodes and Their Values
------------------------------------------------------------

namespace Offside.Node

/-
  Nodes that have a value, and all of whose parts have one:
  literals, variables, operators, calls, conditions, loops with or
  without a step, and blocks that are not empty.  There is no
  function or prototype in them, no program, nothing that is
  given back or declared, and no node without a form.
-/
inductive Valued : Node → Prop
  | float (value : Value) : Valued (.float value)
  | reference
      (name : Value)
      (type : String)
      (location : Location) :
      Valued (.reference name type location)
  | unary
      {operand : Node}
      (op : Value)
      (hOperand : Valued operand) :
      Valued (.unary op operand)
  | binary
      {lhs rhs : Node}
      (op : Value)
      (location : Location)
      (hLhs : Valued lhs)
      (hRhs : Valued rhs) :
      Valued (.binary op lhs rhs location)
  | call
      {args : List Node}
      (callee : Value)
      (location : Location)
      (hArgs : ∀ arg ∈ args, Valued arg) :
      Valued (.call callee args location)
  | branch
      {cond yes no : Node}
      (location : Location)
      (hCond : Valued cond)
      (hYes : Valued yes)
      (hNo : Valued no) :
      Valued (.branch cond yes no location)
  | loop
      {first last step body : Node}
      (counter : Value)
      (hFirst : Valued first)
      (hLast : Valued last)
      (hStep : step.isPresent = true → Valued step)
      (hBody : Valued body) :
      Valued (.loop counter first last step body)
  | block
      {nodes : List Node}
      (hSome : nodes ≠ [])
      (hNodes : ∀ node ∈ nodes, Valued node) :
      Valued (.block nodes)

mutual

/-
  The values that a node may leave: one of its own, or for a block
  a list with a value of each of its nodes.
-/
def Yields :
    Node →
    IR.Operand →
    Prop
  | .block nodes, value =>
      ∃ values, value = .many values ∧ AllYield nodes values
  | _, value => value.isSingle = true

/- As many values as nodes, each one that its node may leave. -/
def AllYield :
    List Node →
    List IR.Operand →
    Prop
  | [], values => values = []
  | node :: nodes, values =>
      ∃ first rest, values = first :: rest ∧ node.Yields first ∧
        AllYield nodes rest

end

/- A node with a value never leaves the value of an empty block. -/
theorem Yields.isNothing
    {node : Node}
    {value : IR.Operand}
    (hYields : node.Yields value)
    (hValued : node.Valued) :
    value.isNothing = false := by
  cases hValued with
  | block hSome _ =>
      simp only [Yields] at hYields
      rcases hYields with ⟨values, rfl, hAll⟩
      rcases List.exists_cons_of_ne_nil hSome with ⟨node, nodes, rfl⟩
      simp only [AllYield] at hAll
      rcases hAll with ⟨first, rest, rfl, _⟩
      rfl
  | _ =>
      simp only [Yields] at hYields
      cases value with
      | many => cases hYields
      | _ => rfl

end Offside.Node

------------------------------------------------------------
-- Undisturbed States
------------------------------------------------------------

namespace Offside

/-
  The stack is as it was and so are the variables, and functions
  are looked for in the same way.
-/
structure EmitState.Undisturbed
    (s s' : EmitState) :
    Prop where
  resolves : s'.generator.resolves = s.generator.resolves
  stack : s'.generator.stack = s.generator.stack
  bindings : ∀ x, s'.bindings.get? x = s.bindings.get? x

namespace EmitState.Undisturbed

theorem refl
    (s : EmitState) :
    s.Undisturbed s :=
  ⟨rfl, rfl, fun _ => rfl⟩

theorem trans
    {s t u : EmitState}
    (hFirst : s.Undisturbed t)
    (hNext : t.Undisturbed u) :
    s.Undisturbed u :=
  ⟨hNext.resolves.trans hFirst.resolves, hNext.stack.trans hFirst.stack,
    fun x => (hNext.bindings x).trans (hFirst.bindings x)⟩

theorem pushed
    {s t : EmitState}
    (hSame : s.Undisturbed t)
    (value : IR.Operand) :
    (s.pushed value).Undisturbed (t.pushed value) :=
  ⟨hSame.resolves, congrArg (value :: ·) hSame.stack, hSame.bindings⟩

end EmitState.Undisturbed

namespace Emit

variable {α β : Type}

/-
  A step of a generator that does not resolve names.  When it
  succeeds it has disturbed nothing, and its result is as said.
-/
def Works
    (Q : α → Prop)
    (m : Emit α) :
    Prop :=
  ∀ s a s', s.generator.resolves = false → m s = .ok a s' →
    Q a ∧ s.Undisturbed s'

/- The same with one more value on the stack, which is as said. -/
def Adds
    (Q : IR.Operand → Prop)
    (m : Emit Unit) :
    Prop :=
  ∀ s s', s.generator.resolves = false → m s = .ok () s' →
    ∃ value, Q value ∧ (s.pushed value).Undisturbed s'

/- A step that never succeeds, unless it resolves names. -/
def Stops
    (m : Emit α) :
    Prop :=
  ∀ s a s', s.generator.resolves = false → m s ≠ .ok a s'

theorem Works.pure
    {Q : α → Prop}
    {a : α}
    (hResult : Q a) :
    Works Q (Pure.pure a) := by
  intro s b s' _ hRun
  cases hRun
  exact ⟨hResult, .refl s⟩

theorem Stops.works
    {m : Emit α}
    (hStops : Stops m)
    (Q : α → Prop) :
    Works Q m :=
  fun s a s' hLooks hRun => absurd hRun (hStops s a s' hLooks)

theorem Stops.adds
    {m : Emit Unit}
    (hStops : Stops m)
    (Q : IR.Operand → Prop) :
    Adds Q m :=
  fun s s' hLooks hRun => absurd hRun (hStops s () s' hLooks)

theorem stops_throw
    (e : EmitError) :
    Stops (throw e : Emit α) :=
  fun _ _ _ _ hRun => nomatch hRun

theorem Works.bind
    {P : α → Prop}
    {Q : β → Prop}
    {m : Emit α}
    {k : α → Emit β}
    (hFirst : Works P m)
    (hRest : ∀ a, P a → Works Q (k a)) :
    Works Q (m >>= k) := by
  intro s b s' hLooks hRun
  rcases Steps.bind_eq_ok hRun with ⟨a, t, hHead, hTail⟩
  rcases hFirst s a t hLooks hHead with ⟨hResult, hSame⟩
  rcases hRest a hResult t b s' (hSame.resolves.trans hLooks) hTail with
    ⟨hValue, hNext⟩
  exact ⟨hValue, hSame.trans hNext⟩

theorem Works.adding
    {P : α → Prop}
    {Q : IR.Operand → Prop}
    {m : Emit α}
    {k : α → Emit Unit}
    (hFirst : Works P m)
    (hRest : ∀ a, P a → Adds Q (k a)) :
    Adds Q (m >>= k) := by
  intro s s' hLooks hRun
  rcases Steps.bind_eq_ok hRun with ⟨a, t, hHead, hTail⟩
  rcases hFirst s a t hLooks hHead with ⟨hResult, hSame⟩
  rcases hRest a hResult t s' (hSame.resolves.trans hLooks) hTail with
    ⟨value, hValue, hNext⟩
  exact ⟨value, hValue, (hSame.pushed value).trans hNext⟩

theorem adds_push
    {Q : IR.Operand → Prop}
    {value : IR.Operand}
    (hValue : Q value) :
    Adds Q (push value) := by
  intro s s' _ hRun
  cases hRun
  exact ⟨value, hValue, .refl _⟩

/- What a visit has left is taken, and nothing else. -/
theorem Adds.taking
    {Q : IR.Operand → Prop}
    {m : Emit Unit}
    (hAdds : Adds Q m) :
    Works Q (Emit.taking m) := by
  intro s value s' hLooks hRun
  rcases hAdds s _ hLooks (pushed_of_taking hRun) with
    ⟨left, hLeft, hSame⟩
  have hStack := hSame.stack
  simp only [EmitState.pushed, List.cons.injEq] at hStack
  rcases hStack with ⟨rfl, hStack⟩
  exact ⟨hLeft, hSame.resolves, hStack, hSame.bindings⟩

theorem Adds.takingValue
    {Q : IR.Operand → Prop}
    {m : Emit Unit}
    (hAdds : Adds Q m)
    (cause : Invalid) :
    Works Q (Emit.takingValue m cause) := by
  refine hAdds.taking.bind fun value hValue => ?_
  split
  · exact (stops_throw _).works _
  · exact Works.pure hValue

end Emit

end Offside

------------------------------------------------------------
-- Steps That Disturb Nothing
------------------------------------------------------------

namespace Offside.Emit

/- Placing code disturbs nothing. -/
theorem placing :
    Placing fun α m => Works (fun _ : α => True) m where
  pure := fun _ => Works.pure trivial
  throw := fun e => (stops_throw e).works _
  bind := fun hFirst hRest => hFirst.bind fun a _ => hRest a
  reads := fun hRest s a s' => hRest s.generator s a s'
  changes := by
    intro module cursor s a s' _ hRun
    cases hRun
    exact ⟨trivial, rfl, rfl, fun _ => rfl⟩

theorem works_load
    (pointer : IR.Operand)
    (hint : String) :
    Works (·.isSingle = true) (load pointer hint) :=
  (placing.target _ _).bind fun _ _ =>
    (placing.place _ _).bind fun _ _ => Works.pure rfl

theorem works_arithmetic
    (op : IR.Arithmetic)
    (lhs rhs : IR.Operand)
    (hint : String) :
    Works (·.isSingle = true) (arithmetic op lhs rhs hint) := by
  refine (placing.part _).bind fun _ _ => (placing.part _).bind fun _ _ => ?_
  split
  · exact (placing.place _ _).bind fun _ _ => Works.pure rfl
  · exact Works.bind ((stops_throw _).works fun _ => True) fun _ _ =>
      (placing.place _ _).bind fun _ _ => Works.pure rfl

theorem works_comparison
    (op : IR.Comparison)
    (lhs rhs : IR.Operand)
    (hint : String) :
    Works (·.isSingle = true) (comparison op lhs rhs hint) :=
  (placing.compare _ _ _ _).bind fun _ _ =>
    (placing.place _ _).bind fun _ _ => Works.pure rfl

/- A value that has been kept is a single one. -/
theorem works_store
    (value pointer : IR.Operand) :
    Works (fun _ => value.isSingle = true) (store value pointer) := by
  intro s u s' hLooks hRun
  have hSame := placing.store value pointer s u s' hLooks hRun
  rcases store_eq_ok hRun with ⟨type, name, _, hValue, _⟩
  exact ⟨Option.isSome_of_mem hValue, hSame.2⟩

theorem works_address?
    (name : String) :
    Works (fun _ => True) (address? name) := by
  intro s found s' _ hRun
  cases hRun
  exact ⟨trivial, .refl _⟩

end Offside.Emit

------------------------------------------------------------
-- Forms of the Language
------------------------------------------------------------

namespace Offside.Emit

theorem adds_reading
    (name : Value) :
    Adds (·.isSingle = true) (reading name) := by
  refine (works_address? _).adding fun found _ => ?_
  cases found with
  | none => exact (stops_throw _).adds _
  | some address =>
      exact (works_load _ _).adding fun _ hValue => adds_push hValue

theorem Adds.assignment
    {Q : IR.Operand → Prop}
    {rhs : Emit Unit}
    (hRhs : Adds Q rhs)
    (lhs : Node) :
    Adds (·.isSingle = true) (Emit.assignment lhs rhs) := by
  unfold Emit.assignment
  split
  · refine (hRhs.takingValue _).adding fun value _ =>
      (works_address? _).adding fun found _ => ?_
    cases found with
    | none => exact (stops_throw _).adds _
    | some address =>
        exact (works_store _ _).adding fun _ hValue => adds_push hValue
  · exact (stops_throw _).adds _

/- Whether names are resolved is not changed by other work. -/
theorem resolves_calm :
    Calm (fun s t => t.generator.resolves = s.generator.resolves)
      fun _ _ => True where
  refl := fun _ => rfl
  trans := fun hFirst hNext => hNext.trans hFirst
  fails := fun _ => trivial
  after := fun _ _ => trivial
  generator := fun _ _ _ _ => rfl
  printed := fun _ _ => rfl

theorem none_or_resolves
    {name : String}
    {s s' : EmitState}
    {found : Option IR.Operand}
    (hRun : resolved name s = .ok found s') :
    found = none ∨ s'.generator.resolves = true := by
  rcases Steps.bind_eq_ok hRun with ⟨t, u, hGet, hRest⟩
  cases hGet
  cases hResolves : s.generator.resolves with
  | false =>
      simp only [hResolves] at hRest
      cases hRest
      exact .inl rfl
  | true =>
      simp only [hResolves] at hRest
      cases hRest
      exact .inr hResolves

/-
  Looking for a function may leave the function on the stack or
  declare it, and still finds none.
-/
theorem getFunction_eq_none
    {name : String}
    {s s' : EmitState}
    {found : Option IR.Operand}
    (hLooks : s.generator.resolves = false)
    (hRun : getFunction name s = .ok found s') :
    found = none := by
  have hLast : found = none ∨ s'.generator.resolves = true := by
    rcases Steps.bind_eq_ok hRun with ⟨f?, t, _, hRest⟩
    cases f? with
    | some f =>
        rcases Steps.bind_eq_ok hRest with ⟨_, u, _, hResolved⟩
        exact none_or_resolves hResolved
    | none =>
        rcases Steps.bind_eq_ok hRest with ⟨_, u, _, hRest⟩
        generalize List.lookup name _ = proto? at hRest
        rcases proto? with _ | proto
        · cases hRest
          exact .inl rfl
        · cases proto <;>
            rcases Steps.bind_eq_ok hRest with ⟨_, _, _, hResolved⟩ <;>
            exact none_or_resolves hResolved
  rcases hLast with hNone | hResolves
  · exact hNone
  · have hSame := (resolves_calm.steady.getFunction name s).ok _ _ hRun
    rw [hSame, hLooks] at hResolves
    cases hResolves

/- What goes on only with a function never succeeds. -/
theorem stops_getFunction
    {α : Type}
    {name : String}
    {k : Option IR.Operand → Emit α}
    {e : EmitError}
    (hNone : k none = throw e) :
    Stops (getFunction name >>= k) := by
  intro s a s' hLooks hRun
  rcases Steps.bind_eq_ok hRun with ⟨found, t, hFind, hRest⟩
  rw [getFunction_eq_none hLooks hFind, hNone] at hRest
  cases hRest

theorem works_operation
    (op : String)
    (lhs rhs : IR.Operand) :
    Works (·.isSingle = true) (operation op lhs rhs) := by
  unfold operation
  split
  · exact works_arithmetic _ _ _ _
  · exact works_arithmetic _ _ _ _
  · exact works_arithmetic _ _ _ _
  · exact works_comparison _ _ _ _
  · exact works_comparison _ _ _ _
  · exact (stops_getFunction rfl).works _

theorem Adds.unary
    {Q : IR.Operand → Prop}
    {operand : Emit Unit}
    (hOperand : Adds Q operand)
    (op : Value) :
    Adds (·.isSingle = true) (Emit.unary op operand) :=
  (hOperand.takingValue _).adding fun _ _ =>
    (stops_getFunction rfl).adds _

theorem Adds.binary
    {P Q : IR.Operand → Prop}
    {lhs rhs : Emit Unit}
    (hLhs : Adds P lhs)
    (hRhs : Adds Q rhs)
    (op : Value)
    (lhsNode : Node) :
    Adds (·.isSingle = true) (Emit.binary op lhsNode lhs rhs) := by
  unfold Emit.binary
  split
  · exact hRhs.assignment _
  · refine hLhs.taking.adding fun left _ =>
      hRhs.taking.adding fun right _ => ?_
    split
    · exact (stops_throw _).adds _
    · exact (works_operation _ _ _).adding fun _ hValue => adds_push hValue

theorem adds_application
    (callee : Value)
    (count : Nat)
    (args : Emit (List IR.Operand)) :
    Adds (·.isSingle = true) (application callee count args) :=
  (stops_getFunction rfl).adds _

theorem Adds.conditional
    {P Q R : IR.Operand → Prop}
    {cond yes no : Emit Unit}
    (hCond : Adds P cond)
    (hYes : Adds Q yes)
    (hNo : Adds R no) :
    Adds (·.isSingle = true) (Emit.conditional cond yes no) := by
  refine (hCond.takingValue _).adding fun value _ =>
    (placing.compare _ _ _ _).adding fun test _ =>
    placing.currentFunction.adding fun function _ =>
    (placing.appendBlock _ _).adding fun yesLabel _ =>
    (placing.register _ _).adding fun noLabel _ =>
    (placing.register _ _).adding fun meetLabel _ =>
    (placing.terminate _).adding fun _ _ =>
    (placing.moveTo _).adding fun _ _ => ?_
  refine (hYes.takingValue _).adding fun yesValue _ =>
    (placing.terminate _).adding fun _ _ =>
    placing.currentBlock.adding fun yesEnd _ =>
    placing.currentFunction.adding fun _ _ =>
    (placing.attachBlock _ _).adding fun _ _ =>
    (placing.moveTo _).adding fun _ _ => ?_
  refine (hNo.takingValue _).adding fun noValue _ =>
    placing.currentBlock.adding fun noEnd _ =>
    (placing.terminate _).adding fun _ _ =>
    placing.currentFunction.adding fun _ _ =>
    (placing.attachBlock _ _).adding fun _ _ =>
    (placing.moveTo _).adding fun _ _ => ?_
  exact (placing.place _ _).adding fun _ _ => adds_push rfl

end Offside.Emit

------------------------------------------------------------
-- Loops
------------------------------------------------------------

namespace Offside.Emit

/-
  Whatever the inner part does to other variables it undoes, and
  of the counter the binding from before is kept aside.
-/
theorem adds_counting
    {inner : Emit Bool}
    (hInner : Works (· = true) inner)
    (counter : String)
    (address : IR.Operand) :
    Adds (·.isSingle = true) (counting counter address inner) := by
  intro s s' hLooks hRun
  rcases Steps.bind_eq_ok hRun with ⟨old, t, hOld, hRun⟩
  cases hOld
  rcases Steps.bind_eq_ok hRun with ⟨_, t, hBind, hRun⟩
  cases hBind
  rcases Steps.bind_eq_ok hRun with ⟨all, t, hRun, hEnd⟩
  rcases hInner
      { s with bindings := s.bindings.set counter address } all t hLooks
      hRun with
    ⟨rfl, hSame⟩
  cases hEnd
  refine ⟨.zero .float, rfl, hSame.resolves, ?_, fun x => ?_⟩
  · exact congrArg (IR.Operand.zero .float :: ·) hSame.stack
  · have hOther := hSame.bindings x
    simp only [Bindings.get?_set] at hOther
    simp only [EmitState.pushed, Bindings.get?_restore]
    split_ifs at hOther ⊢ with hCounter
    · rw [hCounter]
    · exact hOther

/- No part of the loop is empty, so that it is generated whole. -/
theorem works_turning
    {hasStep : Bool}
    {last step body : Emit Unit}
    (hLast : Adds (·.isNothing = false) last)
    (hStep : hasStep = true → Adds (·.isNothing = false) step)
    (hBody : Adds (·.isNothing = false) body)
    (counter : String)
    (address : IR.Operand)
    (loopLabel : String) :
    Works (· = true)
      (turning counter hasStep last step body address loopLabel) := by
  refine hBody.taking.bind fun value hValue => ?_
  rw [if_neg (ne_true_of_eq_false hValue)]
  have hAmount : Works (·.isNothing = false)
      (if hasStep then taking step
        else return .const .float Binary64.one) := by
    split
    · exact (hStep ‹_›).taking
    · exact Works.pure rfl
  refine hAmount.bind fun amount hAmount => ?_
  rw [if_neg (ne_true_of_eq_false hAmount)]
  refine hLast.taking.bind fun limit hLimit => ?_
  rw [if_neg (ne_true_of_eq_false hLimit)]
  exact (placing.closeLoop _ _ _ _ _).bind fun _ _ => Works.pure rfl

theorem Adds.repetition
    {Q : IR.Operand → Prop}
    {hasStep : Bool}
    {first last step body : Emit Unit}
    (hFirst : Adds Q first)
    (hLast : Adds (·.isNothing = false) last)
    (hStep : hasStep = true → Adds (·.isNothing = false) step)
    (hBody : Adds (·.isNothing = false) body)
    (counter : Value) :
    Adds (·.isSingle = true)
      (Emit.repetition counter hasStep first last step body) := by
  rw [repetition_eq]
  exact (placing.allocate _ _).adding fun address _ =>
    placing.moveToEnd.adding fun _ _ =>
    (hFirst.takingValue _).adding fun start _ =>
    (placing.store _ _).adding fun _ _ =>
    placing.currentFunction.adding fun function _ =>
    (placing.appendBlock _ _).adding fun loopLabel _ =>
    (placing.terminate _).adding fun _ _ =>
    (placing.moveTo _).adding fun _ _ =>
    adds_counting (works_turning hLast hStep hBody _ _ _) _ _

end Offside.Emit

------------------------------------------------------------
-- Visits
------------------------------------------------------------

namespace Offside.Emit

theorem Adds.mono
    {P Q : IR.Operand → Prop}
    {m : Emit Unit}
    (hAdds : Adds P m)
    (hWeaker : ∀ value, P value → Q value) :
    Adds Q m := by
  intro s s' hLooks hRun
  rcases hAdds s s' hLooks hRun with ⟨value, hValue, hSame⟩
  exact ⟨value, hWeaker value hValue, hSame⟩

theorem works_visitAll
    (nodes : List Node)
    (hNodes : ∀ node ∈ nodes, Adds node.Yields (visit node)) :
    Works (Node.AllYield nodes) (visitAll nodes) := by
  induction nodes with
  | nil => exact Works.pure rfl
  | cons node nodes ih =>
      have hHead := hNodes node List.mem_cons_self
      have hTail := ih fun n hMem => hNodes n (List.mem_cons_of_mem _ hMem)
      exact hHead.taking.bind fun first hFirst =>
        hTail.bind fun rest hRest =>
          Works.pure ⟨first, rest, rfl, hFirst, hRest⟩

theorem constant_isSingle
    (value : Value) :
    (constant value).isSingle = true := by
  unfold constant
  split <;> rfl

/- The step of the discipline: a node leaves a value of its own. -/
theorem adds_visit
    {node : Node}
    (hValued : node.Valued) :
    Adds node.Yields (visit node) := by
  induction hValued with
  | float value => exact adds_push (constant_isSingle value)
  | reference name _ _ => exact adds_reading name
  | unary op _ ihOperand => exact ihOperand.unary op
  | binary op _ _ _ ihLhs ihRhs => exact ihLhs.binary ihRhs op _
  | call callee _ _ _ => exact adds_application callee _ _
  | branch _ _ _ _ ihCond ihYes ihNo => exact ihCond.conditional ihYes ihNo
  | loop counter _ hLast hStep hBody ihFirst ihLast ihStep ihBody =>
      exact ihFirst.repetition
        (ihLast.mono fun _ hValue => hValue.isNothing hLast)
        (fun hPresent => (ihStep hPresent).mono fun _ hValue =>
          hValue.isNothing (hStep hPresent))
        (ihBody.mono fun _ hValue => hValue.isNothing hBody) counter
  | block _ _ ih =>
      exact (works_visitAll _ ih).adding fun values hAll =>
        adds_push ⟨values, rfl, hAll⟩

/-
  Stack and variables are kept in order.  A generator that does
  not resolve names, in any state, visits a node that has a value:
  when the visit succeeds, the stack is the old one with one value
  on it, which for a block is a list with one for each node, and
  every variable is bound as before, however loops are nested and
  whatever their counters are named.
-/
theorem visit_adds_one
    (node : Node)
    (hValued : node.Valued)
    (s s' : EmitState)
    (hLooks : s.generator.resolves = false)
    (hVisit : visit node s = .ok () s') :
    ∃ value,
      node.Yields value ∧
      s'.generator.stack = value :: s.generator.stack ∧
      ∀ x, s'.bindings.get? x = s.bindings.get? x := by
  rcases adds_visit hValued s s' hLooks hVisit with
    ⟨value, hYields, hSame⟩
  exact ⟨value, hYields, hSame.stack, hSame.bindings⟩

/-
  Two loops, one in the other, both of which count with the
  variable that is bound around them; the inner one assigns to it.
-/
def shadowingLoops : Node :=
  .block
    [.loop (.text "x") outerValue Node.zero .absent
      (.block
        [.loop (.text "x") outerValue Node.zero Node.one
          (.binary (.text "=") outerValue Node.one .origin),
         outerValue]),
     outerValue]
where
  outerValue : Node := .reference (.text "x") Node.floatType .origin

theorem shadowingLoops_valued : shadowingLoops.Valued := by
  have hName : shadowingLoops.outerValue.Valued := .reference _ _ _
  have hZero : Node.zero.Valued := .float _
  have hOne : Node.one.Valued := .float _
  have hInner := Node.Valued.loop (.text "x") hName hZero
    (fun _ => hOne) (.binary (.text "=") .origin hName hOne)
  have hBody : (Node.block [_, _]).Valued :=
    .block (List.cons_ne_nil _ _)
      (List.forall_mem_cons.mpr ⟨hInner, List.forall_mem_singleton.mpr hName⟩)
  have hAbsent : Node.absent.isPresent = true → Node.absent.Valued :=
    fun hPresent => Bool.noConfusion hPresent
  have hOuter := Node.Valued.loop (.text "x") hName hZero hAbsent hBody
  exact .block (List.cons_ne_nil _ _)
    (List.forall_mem_cons.mpr ⟨hOuter, List.forall_mem_singleton.mpr hName⟩)

theorem visit_adds_one_shadowing :
    shadowingLoops.Valued ∧
    (memoryState 1).generator.resolves = false ∧
    ∃ s' value,
      visit shadowingLoops (memoryState 1) = .ok () s' ∧
      shadowingLoops.Yields value ∧
      s'.generator.stack = [value] ∧
      s'.bindings.get? "x" = some (.register (.pointer .float) "x") := by
  rcases
      exists_of_succeeds (visit shadowingLoops) (memoryState 1)
        (fun _ => true) (by decide +kernel) with
    ⟨s', hVisit, _⟩
  rcases
      visit_adds_one shadowingLoops shadowingLoops_valued (memoryState 1)
        s' rfl hVisit with
    ⟨value, hYields, hStack, hBindings⟩
  exact ⟨shadowingLoops_valued, rfl, s', value, hVisit, hYields, hStack,
    hBindings "x"⟩

end Offside.Emit
