import Mathlib
import Offside.Proofs.Emit.Placing

/-
  Classes of steps of code generation that are closed under the
  forms of the language: what holds of the pieces of a visit
  holds of the visit.

  Key definitions include:
    * `Offside.Emit.Basic`
    * `Offside.Emit.Atoms`
    * `Offside.Emit.Walks`
    * `Offside.Emit.Covers`
    * `Offside.Node.IsLocal`
    * `Offside.Node.Part`
    * `Offside.Node.Uses`

  Main statements:
    * `Offside.Emit.Covers.visit`: the visit of a node is in the
      class of the names which the node uses.
    * `Offside.Emit.Walks.visit`: the same where no function is
      defined.
-/

------------------------------------------------------------
-- Pieces of Steps
------------------------------------------------------------

namespace Offside.Emit

variable {α : Type}

theorem part_eq_ok
    {found : Option α}
    {a : α}
    {s s' : EmitState}
    (hRun : part found s = .ok a s') :
    found = some a ∧ s' = s := by
  cases found with
  | none => cases hRun
  | some b =>
      cases hRun
      exact ⟨rfl, rfl⟩

theorem target_eq_ok
    {access : Access}
    {address : IR.Operand}
    {type : IR.Ty}
    {s s' : EmitState}
    (hRun : target access address s = .ok type s') :
    address.type? = some (.pointer type) ∧ s' = s := by
  rcases Steps.bind_eq_ok hRun with ⟨found, t, hPart, hRun₁⟩
  rcases part_eq_ok hPart with ⟨hType, rfl⟩
  cases found with
  | pointer kept =>
      cases hRun₁
      exact ⟨hType, rfl⟩
  | _ => cases hRun₁

/- What a step that reads memory has placed. -/
theorem load_eq_ok
    {pointer value : IR.Operand}
    {hint : String}
    {s s' : EmitState}
    (hRun : load pointer hint s = .ok value s') :
    ∃ type name,
      pointer.type? = some (.pointer type) ∧
      place hint (.load pointer) s = .ok name s' ∧
      value = .register type name := by
  rcases Steps.bind_eq_ok hRun with ⟨type, t, hTarget, hRun₁⟩
  rcases target_eq_ok hTarget with ⟨hType, rfl⟩
  rcases Steps.bind_eq_ok hRun₁ with ⟨name, u, hPlace, hDone⟩
  cases hDone
  exact ⟨type, name, hType, hPlace, rfl⟩

theorem store_eq_ok
    {value pointer : IR.Operand}
    {s s' : EmitState}
    (hRun : store value pointer s = .ok () s') :
    ∃ type name,
      pointer.type? = some (.pointer type) ∧
      value.type? = some type ∧
      place "" (.store value pointer) s = .ok name s' := by
  rcases Steps.bind_eq_ok hRun with ⟨type, t, hTarget, hRun₁⟩
  rcases target_eq_ok hTarget with ⟨hType, rfl⟩
  rcases Steps.bind_eq_ok hRun₁ with ⟨valueType, u, hPart, hRun₂⟩
  rcases part_eq_ok hPart with ⟨hValue, rfl⟩
  split at hRun₂
  · rename_i hSame
    rcases Steps.bind_eq_ok hRun₂ with ⟨name, v, hPlace, hDone⟩
    cases hDone
    exact ⟨type, name, hType, hSame ▸ hValue, hPlace⟩
  · cases hRun₂

/- A step whose result is not used. -/
theorem discard_eq
    (m : Emit α) :
    Functor.discard m = (m >>= fun _ => Pure.pure ()) := by
  funext s
  change (Function.const α PUnit.unit <$> m) s = _
  rw [Steps.map_apply, Steps.bind_apply]
  cases m s <;> rfl

/-
  What looking for a function ends with: the function, from a
  generator that resolves names.
-/
def resolved
    (name : String) :
    Emit (Option IR.Operand) := do
  if (← get).generator.resolves then
    return (← function? name).map IR.Function.operand
  return none

/- What an assignment ends with: the value is kept and is left. -/
def assigned
    (name : String)
    (value : IR.Operand) :
    Emit Unit := do
  match ← address? name with
  | none => throw (.unbound name)
  | some address =>
      store value address
      push value

end Offside.Emit

------------------------------------------------------------
-- Classes of Steps
------------------------------------------------------------

namespace Offside.Emit

/- A class with the steps on the stack and with all sequences. -/
structure Basic
    (C : (α : Type) → Emit α → Prop) :
    Prop where
  pure : ∀ {α} (a : α), C α (Pure.pure a)
  throw : ∀ {α} (e : EmitError), C α (MonadExcept.throw e)
  bind :
    ∀ {α β} {m : Emit α} {k : α → Emit β},
      C α m → (∀ a, C β (k a)) → C β (m >>= k)
  push : ∀ value, C _ (push value)
  pop : C _ pop
  print : ∀ text, C _ (print text)

namespace Basic

variable {C : (α : Type) → Emit α → Prop}
variable (hC : Basic C)
variable {α : Type}

include hC

theorem discard
    {m : Emit α}
    (hStep : C _ m) :
    C _ (Functor.discard m) := by
  rw [discard_eq]
  exact hC.bind hStep fun _ => hC.pure ()

theorem part
    (found : Option α) :
    C _ (Emit.part found) := by
  cases found with
  | none => exact hC.throw _
  | some a => exact hC.pure a

theorem taking
    {visit : Emit Unit}
    (hVisit : C _ visit) :
    C _ (Emit.taking visit) :=
  hC.bind hVisit fun _ => hC.pop

theorem takingValue
    {visit : Emit Unit}
    (hVisit : C _ visit)
    (cause : Invalid) :
    C _ (Emit.takingValue visit cause) := by
  refine hC.bind (hC.taking hVisit) fun value => ?_
  split
  · exact hC.bind (hC.throw _) fun _ => hC.pure value
  · exact hC.pure value

/- The step of a loop, which may be left out. -/
theorem amount
    {hasStep : Bool}
    {step : Emit Unit}
    (hStep : C _ step) :
    C _ (if hasStep then Emit.taking step
      else return IR.Operand.const .float Binary64.one) := by
  split
  · exact hC.taking hStep
  · exact hC.pure _

end Basic

/-
  A class with the pieces that visits are made of.  Variables
  are read and assigned only if they are among some names.
-/
structure Atoms
    (X : String → Prop)
    (C : (α : Type) → Emit α → Prop) :
    Prop extends Basic C where
  reading : ∀ name, X name.shown → C _ (reading name)
  assigned : ∀ name value, X name → C _ (assigned name value)
  getFunction : ∀ name, C _ (getFunction name)
  declare : ∀ proto, C _ (declareFunction proto)
  arithmetic : ∀ op lhs rhs hint, C _ (arithmetic op lhs rhs hint)
  comparison : ∀ op lhs rhs hint, C _ (comparison op lhs rhs hint)
  call : ∀ function args hint, C _ (call function args hint)

namespace Atoms

variable {X : String → Prop}
variable {C : (α : Type) → Emit α → Prop}
variable (hC : Atoms X C)

include hC

theorem assignment
    {lhs : Node}
    (hLhs : ∀ name type location,
      lhs = .reference name type location → X name.shown)
    {rhs : Emit Unit}
    (hRhs : C _ rhs) :
    C _ (Emit.assignment lhs rhs) := by
  cases lhs with
  | reference name type location =>
      exact hC.bind (hC.takingValue hRhs _) fun value =>
        hC.assigned _ value (hLhs _ _ _ rfl)
  | _ => exact hC.throw _

theorem unary
    (op : Value)
    {operand : Emit Unit}
    (hOperand : C _ operand) :
    C _ (Emit.unary op operand) := by
  refine hC.bind (hC.takingValue hOperand _) fun value =>
    hC.bind (hC.getFunction _) fun found => ?_
  cases found with
  | none => exact hC.throw _
  | some f => exact hC.bind (hC.call _ _ _) fun _ => hC.push _

theorem operation
    (op : String)
    (lhs rhs : IR.Operand) :
    C _ (Emit.operation op lhs rhs) := by
  unfold Emit.operation
  split
  · exact hC.arithmetic _ _ _ _
  · exact hC.arithmetic _ _ _ _
  · exact hC.arithmetic _ _ _ _
  · exact hC.comparison _ _ _ _
  · exact hC.comparison _ _ _ _
  · refine hC.bind (hC.getFunction _) fun found => ?_
    cases found with
    | none => exact hC.throw _
    | some f => exact hC.call _ _ _

theorem binary
    (op : Value)
    {lhsNode : Node}
    (hAssigned : ∀ name type location,
      lhsNode = .reference name type location → X name.shown)
    {lhs rhs : Emit Unit}
    (hLhs : C _ lhs)
    (hRhs : C _ rhs) :
    C _ (Emit.binary op lhsNode lhs rhs) := by
  unfold Emit.binary
  split
  · exact hC.assignment hAssigned hRhs
  · refine hC.bind (hC.taking hLhs) fun x =>
      hC.bind (hC.taking hRhs) fun y => ?_
    have hApply : C _ (do
        let result ← Emit.operation op.shown x y
        Emit.push result) :=
      hC.bind (hC.operation _ _ _) fun _ => hC.push _
    split
    · exact hC.bind (hC.throw _) fun _ => hApply
    · exact hApply

theorem application
    (callee : Value)
    (count : Nat)
    {args : Emit (List IR.Operand)}
    (hArgs : C _ args) :
    C _ (Emit.application callee count args) := by
  refine hC.bind (hC.getFunction _) fun found => ?_
  split
  · rename_i signature name
    have hCall : C _ (do
        let values ← args
        let result ← Emit.call (.function signature name) values "calltmp"
        Emit.push result) :=
      hC.bind hArgs fun _ =>
        hC.bind (hC.call _ _ _) fun _ => hC.push _
    split
    · exact hCall
    · exact hC.bind (hC.throw _) fun _ => hCall
  · exact hC.throw _

/- Nodes are visited one after another. -/
theorem visitAll
    {nodes : List Node}
    (hNodes : ∀ node ∈ nodes, C _ (visit node)) :
    C _ (Emit.visitAll nodes) := by
  induction nodes with
  | nil => exact hC.pure []
  | cons node nodes ih =>
      rcases List.forall_mem_cons.mp hNodes with ⟨hNode, hNodes⟩
      exact hC.bind (hC.taking hNode) fun _ =>
        hC.bind (ih hNodes) fun _ => hC.pure _

theorem visitArguments
    {nodes : List Node}
    (hNodes : ∀ node ∈ nodes, C _ (visit node)) :
    C _ (Emit.visitArguments nodes) := by
  induction nodes with
  | nil => exact hC.pure []
  | cons node nodes ih =>
      rcases List.forall_mem_cons.mp hNodes with ⟨hNode, hNodes⟩
      exact hC.bind (hC.takingValue hNode _) fun _ =>
        hC.bind (ih hNodes) fun _ => hC.pure _

end Atoms

end Offside.Emit

------------------------------------------------------------
-- Nodes
------------------------------------------------------------

namespace Offside.Node

/-
  A node whose visit stays in one function: no function is
  defined in it.  What is never visited may be anything.
-/
inductive IsLocal : Node → Prop
  | absent :
      IsLocal .absent
  | plain (location : Location) :
      IsLocal (.plain location)
  | float (value : Value) :
      IsLocal (.float value)
  | reference (name : Value) (type : String) (location : Location) :
      IsLocal (.reference name type location)
  | unary
      (op : Value) {operand : Node}
      (hOperand : IsLocal operand) :
      IsLocal (.unary op operand)
  | binary
      (op : Value) {lhs rhs : Node} (location : Location)
      (hLhs : IsLocal lhs)
      (hRhs : IsLocal rhs) :
      IsLocal (.binary op lhs rhs location)
  | call
      (callee : Value) {args : List Node} (location : Location)
      (hArgs : ∀ arg ∈ args, IsLocal arg) :
      IsLocal (.call callee args location)
  | branch
      {cond yes no : Node} (location : Location)
      (hCond : IsLocal cond)
      (hYes : IsLocal yes)
      (hNo : IsLocal no) :
      IsLocal (.branch cond yes no location)
  | loop
      (counter : Value) {first last step body : Node}
      (hFirst : IsLocal first)
      (hLast : IsLocal last)
      (hStep : IsLocal step)
      (hBody : IsLocal body) :
      IsLocal (.loop counter first last step body)
  | declare (names : List (Value × Node)) (type : String) (body : Node) :
      IsLocal (.declare names type body)
  | prototype
      (name : Value) (type : String) (args : List Node) (line : Nat) :
      IsLocal (.prototype name type args line)
  | ret (value : Node) :
      IsLocal (.ret value)
  | program (name : String) (nodes : List Node) :
      IsLocal (.program name nodes)
  | block
      {nodes : List Node}
      (hNodes : ∀ node ∈ nodes, IsLocal node) :
      IsLocal (.block nodes)

/- A node is visited as a part of another one. -/
inductive Part : Node → Node → Prop
  | operand (op : Value) (operand : Node) :
      Part operand (.unary op operand)
  | lhs (op : Value) (lhs rhs : Node) (location : Location) :
      Part lhs (.binary op lhs rhs location)
  | rhs (op : Value) (lhs rhs : Node) (location : Location) :
      Part rhs (.binary op lhs rhs location)
  | arg
      (callee : Value) {args : List Node} (location : Location)
      {arg : Node}
      (hMem : arg ∈ args) :
      Part arg (.call callee args location)
  | cond (cond yes no : Node) (location : Location) :
      Part cond (.branch cond yes no location)
  | yes (cond yes no : Node) (location : Location) :
      Part yes (.branch cond yes no location)
  | no (cond yes no : Node) (location : Location) :
      Part no (.branch cond yes no location)
  | first (counter : Value) (first last step body : Node) :
      Part first (.loop counter first last step body)
  | last (counter : Value) (first last step body : Node) :
      Part last (.loop counter first last step body)
  | step (counter : Value) (first last step body : Node) :
      Part step (.loop counter first last step body)
  | body (counter : Value) (first last step body : Node) :
      Part body (.loop counter first last step body)
  | definition (proto body : Node) :
      Part body (.function proto body)
  | node
      {nodes : List Node} {node : Node}
      (hMem : node ∈ nodes) :
      Part node (.block nodes)

theorem Part.sizeOf_lt
    {child node : Node}
    (hPart : Part child node) :
    sizeOf child < sizeOf node := by
  cases hPart with
  | arg callee location hMem =>
      have hLess := List.sizeOf_lt_of_mem hMem
      simp only [call.sizeOf_spec]
      omega
  | node hMem =>
      have hLess := List.sizeOf_lt_of_mem hMem
      simp only [block.sizeOf_spec]
      omega
  | _ => simp +arith

theorem IsLocal.part
    {child node : Node}
    (hLocal : IsLocal node)
    (hPart : Part child node) :
    IsLocal child := by
  cases hPart with
  | arg callee location hMem =>
      cases hLocal with
      | call _ _ hArgs => exact hArgs _ hMem
  | node hMem =>
      cases hLocal with
      | block hNodes => exact hNodes _ hMem
  | definition => cases hLocal
  | _ =>
      cases hLocal
      assumption

/-
  A variable is read or assigned in what is visited, outside of
  loops that count with it.
-/
inductive Uses
    (x : String) :
    Node →
    Prop
  | reference
      {name : Value} (type : String) (location : Location)
      (hName : name.shown = x) :
      Uses x (.reference name type location)
  | unary
      (op : Value) {operand : Node}
      (hOperand : Uses x operand) :
      Uses x (.unary op operand)
  | lhs
      (op : Value) {lhs : Node} (rhs : Node) (location : Location)
      (hLhs : Uses x lhs) :
      Uses x (.binary op lhs rhs location)
  | rhs
      (op : Value) (lhs : Node) {rhs : Node} (location : Location)
      (hRhs : Uses x rhs) :
      Uses x (.binary op lhs rhs location)
  | call
      (callee : Value) {args : List Node} (location : Location)
      {arg : Node}
      (hMem : arg ∈ args)
      (hArg : Uses x arg) :
      Uses x (.call callee args location)
  | cond
      {cond : Node} (yes no : Node) (location : Location)
      (hCond : Uses x cond) :
      Uses x (.branch cond yes no location)
  | yes
      (cond : Node) {yes : Node} (no : Node) (location : Location)
      (hYes : Uses x yes) :
      Uses x (.branch cond yes no location)
  | no
      (cond yes : Node) {no : Node} (location : Location)
      (hNo : Uses x no) :
      Uses x (.branch cond yes no location)
  | first
      (counter : Value) {first : Node} (last step body : Node)
      (hFirst : Uses x first) :
      Uses x (.loop counter first last step body)
  | last
      {counter : Value} (first : Node) {last : Node} (step body : Node)
      (hOther : x ≠ counter.shown)
      (hLast : Uses x last) :
      Uses x (.loop counter first last step body)
  | step
      {counter : Value} (first last : Node) {step : Node} (body : Node)
      (hOther : x ≠ counter.shown)
      (hStep : Uses x step) :
      Uses x (.loop counter first last step body)
  | body
      {counter : Value} (first last step : Node) {body : Node}
      (hOther : x ≠ counter.shown)
      (hBody : Uses x body) :
      Uses x (.loop counter first last step body)
  | definition
      (proto : Node) {body : Node}
      (hBody : Uses x body) :
      Uses x (.function proto body)
  | block
      {nodes : List Node} {node : Node}
      (hMem : node ∈ nodes)
      (hNode : Uses x node) :
      Uses x (.block nodes)

end Offside.Node

------------------------------------------------------------
-- The Walk
------------------------------------------------------------

namespace Offside.Emit

/-
  Classes, one for every set of names, with the pieces of visits,
  with branches on their parts, and with those loops and
  definitions that may occur.  In a loop the counter is one of
  the names.
-/
structure Covers
    (L : Node → Prop)
    (C : (String → Prop) → (α : Type) → Emit α → Prop) :
    Prop where
  atoms : ∀ X, Atoms X (C X)
  conditional :
    ∀ {X cond yes no}, C X _ cond → C X _ yes → C X _ no →
      C X _ (conditional cond yes no)
  repetition :
    ∀ {X counter first last step body},
      L (.loop counter first last step body) →
      C X _ (visit first) →
      C (fun x => X x ∨ x = counter.shown) _ (visit last) →
      C (fun x => X x ∨ x = counter.shown) _ (visit step) →
      C (fun x => X x ∨ x = counter.shown) _ (visit body) →
        C X _ (visit (.loop counter first last step body))
  definition :
    ∀ {X proto body}, L (.function proto body) →
      C X _ (visit body) → C X _ (definition proto (visit body))
  part : ∀ {child node}, L node → Node.Part child node → L child

/-
  The visit of a node is in the class of the names which the
  node uses.
-/
theorem Covers.visit
    {L : Node → Prop}
    {C : (String → Prop) → (α : Type) → Emit α → Prop}
    (hC : Covers L C)
    {node : Node}
    (hNode : L node)
    {X : String → Prop}
    (hUses : ∀ x, node.Uses x → X x) :
    C X _ (visit node) := by
  have hAtoms := hC.atoms
  induction hSize : sizeOf node using Nat.strong_induction_on
    generalizing node X with
  | _ size ih =>
      have hParts : ∀ {child : Node} {Y : String → Prop},
          Node.Part child node → (∀ x, child.Uses x → Y x) →
            C Y _ (Emit.visit child) :=
        fun hPart hUses => ih _ (hSize ▸ hPart.sizeOf_lt)
          (hC.part hNode hPart) hUses rfl
      cases node with
      | absent => exact (hAtoms X).print _
      | plain location => exact (hAtoms X).print _
      | float value => exact (hAtoms X).push _
      | reference name type location =>
          exact (hAtoms X).reading name (hUses _ (.reference _ _ rfl))
      | unary op operand =>
          exact (hAtoms X).unary op
            (hParts (.operand _ _) fun x hUse => hUses x (.unary _ hUse))
      | binary op lhs rhs location =>
          refine (hAtoms X).binary op ?_
            (hParts (.lhs _ _ _ _) fun x hUse =>
              hUses x (.lhs _ _ _ hUse))
            (hParts (.rhs _ _ _ _) fun x hUse =>
              hUses x (.rhs _ _ _ hUse))
          rintro name type location rfl
          exact hUses _ (.lhs _ _ _ (.reference _ _ rfl))
      | call callee args location =>
          exact (hAtoms X).application callee _
            ((hAtoms X).visitArguments fun arg hMem =>
              hParts (.arg _ _ hMem) fun x hUse =>
                hUses x (.call _ _ hMem hUse))
      | branch cond yes no location =>
          exact hC.conditional
            (hParts (.cond _ _ _ _) fun x hUse =>
              hUses x (.cond _ _ _ hUse))
            (hParts (.yes _ _ _ _) fun x hUse =>
              hUses x (.yes _ _ _ hUse))
            (hParts (.no _ _ _ _) fun x hUse =>
              hUses x (.no _ _ _ hUse))
      | loop counter first last step body =>
          -- A name in the loop is the counter's or used by the loop.
          refine hC.repetition hNode
            (hParts (.first _ _ _ _ _) fun x hUse =>
              hUses x (.first _ _ _ _ hUse))
            (hParts (.last _ _ _ _ _) fun x hUse => ?_)
            (hParts (.step _ _ _ _ _) fun x hUse => ?_)
            (hParts (.body _ _ _ _ _) fun x hUse => ?_)
          · exact or_iff_not_imp_right.mpr fun hOther =>
              hUses x (.last _ _ _ hOther hUse)
          · exact or_iff_not_imp_right.mpr fun hOther =>
              hUses x (.step _ _ _ hOther hUse)
          · exact or_iff_not_imp_right.mpr fun hOther =>
              hUses x (.body _ _ _ hOther hUse)
      | declare names type body => exact (hAtoms X).throw _
      | prototype name type args line =>
          exact (hAtoms X).discard ((hAtoms X).declare _)
      | function proto body =>
          exact (hAtoms X).discard (hC.definition hNode
            (hParts (.definition _ _) fun x hUse =>
              hUses x (.definition _ hUse)))
      | ret value => exact (hAtoms X).pure ()
      | program name nodes => exact (hAtoms X).throw _
      | block nodes =>
          exact (hAtoms X).bind
            ((hAtoms X).visitAll fun node hMem =>
              hParts (.node hMem) fun x hUse =>
                hUses x (.block hMem hUse))
            fun _ => (hAtoms X).push _

/-
  Classes, one for every set of names, with the pieces of visits
  and with branches and loops on their parts.
-/
structure Walks
    (C : (String → Prop) → (α : Type) → Emit α → Prop) :
    Prop where
  atoms : ∀ X, Atoms X (C X)
  conditional :
    ∀ {X cond yes no}, C X _ cond → C X _ yes → C X _ no →
      C X _ (conditional cond yes no)
  repetition :
    ∀ {X} {counter : Value} {hasStep first last step body},
      C X _ first →
      C (fun x => X x ∨ x = counter.shown) _ last →
      C (fun x => X x ∨ x = counter.shown) _ step →
      C (fun x => X x ∨ x = counter.shown) _ body →
        C X _ (repetition counter hasStep first last step body)

/- The visit of a node that stays in one function is in the class. -/
theorem Walks.visit
    {C : (String → Prop) → (α : Type) → Emit α → Prop}
    (hC : Walks C)
    {node : Node}
    (hLocal : node.IsLocal)
    {X : String → Prop}
    (hUses : ∀ x, node.Uses x → X x) :
    C X _ (visit node) := by
  have hCovers : Covers Node.IsLocal C := by
    refine ⟨hC.atoms, hC.conditional, ?_, ?_, Node.IsLocal.part⟩
    · intro X counter first last step body _
      exact hC.repetition
    · intro X proto body hFunction
      cases hFunction
  exact hCovers.visit hLocal hUses

end Offside.Emit
