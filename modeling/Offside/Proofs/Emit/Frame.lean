import Mathlib
import Offside.Proofs.Emit.Keeping

/-
  Classes of steps with the steps that place code, and closed
  classes, with all elementary steps on a generator; both with
  every sequence of their steps.

  Key definitions include:
    * `Offside.Emit.Placing`
    * `Offside.Emit.Closed`
    * `Offside.Emit.counting`
    * `Offside.Emit.entering`
    * `Offside.Emit.Calm`

  Main statements:
    * `Offside.Emit.Closed.atoms`, `Offside.Emit.Closed.conditional`
      and `Offside.Emit.Closed.repetition`: with its parts, and
      with the look at variables in it, a form of the language is
      in the class.
    * `Offside.Emit.repetition_eq`, `Offside.Emit.definition_eq`:
      where loops and definitions bind variables.
    * `Offside.Emit.Calm.closed`: the steps that keep a relation
      which does not look at the module, the cursor, the stack and
      what is printed.
-/

------------------------------------------------------------
-- Closed Classes
------------------------------------------------------------

namespace Offside.Emit

/-
  A class with the steps that place code, which work on the
  module and the cursor only, and with all their sequences.
-/
structure Placing
    (C : (α : Type) → Emit α → Prop) :
    Prop where
  pure : ∀ {α} (a : α), C α (Pure.pure a)
  throw : ∀ {α} (e : EmitError), C α (MonadExcept.throw e)
  bind :
    ∀ {α β} {m : Emit α} {k : α → Emit β},
      C α m → (∀ a, C β (k a)) → C β (m >>= k)
  reads :
    ∀ {α} {k : Generator → Emit α},
      (∀ g, C α (k g)) → C α (get >>= fun s => k s.generator)
  changes :
    ∀ (module : Generator → IR.Module)
      (cursor : Generator → Option IR.Cursor),
      C Unit (modify fun s =>
        { s with
          generator :=
            { s.generator with
              module := module s.generator
              cursor := cursor s.generator } })

/-
  A class with the steps that work on the generator, which may
  not change its prototypes, and with all their sequences.
-/
structure Closed
    (C : (α : Type) → Emit α → Prop) :
    Prop extends Basic C, Placing C

namespace Placing

variable {C : (α : Type) → Emit α → Prop}
variable (hC : Placing C)

include hC

theorem part
    {α : Type}
    (found : Option α) :
    C _ (Emit.part found) := by
  cases found with
  | none => exact hC.throw _
  | some a => exact hC.pure a

theorem modifyModule
    (change : IR.Module → IR.Module) :
    C _ (Emit.modifyModule change) :=
  hC.changes (fun g => change g.module) _

theorem moveTo
    (c : IR.Cursor) :
    C _ (Emit.moveTo c) :=
  hC.changes _ fun _ => some c

theorem moveToEnd :
    C _ Emit.moveToEnd :=
  hC.changes Generator.module
    fun g => g.cursor.map fun c : IR.Cursor =>
      { c with
        anchor :=
          ((g.module.blockAt? c).map fun b => b.body.length).getD 0 }

/- The cursor is used, and it is an error that there is none. -/
theorem atCursor
    {α : Type}
    {p : Emit α}
    (error : EmitError)
    (f : IR.Cursor → α)
    (hSame : p = get >>= fun s =>
      s.generator.cursor.elim (MonadExcept.throw error) fun c =>
        return f c) :
    C α p := by
  rw [hSame]
  refine hC.reads (k := fun g =>
    g.cursor.elim (MonadExcept.throw error) fun c => return f c)
    fun g => ?_
  cases g.cursor with
  | none => exact hC.throw error
  | some c => exact hC.pure (f c)

theorem cursor :
    C _ Emit.cursor := by
  apply hC.atCursor .noBlock id
  refine congrArg (get >>= ·) (funext fun s => ?_)
  cases s.generator.cursor <;> rfl

theorem currentFunction :
    C _ Emit.currentFunction := by
  apply hC.atCursor .missingPart IR.Cursor.function
  refine congrArg (get >>= ·) (funext fun s => ?_)
  cases s.generator.cursor <;> rfl

theorem currentBlock :
    C _ Emit.currentBlock :=
  hC.bind hC.cursor fun _ => hC.pure _

theorem function?
    (name : String) :
    C _ (Emit.function? name) :=
  hC.reads (k := fun g => return g.module.function? name)
    fun _ => hC.pure _

theorem resolved
    (name : String) :
    C _ (Emit.resolved name) := by
  refine hC.reads (k := fun g => if g.resolves then do
      return (← Emit.function? name).map IR.Function.operand
    else return none) fun g => ?_
  split
  · exact hC.bind (hC.function? _) fun _ => hC.pure _
  · exact hC.pure _

theorem register
    (function name : String) :
    C _ (Emit.register function name) :=
  hC.reads (k := fun g => do
      Emit.modifyModule fun _ => (g.module.register function name).2
      return (g.module.register function name).1)
    fun _ => hC.bind (hC.modifyModule _) fun _ => hC.pure _

theorem attachBlock
    (function label : String) :
    C _ (Emit.attachBlock function label) :=
  hC.modifyModule _

theorem appendBlock
    (function label : String) :
    C _ (Emit.appendBlock function label) :=
  hC.bind (hC.register _ _) fun _ =>
    hC.bind (hC.modifyModule _) fun _ => hC.pure _

theorem insertAt
    (c : IR.Cursor)
    (name : String)
    (op : IR.Op) :
    C _ (Emit.insertAt c name op) :=
  hC.bind (hC.modifyModule _) fun _ => hC.moveTo _

theorem place
    (hint : String)
    (op : IR.Op) :
    C _ (Emit.place hint op) :=
  hC.bind hC.cursor fun _ => hC.bind (hC.register _ _) fun _ =>
    hC.bind (hC.insertAt _ _ _) fun _ => hC.pure _

theorem terminate
    (op : IR.Op) :
    C _ (Emit.terminate op) := by
  refine hC.bind hC.cursor fun c => hC.bind (hC.register _ _) fun name =>
    hC.reads (k := fun g =>
      if (g.module.blockAt? c).any IR.Block.isTerminated then do
        MonadExcept.throw EmitError.terminated
        Emit.insertAt c name op
      else Emit.insertAt c name op) fun g => ?_
  split
  · exact hC.bind (hC.throw _) fun _ => hC.insertAt _ _ _
  · exact hC.insertAt _ _ _

end Placing

end Offside.Emit

------------------------------------------------------------
-- Instructions
------------------------------------------------------------

namespace Offside.Emit.Placing

variable {C : (α : Type) → Emit α → Prop}
variable (hC : Placing C)

include hC

theorem allocate
    (hint type : String) :
    C _ (Emit.allocate hint type) := by
  refine hC.bind hC.currentFunction fun function => ?_
  split
  · exact hC.throw _
  · exact hC.throw _
  · exact hC.bind (hC.register _ _) fun _ =>
      hC.bind (hC.modifyModule _) fun _ => hC.pure _

theorem target
    (access : Access)
    (address : IR.Operand) :
    C _ (Emit.target access address) := by
  refine hC.bind (hC.part _) fun type => ?_
  split
  · exact hC.pure _
  · exact hC.throw _

theorem load
    (pointer : IR.Operand)
    (hint : String) :
    C _ (Emit.load pointer hint) :=
  hC.bind (hC.target _ _) fun _ =>
    hC.bind (hC.place _ _) fun _ => hC.pure _

theorem store
    (value pointer : IR.Operand) :
    C _ (Emit.store value pointer) := by
  refine hC.bind (hC.target _ _) fun type =>
    hC.bind (hC.part _) fun valueType => ?_
  have hPlace : C _ (do let _ ← Emit.place "" (.store value pointer)) :=
    hC.bind (hC.place _ _) fun _ => hC.pure _
  split
  · exact hPlace
  · exact hC.bind (hC.throw _) fun _ => hPlace

theorem arithmetic
    (op : IR.Arithmetic)
    (lhs rhs : IR.Operand)
    (hint : String) :
    C _ (Emit.arithmetic op lhs rhs hint) := by
  refine hC.bind (hC.part _) fun lhsType =>
    hC.bind (hC.part _) fun rhsType => ?_
  have hPlace : C _ (do
      let name ← Emit.place hint (.arithmetic op lhs rhs)
      return IR.Operand.register lhsType name) :=
    hC.bind (hC.place _ _) fun _ => hC.pure _
  split
  · exact hPlace
  · exact hC.bind (hC.throw _) fun _ => hPlace

theorem compare
    (op : IR.Comparison)
    (lhs rhs : IR.Operand)
    (hint : String) :
    C _ (Emit.compare op lhs rhs hint) :=
  hC.bind (hC.part _) fun _ =>
    hC.bind (hC.place _ _) fun _ => hC.pure _

theorem toFloat
    (value : IR.Operand)
    (hint : String) :
    C _ (Emit.toFloat value hint) :=
  hC.bind (hC.place _ _) fun _ => hC.pure _

theorem checkArguments
    (index : Nat)
    (types : List IR.Ty)
    (args : List IR.Operand) :
    C _ (Emit.checkArguments index types args) := by
  induction types generalizing index args with
  | nil => exact hC.pure ()
  | cons type types ih =>
      cases args with
      | nil => exact hC.throw _
      | cons arg args =>
          refine hC.bind (hC.part _) fun found => ?_
          split
          · exact ih (index + 1) args
          · exact hC.bind (hC.throw _) fun _ => ih (index + 1) args

theorem call
    (function : IR.Operand)
    (args : List IR.Operand)
    (hint : String) :
    C _ (Emit.call function args hint) := by
  cases function with
  | function signature callee =>
      exact hC.bind (hC.checkArguments 1 _ _) fun _ =>
        hC.bind (hC.place _ _) fun _ => hC.pure _
  | const type value => exact hC.throw _
  | register type name => exact hC.throw _
  | many items => exact hC.throw _

theorem nameParams
    (function : String)
    (index : Nat)
    (args : List Node) :
    C _ (Emit.nameParams function index args) := by
  induction args generalizing index with
  | nil => exact hC.pure ()
  | cons arg args ih =>
      exact hC.bind (hC.part _) fun _ =>
        hC.bind (hC.modifyModule _) fun _ => ih (index + 1)

theorem declareFunction
    (proto : Node) :
    C _ (Emit.declareFunction proto) := by
  refine hC.bind (hC.part _) fun args => hC.bind (hC.part _) fun name => ?_
  have hAdd : C _ (do
      Emit.modifyModule fun m =>
        m.add (.declare name.shown (.ofArity args.length))
      Emit.nameParams name.shown 0 args
      return (IR.Function.declare name.shown
        (.ofArity args.length)).operand) :=
    hC.bind (hC.modifyModule _) fun _ =>
      hC.bind (hC.nameParams _ _ _) fun _ => hC.pure _
  refine hC.reads (k := fun g =>
    if g.module.isFree name.shown then _
    else MonadExcept.throw _ >>= fun _ => _) fun g => ?_
  split
  · exact hAdd
  · exact hC.bind (hC.throw _) fun _ => hAdd

theorem closeLoop
    (counter : String)
    (address step last : IR.Operand)
    (head : String) :
    C _ (Emit.closeLoop counter address step last head) :=
  hC.bind (hC.load _ _) fun _ =>
    hC.bind (hC.arithmetic _ _ _ _) fun _ =>
    hC.bind (hC.store _ _) fun _ =>
    hC.bind (hC.compare _ _ _ _) fun _ =>
    hC.bind hC.currentFunction fun _ =>
    hC.bind (hC.appendBlock _ _) fun _ =>
    hC.bind (hC.terminate _) fun _ => hC.moveTo _

end Offside.Emit.Placing

------------------------------------------------------------
-- Forms of the Language
------------------------------------------------------------

namespace Offside.Emit.Closed

variable {C : (α : Type) → Emit α → Prop}
variable (hC : Closed C)

include hC

/-
  The forms that lay no branches, if variables and functions are
  looked up in the class.
-/
theorem atoms
    {X : String → Prop}
    (hAddress : ∀ name, X name → C _ (Emit.address? name))
    (hFind : ∀ name, C _ (Emit.getFunction name)) :
    Atoms X C where
  toBasic := hC.toBasic
  reading := by
    intro name hName
    refine hC.bind (hAddress _ hName) fun found => ?_
    cases found with
    | none => exact hC.throw _
    | some address => exact hC.bind (hC.load _ _) fun _ => hC.push _
  assigned := by
    intro name value hName
    refine hC.bind (hAddress _ hName) fun found => ?_
    cases found with
    | none => exact hC.throw _
    | some address => exact hC.bind (hC.store _ _) fun _ => hC.push _
  getFunction := hFind
  declare := hC.declareFunction
  arithmetic := hC.arithmetic
  comparison := fun _ _ _ _ =>
    hC.bind (hC.compare _ _ _ _) fun _ => hC.toFloat _ _
  call := hC.call

theorem conditional
    {cond yes no : Emit Unit}
    (hCond : C _ cond)
    (hYes : C _ yes)
    (hNo : C _ no) :
    C _ (Emit.conditional cond yes no) := by
  refine hC.bind (hC.takingValue hCond _) fun value =>
    hC.bind (hC.compare _ _ _ _) fun test =>
    hC.bind hC.currentFunction fun function =>
    hC.bind (hC.appendBlock _ _) fun yesLabel =>
    hC.bind (hC.register _ _) fun noLabel =>
    hC.bind (hC.register _ _) fun meetLabel =>
    hC.bind (hC.terminate _) fun _ =>
    hC.bind (hC.moveTo _) fun _ => ?_
  refine hC.bind (hC.takingValue hYes _) fun yesValue =>
    hC.bind (hC.terminate _) fun _ =>
    hC.bind hC.currentBlock fun yesEnd =>
    hC.bind hC.currentFunction fun _ =>
    hC.bind (hC.attachBlock _ _) fun _ =>
    hC.bind (hC.moveTo _) fun _ => ?_
  refine hC.bind (hC.takingValue hNo _) fun noValue =>
    hC.bind hC.currentBlock fun noEnd =>
    hC.bind (hC.terminate _) fun _ =>
    hC.bind hC.currentFunction fun _ =>
    hC.bind (hC.attachBlock _ _) fun _ =>
    hC.bind (hC.moveTo _) fun _ => ?_
  exact hC.bind (hC.place _ _) fun _ => hC.push _

end Offside.Emit.Closed

------------------------------------------------------------
-- Loops
------------------------------------------------------------

namespace Offside.Emit

/-
  The part of a loop in which its counter is bound.  After it the
  variable is bound as before, unless generation has stopped.
-/
def counting
    (counter : String)
    (address : IR.Operand)
    (inner : Emit Bool) :
    Emit Unit := do
  let old ← address? counter
  setBinding counter address
  if ← inner then
    modify fun s => { s with bindings := s.bindings.restore counter old }
    push (.zero .float)

/- What is generated in this part; whether it was all. -/
def turning
    (counter : String)
    (hasStep : Bool)
    (last step body : Emit Unit)
    (address : IR.Operand)
    (loopLabel : String) :
    Emit Bool := do
  let value ← taking body
  if value.isNothing then
    return false
  let step ← (if hasStep then taking step
    else return .const .float Binary64.one)
  if step.isNothing then
    return false
  let last ← taking last
  if last.isNothing then
    return false
  closeLoop counter address step last loopLabel
  return true

theorem counting_turning
    (counter : String)
    (hasStep : Bool)
    (last step body : Emit Unit)
    (address : IR.Operand)
    (loopLabel : String) :
    counting counter address
        (turning counter hasStep last step body address loopLabel) =
      (do
        let old ← address? counter
        setBinding counter address
        let value ← taking body
        if value.isNothing then
          return
        let step ← (if hasStep then taking step
          else return .const .float Binary64.one)
        if step.isNothing then
          return
        let last ← taking last
        if last.isNothing then
          return
        closeLoop counter address step last loopLabel
        modify fun s =>
          { s with bindings := s.bindings.restore counter old }
        push (.zero .float)) := by
  have hStop : ∀ {c : Prop} [Decidable c] (m : Emit Bool)
      (k : Bool → Emit Unit),
      (if c then pure false else m) >>= k =
        if c then k false else m >>= k := by
    intro c _ m k
    split
    · exact pure_bind _ _
    · rfl
  simp only [counting, turning, bind_assoc, hStop, pure_bind]
  simp

/- A loop binds its counter after its first value is kept. -/
theorem repetition_eq
    (counter : Value)
    (hasStep : Bool)
    (first last step body : Emit Unit) :
    repetition counter hasStep first last step body =
      (do
        let address ← allocate counter.shown "float"
        moveToEnd
        let start ← takingValue first .firstValue
        store start address
        let function ← currentFunction
        let loopLabel ← appendBlock function "loop"
        terminate (.jump loopLabel)
        moveToStart function loopLabel
        counting counter.shown address
          (turning counter.shown hasStep last step body address
            loopLabel)) := by
  simp only [counting_turning]
  rfl

namespace Closed

variable {C : (α : Type) → Emit α → Prop}
variable (hC : Closed C)

include hC

/- Memory for numbers is reserved under a new name. -/
theorem allocating
    {β : Type}
    {k : IR.Operand → Emit β}
    (hint : String)
    (hNext : ∀ name, C _ (k (.register (.pointer .float) name))) :
    C _ (Emit.allocate hint "float" >>= k) := by
  have hFloat : Emit.allocate hint "float" = (do
      let function ← Emit.currentFunction
      let name ← Emit.register function hint
      Emit.modifyModule fun m => m.modify function fun f =>
        f.modifyEntry fun b => b.insert 0 ⟨name, .alloca .float⟩
      return .register (.pointer .float) name) := rfl
  simp only [hFloat, bind_assoc, pure_bind]
  exact hC.bind hC.currentFunction fun _ =>
    hC.bind (hC.register _ _) fun _ =>
      hC.bind (hC.modifyModule _) fun _ => hNext _

theorem turning
    {counter : String}
    {hasStep : Bool}
    {last step body : Emit Unit}
    {address : IR.Operand}
    {loopLabel : String}
    (hLast : C _ last)
    (hStep : C _ step)
    (hBody : C _ body) :
    C _ (Emit.turning counter hasStep last step body address loopLabel) := by
  refine hC.bind (hC.taking hBody) fun value => ?_
  split
  · exact hC.pure false
  refine hC.bind (hC.amount hStep) fun amount => ?_
  split
  · exact hC.pure false
  refine hC.bind (hC.taking hLast) fun limit => ?_
  split
  · exact hC.pure false
  exact hC.bind (hC.closeLoop _ _ _ _ _) fun _ => hC.pure true

/- A loop up to the part in which its counter is bound. -/
theorem repetition_of_counting
    {counter : Value}
    {hasStep : Bool}
    {first last step body : Emit Unit}
    (hCounting : ∀ name loopLabel,
      C _ (counting counter.shown (.register (.pointer .float) name)
        (Emit.turning counter.shown hasStep last step body
          (.register (.pointer .float) name) loopLabel)))
    (hFirst : C _ first) :
    C _ (Emit.repetition counter hasStep first last step body) := by
  rw [repetition_eq]
  exact hC.allocating _ fun name =>
    hC.bind hC.moveToEnd fun _ =>
    hC.bind (hC.takingValue hFirst _) fun start =>
    hC.bind (hC.store _ _) fun _ =>
    hC.bind hC.currentFunction fun function =>
    hC.bind (hC.appendBlock _ _) fun head =>
    hC.bind (hC.terminate _) fun _ =>
    hC.bind (hC.moveTo _) fun _ => hCounting name head

/-
  The parts of a loop in which its counter is bound are in a
  class of their own.
-/
theorem repetition
    {D : (α : Type) → Emit α → Prop}
    (hD : Closed D)
    {counter : Value}
    {hasStep : Bool}
    {first last step body : Emit Unit}
    (hCounting : ∀ name inner, D Bool inner →
      C _ (counting counter.shown (.register (.pointer .float) name)
        inner))
    (hFirst : C _ first)
    (hLast : D _ last)
    (hStep : D _ step)
    (hBody : D _ body) :
    C _ (Emit.repetition counter hasStep first last step body) :=
  hC.repetition_of_counting
    (fun name _ => hCounting name _ (hD.turning hLast hStep hBody)) hFirst

end Closed

end Offside.Emit

------------------------------------------------------------
-- Definitions
------------------------------------------------------------

namespace Offside.Emit

/-
  A definition up to its arguments: the function is found, and
  code goes to a new block of it.
-/
def entering
    (proto : Node) :
    Emit (IR.Operand × IR.Function) := do
  let name ← part proto.givenName?
  noteProto name.shown proto
  match ← getFunction name.shown with
  | none => throw (.invalid .function)
  | some operand =>
      let label ← appendBlock name.shown "entry"
      moveToStart name.shown label
      let f ← part (← function? name.shown)
      return (operand, f)

/- A definition binds its arguments before its body is visited. -/
theorem definition_eq
    (proto : Node)
    (body : Emit Unit) :
    definition proto body =
      (do
        let (operand, f) ← entering proto
        bindArguments (f.params.zip f.arguments)
        let value ← taking body
        terminate
          (.ret (if value.isNothing then .zero .float else value))
        return operand) := by
  unfold definition entering
  simp only [bind_assoc]
  refine bind_congr fun name => bind_congr fun _ => bind_congr fun found => ?_
  cases found with
  | none =>
      funext s
      rfl
  | some operand => simp only [bind_assoc, pure_bind]

namespace Closed

variable {C : (α : Type) → Emit α → Prop}
variable (hC : Closed C)

include hC

theorem entering
    {proto : Node}
    (hNote : ∀ name, C _ (noteProto name proto))
    (hFind : ∀ name, C _ (Emit.getFunction name)) :
    C _ (Emit.entering proto) := by
  refine hC.bind (hC.part _) fun name => hC.bind (hNote _) fun _ =>
    hC.bind (hFind _) fun found => ?_
  cases found with
  | none => exact hC.throw _
  | some operand =>
      exact hC.bind (hC.appendBlock _ _) fun label =>
        hC.bind (hC.moveTo _) fun _ => hC.bind (hC.function? _)
          fun _ => hC.bind (hC.part _) fun _ => hC.pure _

theorem bindArguments
    (hBind : ∀ hint name,
      C _ (setBinding hint (.register (.pointer .float) name)))
    (pairs : List (String × IR.Operand)) :
    C _ (Emit.bindArguments pairs) := by
  induction pairs with
  | nil => exact hC.pure ()
  | cons pair pairs ih =>
      simp only [Emit.bindArguments, Emit.allocateHere, bind_assoc,
        pure_bind]
      exact hC.bind (hC.place _ _) fun name =>
        hC.bind (hC.store _ _) fun _ => hC.bind (hBind _ _) fun _ => ih

end Closed

end Offside.Emit

------------------------------------------------------------
-- Relations That Are Calm
------------------------------------------------------------

namespace Offside.Emit

/-
  Relations that do not look at the module, the cursor, the
  stack and what is printed.
-/
structure Calm
    (R E : EmitState → EmitState → Prop) :
    Prop extends Sequential R E where
  generator :
    ∀ s module cursor stack,
      R s
        { s with
          generator :=
            { s.generator with
              module := module, cursor := cursor, stack := stack } }
  printed : ∀ s text, R s { s with printed := text }

namespace Calm

variable {R E : EmitState → EmitState → Prop}
variable (hR : Calm R E)

include hR

theorem closed :
    Closed fun _ m => Keeps R E m where
  toBasic :=
    hR.toSequential.basic (fun s stack => hR.generator s _ _ stack)
      hR.printed
  reads := fun hRest => hR.bind hR.get fun s => hRest s.generator
  changes := fun _ _ => Sequential.changing fun s => hR.generator s _ _ _

theorem steady :
    Steady R E where
  toSequential := hR.toSequential
  stack := fun s stack => hR.generator s _ _ stack
  printed := hR.printed
  place := fun _ _ _ _ => hR.closed.place _ _
  access := fun _ _ _ => hR.closed.place _ _ _
  declare := hR.closed.declareFunction _

end Calm

end Offside.Emit
