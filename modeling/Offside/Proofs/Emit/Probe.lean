import Mathlib
import Offside.Proofs.Emit.Agreement

/-
  Functions that look up one variable.  Their definition shows
  whether the variable is bound, and where its value is kept.

  Key definition:
    * `Offside.Node.probe`

  Main statements:
    * `Offside.Emit.probe_succeeds`: where the variable is bound
      the definition succeeds.
    * `Offside.Emit.probe_separates`: two states in which it is
      bound to something else are told apart.
-/

------------------------------------------------------------
-- Names That Are Free
------------------------------------------------------------

namespace Offside.IR.Module

theorem function?_eq_none_of_isFree
    {m : Module}
    {name : String}
    (hFree : m.isFree name = true) :
    m.function? name = none := by
  unfold isFree at hFree
  simpa using (Bool.and_eq_true_iff.mp hFree).2

/- There is a name for one more function. -/
theorem exists_isFree
    (m : Module) :
    ∃ name, m.isFree name = true := by
  rcases
      Scope.exists_notMem
        (List.mem_cons_self (a := "") (l := m.functions.map Function.name))
        0 with
    ⟨k, _, hFree⟩
  refine ⟨Scope.numbered "" (0 + k), ?_⟩
  unfold isFree function?
  rw [Bool.and_eq_true_iff]
  constructor
  · apply decide_eq_true
    intro hEmpty
    rw [hEmpty] at hFree
    exact hFree List.mem_cons_self
  · rw [Option.isNone_iff_eq_none, List.find?_eq_none]
    intro f hMem hName
    apply hFree
    rw [← of_decide_eq_true hName]
    exact List.mem_cons_of_mem _ (List.mem_map_of_mem hMem)

/- A function under a free name is found. -/
theorem function?_add_self
    {m : Module}
    {f : Function}
    (hNone : m.function? f.name = none) :
    (m.add f).function? f.name = some f := by
  unfold function? at hNone
  simp [function?, add, List.find?_append, hNone]

end Offside.IR.Module

------------------------------------------------------------
-- Entering a New Function
------------------------------------------------------------

namespace Offside.Emit

open EmitState (Has Ready)

variable {s t u : EmitState}
variable {function type : String}
variable {line : Nat}

theorem discard_ok
    {α : Type}
    {m : Emit α}
    {a : α}
    (hRun : m s = .ok a t) :
    (discard m : Emit Unit) s = .ok () t := by
  rw [discard_eq, Steps.bind_ok hRun]
  rfl

/- Code goes to a new block, which is empty. -/
theorem newBlock_ready
    {f : IR.Function}
    (hHas : s.Has f)
    (hName : f.name = function)
    (hint : String) :
    ∃ label s₁ s' f',
      appendBlock function hint s = .ok label s₁ ∧
      moveToStart function label s₁ = .ok () s' ∧
      s'.Ready f' (.start label) ∧
      f'.name = function := by
  rcases register_has hHas hName hint with
    ⟨label, s₁, f₁, hRegister, hHas₁, hBuilds, _, hBlocks, hFree, hUsed⟩
  have hNone : f₁.block? label = none := by
    unfold IR.Function.block?
    rw [hBlocks]
    exact hHas.registered.block?_eq_none hFree
  have hName₁ := hBuilds.grows.name.trans hName
  rcases attach_ready hHas₁ hName₁ hUsed hFree hNone with
    ⟨s₂, s₃, f₂, hAttach, hMove, hReady, hBuilds'⟩
  refine ⟨label, s₂, s₃, f₂, ?_, hMove, hReady,
    hBuilds'.grows.name.trans hName₁⟩
  unfold appendBlock
  rw [Steps.bind_ok hRegister]
  exact (Steps.bind_ok hAttach _).trans rfl

/- A function without parameters is declared under a free name. -/
theorem declareFunction_free
    (hFree : s.generator.module.isFree function = true) :
    declareFunction (.prototype (.text function) type [] line) s =
      .ok (IR.Function.declare function (.ofArity 0)).operand
        { s with
          generator.module :=
            s.generator.module.add (.declare function (.ofArity 0)) } := by
  have hShown : (Value.text function).shown = function := rfl
  unfold declareFunction
  simp only [Node.args?, Node.name?, part, pure_bind]
  rw [Steps.bind_ok (Steps.get_apply s)]
  simp only [hShown, hFree, if_true]
  rfl

/- So it is where its prototype is known. -/
theorem getFunction_free
    (hResolves : s.generator.resolves = true)
    (hFree : s.generator.module.isFree function = true)
    (hProto : s.generator.prototypes.lookup function =
      some (.prototype (.text function) type [] line)) :
    getFunction function s =
      .ok (some (IR.Function.declare function (.ofArity 0)).operand)
        { s with
          generator.module :=
            s.generator.module.add (.declare function (.ofArity 0)) } := by
  have hNone := IR.Module.function?_eq_none_of_isFree hFree
  have hLook : function? function s = .ok none s := by
    unfold function?
    rw [Steps.bind_ok (Steps.get_apply s), hNone]
    rfl
  have hAdded :
      (s.generator.module.add
        (.declare function (.ofArity 0))).function? function =
          some (.declare function (.ofArity 0)) :=
    IR.Module.function?_add_self hNone
  unfold getFunction
  rw [Steps.bind_ok hLook]
  dsimp only
  rw [Steps.bind_ok (Steps.get_apply s), hProto]
  dsimp only
  rw [Steps.bind_ok (discard_ok (declareFunction_free hFree)),
    Steps.bind_ok (Steps.get_apply _)]
  simp only [hResolves, if_true]
  unfold function?
  rw [bind_assoc, Steps.bind_ok (Steps.get_apply _)]
  simp only [pure_bind, hAdded]
  rfl

/- The definition of such a function begins with an empty block. -/
theorem entering_free
    (type : String)
    (line : Nat)
    (hResolves : s.generator.resolves = true)
    (hFree : s.generator.module.isFree function = true) :
    ∃ operand f label u,
      entering (.prototype (.text function) type [] line) s =
        .ok (operand, f) u ∧
      u.Ready f (.start label) ∧
      u.Live function [] ∧
      f.name = function ∧
      f.arguments = [] ∧
      u.bindings = s.bindings := by
  let proto : Node := .prototype (.text function) type [] line
  let f := IR.Function.declare function (.ofArity 0)
  let s₁ : EmitState :=
    { s with
      generator.prototypes :=
        (function, proto) ::
          s.generator.prototypes.filter fun entry => entry.1 ≠ function }
  let s₂ : EmitState :=
    { s₁ with generator.module := s₁.generator.module.add f }
  have hNote : noteProto function proto s = .ok () s₁ := rfl
  have hFind : getFunction function s₁ = .ok (some f.operand) s₂ :=
    getFunction_free hResolves hFree List.lookup_cons_self
  have hHas : s₂.Has f :=
    ⟨IR.Module.function?_add_self
      (IR.Module.function?_eq_none_of_isFree hFree), nofun, nofun⟩
  rcases newBlock_ready hHas rfl "entry" with
    ⟨label, s₃, u, f', hAppend, hMove, hReady, hName⟩
  rcases enter_live hHas.function hAppend hMove with
    ⟨hLive, _, hBindings⟩
  have hFunction : u.generator.module.function? function = some f' := by
    have hHere := hReady.function
    rwa [hName] at hHere
  have hArgs : f'.arguments = [] := by
    rcases hLive.arguments with ⟨g, hHere, hArgs⟩
    cases hFunction.symm.trans hHere
    exact hArgs
  refine ⟨f.operand, f', label, u, ?_, hReady, hLive, hName, hArgs,
    hBindings⟩
  have hLook : function? function u = .ok (some f') u := by
    unfold function?
    rw [Steps.bind_ok (Steps.get_apply u), hFunction]
    rfl
  have hGiven : part proto.givenName? s = .ok (.text function) s := rfl
  refine (Steps.bind_ok hGiven _).trans ?_
  refine (Steps.bind_ok hNote _).trans ?_
  refine (Steps.bind_ok hFind _).trans ?_
  refine (Steps.bind_ok hAppend _).trans ?_
  refine (Steps.bind_ok hMove _).trans ?_
  exact (Steps.bind_ok hLook _).trans rfl

end Offside.Emit

------------------------------------------------------------
-- Probes
------------------------------------------------------------

namespace Offside.Node

/- A block whose only node is a variable. -/
def mention
    (x : String) :
    Node :=
  .block [.reference (.text x) floatType .origin]

/- A function without parameters that gives back a variable. -/
def probe
    (function x : String) :
    Node :=
  .function (.prototype (.text function) floatType [] 0) (mention x)

/- A function that gives back its argument. -/
def echo
    (function x : String) :
    Node :=
  .function
    (.prototype (.text function) floatType
      [.reference (.text x) floatType .origin] 0)
    (mention x)

variable {function x y : String}

theorem isLocal_mention :
    (mention x).IsLocal := by
  refine .block fun node hMem => ?_
  rw [List.mem_singleton.mp hMem]
  exact .reference _ _ _

theorem isProper_probe :
    (probe function x).IsProper :=
  isLocal_mention.isProper_function

theorem isProper_echo :
    (echo function x).IsProper :=
  isLocal_mention.isProper_function

theorem takes_probe
    {s : EmitState}
    (hTakes : (probe function x).Takes s y) :
    y = x := by
  cases hTakes.1 with
  | block hMem hNode =>
      rw [List.mem_singleton.mp hMem] at hNode
      cases hNode with
      | reference _ _ hName => exact hName.symm

end Offside.Node

namespace Offside.Emit

open EmitState (Ready)

variable {s t u : EmitState}
variable {function x cell : String}
variable {operand : IR.Operand}
variable {f : IR.Function}
variable {p : IR.Point}

/- A variable that is bound is read. -/
theorem taking_mention_ok
    (hReady : u.Ready f p)
    (hBound : u.bindings.get? x =
      some (.register (.pointer .float) cell)) :
    ∃ name u' f',
      taking (visit (.mention x)) u =
        .ok (.many [.register .float name]) u' ∧
      Placed u f p
        ⟨name, .load (.register (.pointer .float) cell)⟩ u' f' := by
  rcases load_ready hReady cell x with ⟨name, u', f', hLoad, hPlaced⟩
  refine ⟨name, u', f', ?_, hPlaced⟩
  have hAddress : address? x u =
      .ok (some (.register (.pointer .float) cell)) u := by
    unfold address?
    rw [Steps.bind_ok (Steps.get_apply u), hBound]
    rfl
  have hReading :
      visit (.reference (.text x) Node.floatType .origin) u =
        .ok () (u'.pushed (.register .float name)) := by
    refine (Steps.bind_ok hAddress _).trans ?_
    exact (Steps.bind_ok hLoad _).trans rfl
  have hAll :
      visitAll [.reference (.text x) Node.floatType .origin] u =
        .ok [.register .float name] u' :=
    (Steps.bind_ok (taking_pushed hReading) _).trans rfl
  apply taking_pushed
  exact (Steps.bind_ok hAll _).trans rfl

theorem taking_mention_error
    (hNone : u.bindings.get? x = none) :
    taking (visit (.mention x)) u = .error (.unknownVariable x) u := by
  have hAddress : address? x u = .ok none u := by
    unfold address?
    rw [Steps.bind_ok (Steps.get_apply u), hNone]
    rfl
  have hReading :
      visit (.reference (.text x) Node.floatType .origin) u =
        .error (.unknownVariable x) u :=
    (Steps.bind_ok hAddress _).trans rfl
  unfold Node.mention
  simp only [taking, visit, visitAll, Steps.bind_apply]
  simp only [visit] at hReading
  rw [hReading]

/- What is left of a probe when its function is entered. -/
theorem visit_probe
    (hEnter :
      entering (.prototype (.text function) Node.floatType [] 0) s =
        .ok (operand, f) u)
    (hArgs : f.arguments = []) :
    visit (.probe function x) s =
      (discard (do
        let value ← taking (visit (.mention x))
        terminate
          (.ret (if value.isNothing then .zero .float else value))
        return operand) : Emit Unit) u := by
  change (discard (definition _ _) : Emit Unit) s = _
  rw [discard_eq, discard_eq, definition_eq, bind_assoc,
    Steps.bind_ok hEnter]
  dsimp only
  rw [hArgs, List.zip_nil_right]
  rfl

/-
  A probe of a variable that is bound: its code begins with the
  read.
-/
theorem visit_probe_ok
    (hEnter :
      entering (.prototype (.text function) Node.floatType [] 0) s =
        .ok (operand, f) u)
    (hReady : u.Ready f p)
    (hName : f.name = function)
    (hArgs : f.arguments = [])
    (hBound : u.bindings.get? x =
      some (.register (.pointer .float) cell)) :
    ∃ s' f' name,
      visit (.probe function x) s = .ok () s' ∧
      s'.generator.module.function? function = some f' ∧
      f'.fetch p =
        some ⟨name, .load (.register (.pointer .float) cell)⟩ := by
  rcases taking_mention_ok hReady hBound with
    ⟨name, u', f₁, hTaking, hPlaced⟩
  rcases terminate_ready hPlaced.ready
      (.ret (.many [.register .float name])) rfl with
    ⟨s', f', hEnd, hEnded⟩
  refine ⟨s', f', name, ?_, ?_, ?_⟩
  · rw [visit_probe hEnter hArgs]
    apply discard_ok
    refine (Steps.bind_ok hTaking _).trans ?_
    exact (Steps.bind_ok hEnd _).trans rfl
  · rw [← hName, ← hPlaced.builds.grows.name, ← hEnded.builds.grows.name]
    exact hEnded.function
  · exact hEnded.builds.grows.within.code _ _ hPlaced.fetch

/- The function keeps its arguments, and has none. -/
theorem visit_probe_live
    (hEnter :
      entering (.prototype (.text function) Node.floatType [] 0) s =
        .ok (operand, f) u)
    (hArgs : f.arguments = [])
    (hLive : u.Live function [])
    (hVisit : visit (.probe function x) s = .ok () t) :
    t.Live function [] := by
  rw [visit_probe hEnter hArgs, discard_eq] at hVisit
  rcases Steps.bind_eq_ok hVisit with ⟨_, _, hRun, hDone⟩
  cases hDone
  rcases Steps.bind_eq_ok hRun with ⟨value, v, hTaking, hRun₁⟩
  rcases Steps.bind_eq_ok hRun₁ with ⟨_, _, hEnd, hDone⟩
  cases hDone
  rcases (EmitState.Reaches.refl hLive).follow
      ((steady_follows.basic.taking
        (structured_follows.visit Node.isLocal_mention) u).ok _ _
          hTaking) with
    ⟨_, hReaches⟩
  rcases hReaches.terminate hEnd rfl rfl with ⟨_, _, hReaches'⟩
  exact hReaches'.live

theorem visit_probe_error
    (hEnter :
      entering (.prototype (.text function) Node.floatType [] 0) s =
        .ok (operand, f) u)
    (hArgs : f.arguments = [])
    (hNone : u.bindings.get? x = none) :
    visit (.probe function x) s = .error (.unknownVariable x) u := by
  rw [visit_probe hEnter hArgs, discard_eq, Steps.bind_apply,
    Steps.bind_apply, taking_mention_error hNone]

end Offside.Emit

------------------------------------------------------------
-- What Probes Show
------------------------------------------------------------

namespace Offside.Emit

open EmitState (Ready)

variable {s t : EmitState}
variable {function x : String}

/- A probe of a variable that is bound succeeds, without arguments. -/
theorem probe_succeeds
    (hRegular : s.Regular)
    (hFree : s.generator.module.isFree function = true)
    {address : IR.Operand}
    (hBound : s.bindings.get? x = some address) :
    ∃ s',
      visit (.probe function x) s = .ok () s' ∧ s'.Live function [] := by
  rcases entering_free Node.floatType 0 hRegular.resolves hFree with
    ⟨operand, f, label, u, hEnter, hReady, hLive, hName, hArgs,
      hBindings⟩
  rcases hRegular.cells x address hBound with ⟨cell, rfl⟩
  rw [← hBindings] at hBound
  rcases visit_probe_ok hEnter hReady hName hArgs hBound with
    ⟨s', _, _, hVisit, _⟩
  exact ⟨s', hVisit, visit_probe_live hEnter hArgs hLive hVisit⟩

/- In two states of one generator a probe begins in the same way. -/
theorem entering_alike
    (hAlike : s.Alike (fun _ => False) t)
    (hFree : s.generator.module.isFree function = true) :
    ∃ operand f p u v,
      entering (.prototype (.text function) Node.floatType [] 0) s =
        .ok (operand, f) u ∧
      entering (.prototype (.text function) Node.floatType [] 0) t =
        .ok (operand, f) v ∧
      u.Ready f p ∧
      v.Ready f p ∧
      f.name = function ∧
      f.arguments = [] ∧
      u.bindings = s.bindings ∧
      v.bindings = t.bindings := by
  have hFree' : t.generator.module.isFree function = true := by
    rw [hAlike.generator]
    exact hFree
  rcases entering_free Node.floatType 0 hAlike.left.resolves hFree with
    ⟨operand, f, label, u, hEnter, hReady, _, hName, hArgs, hBindings⟩
  rcases entering_free Node.floatType 0 hAlike.right.resolves hFree' with
    ⟨operand', f', label', v, hEnter', hReady', _, _, _, hBindings'⟩
  have hProto : ¬Node.IsVariable
      (.prototype (.text function) Node.floatType [] 0) := by
    rintro ⟨_, _, _, hVariable⟩
    cases hVariable
  have hResults :=
    (Agrees.closed fun _ => False).entering
      (fun name => .noteProto name hProto) .getFunction s t hAlike
  rw [hEnter, hEnter'] at hResults
  rcases hResults with ⟨hSame, hAlike'⟩
  cases hSame
  rcases hReady.cursor with ⟨b, _, _, _, hCursor⟩
  rcases hReady'.cursor with ⟨b', _, _, _, hCursor'⟩
  rw [hAlike'.generator, hCursor] at hCursor'
  have hLabel : label = label' := by
    injection hCursor' with hCursor'
    injection hCursor'
  subst hLabel
  exact ⟨operand, f, .start label, u, v, hEnter, hEnter', hReady, hReady',
    hName, hArgs, hBindings, hBindings'⟩

/-
  Where the variable is bound to something else in two states of
  one generator, a probe has another result or leaves another
  module.
-/
theorem probe_separates
    (hAlike : s.Alike (fun _ => False) t)
    (hFree : s.generator.module.isFree function = true)
    (hOutcome :
      (attempt (.probe function x) t).1 =
        (attempt (.probe function x) s).1)
    (hGenerator :
      (attempt (.probe function x) t).2.generator =
        (attempt (.probe function x) s).2.generator) :
    t.bindings.get? x = s.bindings.get? x := by
  rcases entering_alike hAlike hFree with
    ⟨operand, f, p, u, v, hEnter, hEnter', hReady, hReady', hName,
      hArgs, hBindings, hBindings'⟩
  unfold attempt at hOutcome hGenerator
  cases hLeft : s.bindings.get? x with
  | none =>
      rw [visit_probe_error hEnter hArgs (hBindings ▸ hLeft)] at hOutcome
      cases hRight : t.bindings.get? x with
      | none => rfl
      | some address =>
          rcases hAlike.right.cells x address hRight with ⟨cell, rfl⟩
          rcases visit_probe_ok hEnter' hReady' hName hArgs
              (hBindings' ▸ hRight) with
            ⟨t', _, _, hVisit, _⟩
          rw [hVisit] at hOutcome
          cases hOutcome
  | some address =>
      rcases hAlike.left.cells x address hLeft with ⟨cell, rfl⟩
      rcases visit_probe_ok hEnter hReady hName hArgs
          (hBindings ▸ hLeft) with
        ⟨s', g, name, hVisit, hFunction, hFetch⟩
      rw [hVisit] at hOutcome hGenerator
      cases hRight : t.bindings.get? x with
      | none =>
          rw [visit_probe_error hEnter' hArgs (hBindings' ▸ hRight)]
            at hOutcome
          cases hOutcome
      | some address' =>
          rcases hAlike.right.cells x address' hRight with ⟨cell', rfl⟩
          rcases visit_probe_ok hEnter' hReady' hName hArgs
              (hBindings' ▸ hRight) with
            ⟨t', g', name', hVisit', hFunction', hFetch'⟩
          rw [hVisit'] at hGenerator
          dsimp only at hGenerator
          rw [hGenerator, hFunction] at hFunction'
          cases hFunction'
          rw [hFetch] at hFetch'
          cases hFetch'
          rfl

end Offside.Emit
