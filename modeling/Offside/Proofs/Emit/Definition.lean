import Mathlib
import Offside.Proofs.Emit.Emission

/-
  Definitions of functions: the function is found, its arguments
  are bound, its body is visited, and the value of the body is
  given back.

  Key definitions include:
    * `Offside.IR.Names`
    * `Offside.Emit.Entered`

  Main statements:
    * `Offside.Emit.definition_entered`: what has happened before
      the body is visited, and what happens afterwards.
    * `Offside.Emit.definition_emission`: the code of a definition
      goes to its function.
-/

------------------------------------------------------------
-- New Generators
------------------------------------------------------------

namespace Offside.EmitState

/-
  A new generator that finds functions by their names, before any
  variable is bound.
-/
def fresh : EmitState where
  generator := Generator.new true "" "" false
  bindings := .empty
  printed := ""
  folder := .empty

end Offside.EmitState

------------------------------------------------------------
-- Looking for a Function
------------------------------------------------------------

namespace Offside.Emit

variable {s s' : EmitState}
variable {function : String}

theorem resolved_eq_ok
    {operand : IR.Operand}
    (hRun : resolved function s = .ok (some operand) s') :
    s = s' ∧ ∃ f, s.generator.module.function? function = some f := by
  rw [resolved, Steps.bind_ok (Steps.get_apply s)] at hRun
  split at hRun
  · rcases Steps.bind_eq_ok hRun with ⟨found, _, hLook, hDone⟩
    cases hLook
    cases hFound : s.generator.module.function? function with
    | none =>
        rw [hFound] at hDone
        cases hDone
    | some f =>
        rw [hFound] at hDone
        cases hDone
        exact ⟨rfl, f, rfl⟩
  · cases hRun

/-
  A function that is found by its name was there or is declared
  now.
-/
theorem getFunction_declares
    (hProto : ∀ name type location,
      s.generator.prototypes.lookup function ≠
        some (.reference name type location))
    {operand : IR.Operand}
    (hRun : getFunction function s = .ok (some operand) s') :
    s.Declares s' ∧ ∃ f, s'.generator.module.function? function = some f := by
  rcases Steps.bind_eq_ok hRun with ⟨found, t, hLook, hRun₁⟩
  cases hLook
  split at hRun₁
  · rcases Steps.bind_eq_ok hRun₁ with ⟨_, t, hPush, hRun₂⟩
    rcases resolved_eq_ok hRun₂ with ⟨rfl, hFound⟩
    cases hPush
    exact ⟨⟨fun _ _ h => h, rfl, rfl, rfl⟩, hFound⟩
  · rw [Steps.bind_ok (Steps.get_apply s)] at hRun₁
    cases hLookup : s.generator.prototypes.lookup function with
    | none =>
        rw [hLookup] at hRun₁
        cases hRun₁
    | some proto =>
        rw [hLookup] at hRun₁
        have hDeclared :
            (do discard (declareFunction proto); resolved function) s =
              .ok (some operand) s' := by
          cases proto with
          | reference name type location =>
              exact absurd hLookup (hProto _ _ _)
          | _ => exact hRun₁
        rcases Steps.bind_eq_ok hDeclared with ⟨_, t, hDeclare, hRun₂⟩
        rcases resolved_eq_ok hRun₂ with ⟨rfl, hFound⟩
        rcases Steps.map_eq_ok hDeclare with ⟨_, hDeclare', _⟩
        exact ⟨declareFunction_declares hDeclare', hFound⟩

/- Code goes to a new block of a function. -/
theorem enter_live
    {f : IR.Function}
    (hFunction : s.generator.module.function? function = some f)
    {hint label : String}
    {t : EmitState}
    (hAppend : appendBlock function hint s = .ok label t)
    (hMove : moveToStart function label t = .ok () s') :
    s'.Live function f.arguments ∧
      s'.generator.module.code = s.generator.module.code ∧
      s'.bindings = s.bindings := by
  rcases Steps.bind_eq_ok hAppend with ⟨_, u, hRegister, hAttach⟩
  cases hRegister
  cases hAttach
  cases hMove
  rcases
      IR.Module.retains_register function function hint f hFunction with
    ⟨g, hFound, hArgs, _⟩
  have hName : g.name = function := by
    simpa using List.find?_some hFound
  subst hName
  let label := (s.generator.module.register g.name hint).1
  have hHere :=
    IR.Module.function?_modify hFound (fun h => h.attach label) rfl
  refine ⟨⟨⟨_, hHere, hArgs⟩, _, _, rfl, _, hHere, ?_⟩, ?_, rfl⟩
  · rw [IR.Function.labels_attach]
    exact List.mem_append_right _ (List.mem_singleton.mpr rfl)
  · exact (IR.Module.code_modify _ fun h _ => h.code_attach _).trans
      (IR.Module.code_register _ _)

end Offside.Emit

------------------------------------------------------------
-- Arguments
------------------------------------------------------------

namespace Offside

/- One of the arguments has that name. -/
def IR.Names
    (args : List IR.Operand)
    (name : String) :
    Prop :=
  ∃ type, IR.Operand.register type name ∈ args

/- A function binds its arguments under their names. -/
theorem IR.Function.mem_zip_arguments
    (f : IR.Function)
    (name : String) :
    name ∈ (f.params.zip f.arguments).map Prod.fst ↔
      IR.Names f.arguments name := by
  unfold IR.Names IR.Function.arguments
  generalize f.signature.params = types
  induction f.params generalizing types with
  | nil => simp
  | cons param params ih =>
      cases types with
      | nil => simp
      | cons type types =>
          simp only [List.zip_cons_cons, List.map_cons, List.mem_cons,
            ih types, IR.Operand.register.injEq]
          constructor
          · rintro (rfl | ⟨type', hMem⟩)
            · exact ⟨type, .inl ⟨rfl, rfl⟩⟩
            · exact ⟨type', .inr hMem⟩
          · rintro ⟨type', ⟨_, rfl⟩ | hMem⟩
            · exact .inl rfl
            · exact .inr ⟨type', hMem⟩

namespace Emit

variable {s t u : EmitState}
variable {function : String}
variable {args : List IR.Operand}
variable {emitted : List (String × IR.Instruction)}

/- Arguments are kept in memory that is reserved for them. -/
theorem bindArguments_reaches
    (hReaches : s.Reaches function args emitted t)
    {pairs : List (String × IR.Operand)}
    (hRun : bindArguments pairs t = .ok () u) :
    ∃ more,
      s.Reaches function args (emitted ++ more) u ∧
      ∀ e ∈ more, e.2.op.isSound = true := by
  induction pairs generalizing emitted t with
  | nil =>
      cases hRun
      refine ⟨[], ?_, fun e hMem => absurd hMem List.not_mem_nil⟩
      rw [List.append_nil]
      exact hReaches
  | cons pair pairs ih =>
      rcases Steps.bind_eq_ok hRun with ⟨address, t₁, hRun₁, hRun₂⟩
      rcases Steps.bind_eq_ok hRun₁ with ⟨name, _, hPlace, hAddress⟩
      cases hAddress
      rcases hReaches.place hPlace rfl nofun with ⟨n, hReaches₁⟩
      have hReserves : IR.Reserves
          (emitted ++
            List.replicate (n + 1) (function, ⟨name, .alloca .float⟩))
          function (.register (.pointer .float) name) :=
        ⟨name, by simp, rfl⟩
      rcases Steps.bind_eq_ok hRun₂ with ⟨_, t₂, hStore, hRun₃⟩
      rcases hReaches₁.store hStore (.inr hReserves) with
        ⟨stored, hReaches₂, hSound⟩
      rcases Steps.bind_eq_ok hRun₃ with ⟨_, t₃, hBind, hRest⟩
      cases hBind
      have hReaches₃ := hReaches₂.bind (hReserves.append stored) pair.1
      rcases ih hReaches₃ hRest with ⟨more, hReaches₄, hSound'⟩
      simp only [List.append_assoc] at hReaches₄
      refine ⟨_, hReaches₄, ?_⟩
      intro e hMem
      rcases List.mem_append.mp hMem with hMem | hMem
      · rw [List.eq_of_mem_replicate hMem]
        rfl
      · exact (List.mem_append.mp hMem).elim (hSound e) (hSound' e)

/- An instruction is placed without a change of the variables. -/
theorem place_bindings
    {hint name : String}
    {op : IR.Op}
    (hRun : place hint op t = .ok name u) :
    u.bindings = t.bindings := by
  rcases Steps.bind_eq_ok hRun with ⟨c, v, hCursor, hRun₁⟩
  have hSame : v = t := by
    cases hHere : t.generator.cursor with
    | none =>
        rw [cursor, Steps.bind_ok (Steps.get_apply t), hHere] at hCursor
        cases hCursor
    | some c' =>
        rw [cursor_apply hHere] at hCursor
        cases hCursor
        rfl
  subst hSame
  cases hRun₁
  rfl

theorem store_bindings
    {value pointer : IR.Operand}
    (hRun : store value pointer t = .ok () u) :
    u.bindings = t.bindings := by
  rcases store_eq_ok hRun with ⟨type, name, _, _, hPlace⟩
  exact place_bindings hPlace

/- After that these names are bound, and those that were. -/
theorem bindArguments_bound
    {pairs : List (String × IR.Operand)}
    (hRun : bindArguments pairs t = .ok () u)
    (x : String) :
    (u.bindings.get? x).isSome ↔
      x ∈ pairs.map Prod.fst ∨ (t.bindings.get? x).isSome := by
  induction pairs generalizing t with
  | nil =>
      cases hRun
      simp
  | cons pair pairs ih =>
      rcases Steps.bind_eq_ok hRun with ⟨address, t₁, hRun₁, hRun₂⟩
      rcases Steps.bind_eq_ok hRun₁ with ⟨name, _, hPlace, hAddress⟩
      cases hAddress
      rcases Steps.bind_eq_ok hRun₂ with ⟨_, t₂, hStore, hRun₃⟩
      rcases Steps.bind_eq_ok hRun₃ with ⟨_, t₃, hBind, hRest⟩
      cases hBind
      rw [ih hRest, Bindings.get?_set, store_bindings hStore,
        place_bindings hPlace]
      by_cases hSame : x = pair.1
      · simp [hSame]
      · simp [hSame]

end Emit

end Offside

------------------------------------------------------------
-- Definitions
------------------------------------------------------------

namespace Offside.Emit

open EmitState (Emission Live)

variable {s s' : EmitState}

/-
  A definition before its body is visited: the arguments of the
  function are in memory, and code goes to its new block.
-/
structure Entered
    (s : EmitState)
    (function : String)
    (args : List IR.Operand)
    (emitted : List (String × IR.Instruction))
    (t : EmitState) :
    Prop extends Emission function s emitted t where
  live : t.Live function args
  sound : ∀ e ∈ emitted, e.2.op.isSound = true
  bound :
    ∀ x, (t.bindings.get? x).isSome ↔
      IR.Names args x ∨ (s.bindings.get? x).isSome

/- A definition by a prototype: what is before and after its body. -/
theorem definition_entered
    {name : Value}
    {type : String}
    {params : List Node}
    {line : Nat}
    {body : Emit Unit}
    {operand : IR.Operand}
    (hRun :
      definition (.prototype name type params line) body s =
        .ok operand s') :
    ∃ args emitted t value u,
      Entered s name.shown args emitted t ∧
      taking body t = .ok value u ∧
      terminate
          (.ret (if value.isNothing then .zero .float else value)) u =
        .ok () s' := by
  rcases Steps.bind_eq_ok hRun with ⟨_, s₁, hName, hRun₁⟩
  cases hName
  rcases Steps.bind_eq_ok hRun₁ with ⟨_, s₂, hNote, hRun₂⟩
  cases hNote
  rcases Steps.bind_eq_ok hRun₂ with ⟨found, s₃, hFind, hRun₃⟩
  cases found with
  | none => cases hRun₃
  | some operand' =>
  rcases getFunction_declares (by simp) hFind with
    ⟨hDeclares, f, hFound⟩
  rcases Steps.bind_eq_ok hRun₃ with ⟨label, s₄, hAppend, hRun₄⟩
  rcases Steps.bind_eq_ok hRun₄ with ⟨_, s₅, hMove, hRun₅⟩
  rcases enter_live hFound hAppend hMove with ⟨hLive, hCode, hBindings⟩
  rcases Steps.bind_eq_ok hRun₅ with ⟨found', s₆, hLook, hRun₆⟩
  cases hLook
  rcases Steps.bind_eq_ok hRun₆ with ⟨g, s₇, hPart, hRun₇⟩
  rcases part_eq_ok hPart with ⟨hSame, rfl⟩
  have hArgs : g.arguments = f.arguments := by
    rcases hLive.arguments with ⟨h, hHere, hArgs⟩
    rw [hSame] at hHere
    cases hHere
    exact hArgs
  rcases Steps.bind_eq_ok hRun₇ with ⟨_, t, hBind, hRun₈⟩
  rcases bindArguments_reaches (.refl hLive) hBind with
    ⟨emitted, hReaches, hSound⟩
  rcases Steps.bind_eq_ok hRun₈ with ⟨value, u, hBody, hRun₉⟩
  rcases Steps.bind_eq_ok hRun₉ with ⟨_, v, hEnd, hDone⟩
  cases hDone
  have hQuiet : Emission name.shown s [] s₇ := by
    refine .quiet name.shown ?_ ?_
    · exact hCode.trans hDeclares.code
    · exact hBindings.trans hDeclares.bindings
  refine ⟨f.arguments, emitted, t, value, u,
    ⟨hQuiet.trans hReaches.toEmission, hReaches.live, hSound, ?_⟩,
    hBody, hEnd⟩
  intro x
  rw [bindArguments_bound hBind, g.mem_zip_arguments, hArgs, hBindings,
    hDeclares.bindings]

/-
  The code of a definition goes to its function.  The body is
  visited where its arguments are bound as well.
-/
theorem definition_emission
    {name : Value}
    {type : String}
    {params : List Node}
    {line : Nat}
    {body : Node}
    (hLocal : body.IsLocal)
    {operand : IR.Operand}
    (hRun :
      definition (.prototype name type params line) (visit body) s =
        .ok operand s') :
    ∃ args emitted t value u,
      s'.Live name.shown args ∧
      Emission name.shown s emitted s' ∧
      taking (visit body) t = .ok value u ∧
      ∀ x, (t.bindings.get? x).isSome ↔
        IR.Names args x ∨ (s.bindings.get? x).isSome := by
  rcases definition_entered hRun with
    ⟨args, entered, t, value, u, hEntered, hBody, hEnd⟩
  rcases (EmitState.Reaches.refl hEntered.live).follow
      ((steady_follows.basic.taking (structured_follows.visit hLocal) t).ok
        _ _ hBody) with
    ⟨visited, hReaches⟩
  rcases hReaches.terminate hEnd rfl rfl with ⟨_, _, hReaches'⟩
  exact ⟨args, _, t, value, u, hReaches'.live,
    hEntered.toEmission.trans hReaches'.toEmission, hBody,
    hEntered.bound⟩

end Offside.Emit
