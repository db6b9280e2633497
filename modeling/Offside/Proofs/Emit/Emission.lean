import Mathlib
import Offside.Proofs.Emit.Laying

/-
  What a visit emits: the instructions that it adds to the
  module, what was checked of them, and whose memory they work
  on.  Nothing is asked of the module beforehand.

  Key definitions include:
    * `Offside.EmitState.Live`
    * `Offside.EmitState.Emission`
    * `Offside.EmitState.Reaches`
    * `Offside.EmitState.Follows`

  Main statements:
    * `Offside.Emit.structured_follows`: whatever is visited in a
      function, code goes to this function, and it works on memory
      that is reserved with it or was bound to a variable before.
-/

------------------------------------------------------------
-- Functions That Stay
------------------------------------------------------------

namespace Offside.IR.Module

variable {m : Module}

/- A function stays, with its arguments and its blocks. -/
def Retains
    (m : Module)
    (name : String)
    (m' : Module) :
    Prop :=
  ∀ f, m.function? name = some f →
    ∃ f',
      m'.function? name = some f' ∧
      f'.arguments = f.arguments ∧
      f.labels ⊆ f'.labels

theorem Retains.refl
    (m : Module)
    (name : String) :
    m.Retains name m :=
  fun f hFunction => ⟨f, hFunction, rfl, List.Subset.refl _⟩

/- A change that leaves names and arguments and removes no block. -/
theorem retains_modify
    (name : String)
    (changed : String)
    {change : Function → Function}
    (hName : ∀ f, (change f).name = f.name)
    (hArgs : ∀ f, (change f).arguments = f.arguments)
    (hLabels : ∀ f, f.labels ⊆ (change f).labels) :
    m.Retains name (m.modify changed change) := by
  intro f hFunction
  by_cases hHere : name = changed
  · subst hHere
    have hSame : f.name = name := by
      simpa using List.find?_some hFunction
    subst hSame
    exact ⟨change f, function?_modify hFunction change (hName f),
      hArgs f, hLabels f⟩
  · refine ⟨f, ?_, rfl, List.Subset.refl _⟩
    rw [function?_modify_other hHere hName]
    exact hFunction

theorem retains_insert
    (name : String)
    (c : Cursor)
    (i : Instruction) :
    m.Retains name (m.insert c i) := by
  refine retains_modify name c.function (fun _ => rfl) (fun _ => rfl) ?_
  intro f
  rw [Function.labels_modifyBlock]
  · exact List.Subset.refl _
  · exact fun _ => rfl

theorem retains_reserve
    (name changed : String)
    (i : Instruction) :
    m.Retains name (m.modify changed fun f => f.reserve i) := by
  refine retains_modify name changed (fun _ => rfl) (fun _ => rfl) ?_
  intro f
  rw [Function.labels_reserve]
  exact List.Subset.refl _

theorem retains_attach
    (name changed label : String) :
    m.Retains name (m.modify changed fun f => f.attach label) := by
  refine retains_modify name changed (fun _ => rfl) (fun _ => rfl) ?_
  intro f
  rw [Function.labels_attach]
  exact List.subset_append_left _ _

theorem retains_register
    (name changed hint : String) :
    m.Retains name (m.register changed hint).2 := by
  unfold register
  split
  · exact .refl m name
  · exact retains_modify name changed (fun _ => rfl) (fun _ => rfl)
      fun _ => List.Subset.refl _

theorem code_register
    (changed hint : String) :
    (m.register changed hint).2.code = m.code := by
  unfold register
  split
  · rfl
  · exact m.code_modify fun f _ => f.code_register hint

end Offside.IR.Module

------------------------------------------------------------
-- Where Code Goes
------------------------------------------------------------

namespace Offside

/- Memory that is reserved by some of the code of a function. -/
def IR.Reserves
    (emitted : List (String × IR.Instruction))
    (function : String)
    (address : IR.Operand) :
    Prop :=
  ∃ name,
    (function, ⟨name, .alloca .float⟩) ∈ emitted ∧
    address = .register (.pointer .float) name

theorem IR.Reserves.mono
    {emitted more : List (String × IR.Instruction)}
    {function : String}
    {address : IR.Operand}
    (hReserves : IR.Reserves emitted function address)
    (hMore : emitted ⊆ more) :
    IR.Reserves more function address := by
  rcases hReserves with ⟨name, hMem, hAddress⟩
  exact ⟨name, hMore hMem, hAddress⟩

theorem IR.Reserves.append
    {emitted : List (String × IR.Instruction)}
    {function : String}
    {address : IR.Operand}
    (hReserves : IR.Reserves emitted function address)
    (more : List (String × IR.Instruction)) :
    IR.Reserves (emitted ++ more) function address :=
  hReserves.mono (List.subset_append_left _ _)

namespace EmitState

/- The function has a block of that label. -/
def HasBlock
    (s : EmitState)
    (function label : String) :
    Prop :=
  ∃ f,
    s.generator.module.function? function = some f ∧
    label ∈ f.labels

/- Code goes to a block of the function, which has these arguments. -/
structure Live
    (s : EmitState)
    (function : String)
    (args : List IR.Operand) :
    Prop where
  arguments :
    ∃ f,
      s.generator.module.function? function = some f ∧
      f.arguments = args
  cursor :
    ∃ label anchor,
      s.generator.cursor = some ⟨function, label, anchor⟩ ∧
      s.HasBlock function label

/- The value of some variable is kept there. -/
def Knows
    (s : EmitState)
    (address : IR.Operand) :
    Prop :=
  ∃ name, s.bindings.get? name = some address

/-
  Code is emitted in a function.  It works on memory that is
  reserved with it or was bound to a variable before, and so are
  the variables bound to such memory.
-/
structure Emission
    (function : String)
    (s : EmitState)
    (emitted : List (String × IR.Instruction))
    (s' : EmitState) :
    Prop where
  code : s.generator.module.Emits emitted s'.generator.module
  instructions :
    ∀ e ∈ emitted, e.1 = function ∧ e.2.op.isChecked = true
  pointers :
    ∀ e ∈ emitted, ∀ address, e.2.op.pointer? = some address →
      s.Knows address ∨ IR.Reserves emitted function address
  bindings :
    ∀ address, s'.Knows address →
      s.Knows address ∨ IR.Reserves emitted function address

/- Code is emitted, and more goes to the same function. -/
structure Reaches
    (s : EmitState)
    (function : String)
    (args : List IR.Operand)
    (emitted : List (String × IR.Instruction))
    (s' : EmitState) :
    Prop extends Emission function s emitted s' where
  live : s'.Live function args
  blocks :
    ∀ label, s.HasBlock function label → s'.HasBlock function label

/- What is emitted while code goes to a function. -/
def Follows
    (s s' : EmitState) :
    Prop :=
  ∀ function args, s.Live function args →
    ∃ emitted, s.Reaches function args emitted s'

variable {s t u : EmitState}
variable {function label : String}
variable {args : List IR.Operand}
variable {emitted more : List (String × IR.Instruction)}

theorem HasBlock.retained
    (hBlock : s.HasBlock function label)
    (hRetains :
      s.generator.module.Retains function t.generator.module) :
    t.HasBlock function label := by
  rcases hBlock with ⟨f, hFunction, hLabel⟩
  rcases hRetains f hFunction with ⟨g, hFunction', _, hLabels⟩
  exact ⟨g, hFunction', hLabels hLabel⟩

theorem Emission.trans
    (hFirst : Emission function s emitted t)
    (hSecond : Emission function t more u) :
    Emission function s (emitted ++ more) u := by
  have hRight : more ⊆ emitted ++ more :=
    List.subset_append_right _ _
  -- What was bound in between is bound before or reserved by now.
  have hBound : ∀ address, t.Knows address →
      s.Knows address ∨
        IR.Reserves (emitted ++ more) function address :=
    fun address hKnows =>
      (hFirst.bindings address hKnows).imp_right fun h => h.append _
  have hEither : ∀ address,
      t.Knows address ∨ IR.Reserves more function address →
        s.Knows address ∨
          IR.Reserves (emitted ++ more) function address :=
    fun address hEither => hEither.elim (hBound address)
      fun hReserves => .inr (hReserves.mono hRight)
  constructor
  · exact hFirst.code.trans hSecond.code
  · intro e hMem
    exact (List.mem_append.mp hMem).elim (hFirst.instructions e)
      (hSecond.instructions e)
  · intro e hMem address hPointer
    rcases List.mem_append.mp hMem with hMem | hMem
    · exact (hFirst.pointers e hMem address hPointer).imp_right
        fun h => h.append _
    · exact hEither address (hSecond.pointers e hMem address hPointer)
  · exact fun address hKnows =>
      hEither address (hSecond.bindings address hKnows)

/- Nothing is emitted while bindings stay. -/
theorem Emission.quiet
    (function : String)
    (hCode : t.generator.module.code = s.generator.module.code)
    (hBindings : t.bindings = s.bindings) :
    Emission function s [] t := by
  constructor
  · exact .of_code hCode
  · exact fun e hMem => absurd hMem List.not_mem_nil
  · exact fun e hMem => absurd hMem List.not_mem_nil
  · intro address hKnows
    unfold Knows at hKnows
    rw [hBindings] at hKnows
    exact .inl hKnows

theorem Reaches.refl
    (hLive : s.Live function args) :
    s.Reaches function args [] s :=
  ⟨.quiet function rfl rfl, hLive, fun _ hBlock => hBlock⟩

theorem Reaches.trans
    (hFirst : s.Reaches function args emitted t)
    (hSecond : t.Reaches function args more u) :
    s.Reaches function args (emitted ++ more) u :=
  ⟨hFirst.toEmission.trans hSecond.toEmission, hSecond.live,
    fun label hBlock => hSecond.blocks label (hFirst.blocks label hBlock)⟩

theorem Reaches.follow
    (hReaches : s.Reaches function args emitted t)
    (hFollows : t.Follows u) :
    ∃ more, s.Reaches function args (emitted ++ more) u := by
  rcases hFollows function args hReaches.live with ⟨more, hMore⟩
  exact ⟨more, hReaches.trans hMore⟩

theorem Live.retained
    (hLive : s.Live function args)
    (hRetains :
      s.generator.module.Retains function t.generator.module)
    (hCursor : t.generator.cursor = s.generator.cursor) :
    t.Live function args := by
  rcases hLive.arguments with ⟨f, hFunction, hArgs⟩
  rcases hRetains f hFunction with ⟨g, hFunction', hArgs', _⟩
  rcases hLive.cursor with ⟨label, anchor, hHere, hBlock⟩
  exact ⟨⟨g, hFunction', hArgs'.trans hArgs⟩,
    label, anchor, hCursor.trans hHere, hBlock.retained hRetains⟩

/- A step that changes neither code nor bindings nor the cursor. -/
theorem Live.quiet
    (hLive : s.Live function args)
    (hCode : t.generator.module.code = s.generator.module.code)
    (hRetains :
      s.generator.module.Retains function t.generator.module)
    (hCursor : t.generator.cursor = s.generator.cursor)
    (hBindings : t.bindings = s.bindings) :
    s.Reaches function args [] t :=
  ⟨.quiet function hCode hBindings, hLive.retained hRetains hCursor,
    fun _ hBlock => hBlock.retained hRetains⟩

/- The cursor goes to another block of the function. -/
theorem Live.move
    (hLive : s.Live function args)
    (hBlock : s.HasBlock function label)
    (anchor : Nat) :
    s.Reaches function args []
      { s with generator.cursor := some ⟨function, label, anchor⟩ } :=
  ⟨.quiet function rfl rfl, ⟨hLive.arguments, label, anchor, rfl, hBlock⟩,
    fun _ hBlock => hBlock⟩

end EmitState

end Offside

------------------------------------------------------------
-- Steps
------------------------------------------------------------

namespace Offside.Emit

open EmitState (Live Reaches HasBlock)

variable {s s' : EmitState}
variable {function : String}
variable {args : List IR.Operand}

theorem currentFunction_live
    (hLive : s.Live function args) :
    currentFunction s = .ok function s := by
  rcases hLive.cursor with ⟨_, _, hCursor, _⟩
  exact currentFunction_apply hCursor

theorem currentBlock_live
    (hLive : s.Live function args) :
    ∃ label, currentBlock s = .ok label s := by
  rcases hLive.cursor with ⟨label, _, hCursor, _⟩
  exact ⟨label, currentBlock_apply hCursor⟩

theorem register_reaches
    (hLive : s.Live function args)
    {changed hint name : String}
    (hRun : register changed hint s = .ok name s') :
    s.Reaches function args [] s' := by
  cases hRun
  exact hLive.quiet (IR.Module.code_register changed hint)
    (IR.Module.retains_register function changed hint) rfl rfl

theorem attachBlock_reaches
    (hLive : s.Live function args)
    {label : String}
    (hRun : attachBlock function label s = .ok () s') :
    s.Reaches function args [] s' ∧ s'.HasBlock function label := by
  cases hRun
  refine ⟨hLive.quiet ?_
    (IR.Module.retains_attach function function label) rfl rfl, ?_⟩
  · exact IR.Module.code_modify _ fun f _ => f.code_attach label
  · rcases hLive.arguments with ⟨f, hFunction, _⟩
    have hName : f.name = function := by
      simpa using List.find?_some hFunction
    subst hName
    refine ⟨f.attach label,
      IR.Module.function?_modify hFunction _ rfl, ?_⟩
    rw [IR.Function.labels_attach]
    exact List.mem_append_right _ (List.mem_singleton.mpr rfl)

theorem appendBlock_reaches
    (hLive : s.Live function args)
    {hint label : String}
    (hRun : appendBlock function hint s = .ok label s') :
    s.Reaches function args [] s' ∧ s'.HasBlock function label := by
  rcases Steps.bind_eq_ok hRun with ⟨_, t, hRegister, hAttach⟩
  have hFirst := register_reaches hLive hRegister
  rcases Steps.bind_eq_ok hAttach with ⟨_, u, hAttach', hDone⟩
  cases hDone
  rcases attachBlock_reaches hFirst.live hAttach' with
    ⟨hSecond, hBlock⟩
  exact ⟨hFirst.trans hSecond, hBlock⟩

theorem moveToStart_reaches
    (hLive : s.Live function args)
    {label : String}
    (hBlock : s.HasBlock function label)
    (hRun : moveToStart function label s = .ok () s') :
    s.Reaches function args [] s' := by
  cases hRun
  exact hLive.move hBlock 0

/- Code goes to a block that is added now under a known name. -/
theorem attach_reaches
    (hLive : s.Live function args)
    {label : String}
    {t : EmitState}
    (hAttach : attachBlock function label s = .ok () t)
    (hMove : moveToStart function label t = .ok () s') :
    s.Reaches function args [] s' := by
  rcases attachBlock_reaches hLive hAttach with ⟨hFirst, hBlock⟩
  exact hFirst.trans (moveToStart_reaches hFirst.live hBlock hMove)

theorem moveToEnd_reaches
    (hLive : s.Live function args)
    (hRun : moveToEnd s = .ok () s') :
    s.Reaches function args [] s' := by
  rcases hLive.cursor with ⟨label, anchor, hCursor, hBlock⟩
  cases hRun
  simp only [hCursor]
  exact hLive.move hBlock _

theorem push_reaches
    (hLive : s.Live function args)
    {value : IR.Operand}
    (hRun : push value s = .ok () s') :
    s.Reaches function args [] s' := by
  cases hRun
  exact hLive.quiet rfl (.refl _ _) rfl rfl

theorem declareFunction_reaches
    (hLive : s.Live function args)
    {proto : Node}
    {operand : IR.Operand}
    (hRun : declareFunction proto s = .ok operand s') :
    s.Reaches function args [] s' := by
  have hDeclares := declareFunction_declares hRun
  exact hLive.quiet hDeclares.code
    (fun f hFunction => ⟨f, hDeclares.functions _ f hFunction, rfl,
      List.Subset.refl _⟩)
    hDeclares.cursor hDeclares.bindings

end Offside.Emit

------------------------------------------------------------
-- Instructions
------------------------------------------------------------

namespace Offside.EmitState.Reaches

variable {s t u : EmitState}
variable {function : String}
variable {args : List IR.Operand}
variable {emitted : List (String × IR.Instruction)}

/-
  An instruction is placed in the block that code goes to, on
  memory that is known or was reserved.
-/
theorem insert
    (hReaches : s.Reaches function args emitted t)
    {c : IR.Cursor}
    (hCursor : t.generator.cursor = some c)
    {name : String}
    {op : IR.Op}
    (hRun : Emit.insertAt c name op t = .ok () u)
    (hChecked : op.isChecked = true)
    (hPointer : ∀ address, op.pointer? = some address →
      s.Knows address ∨ IR.Reserves emitted function address) :
    ∃ n, s.Reaches function args
      (emitted ++ List.replicate (n + 1) (function, ⟨name, op⟩)) u := by
  rcases hReaches.live.cursor with ⟨label, anchor, hHere, hBlock⟩
  rw [hCursor] at hHere
  cases hHere
  rcases
      t.generator.module.insert_emits ⟨function, label, anchor⟩
        ⟨name, op⟩ with
    ⟨n, hEmits, hSome⟩
  have hPos : 0 < n := by
    rcases hBlock with ⟨f, hFunction, hLabel⟩
    exact hSome f (List.mem_of_find?_eq_some hFunction)
      (by simpa using List.find?_some hFunction) hLabel
  rcases Nat.exists_eq_succ_of_ne_zero (Nat.ne_of_gt hPos) with ⟨k, rfl⟩
  have hRetains :=
    IR.Module.retains_insert (m := t.generator.module) function
      ⟨function, label, anchor⟩ ⟨name, op⟩
  cases hRun
  refine ⟨k, ⟨?_, ?_, ?_, ?_⟩, ?_, ?_⟩
  · exact hReaches.code.trans hEmits
  · intro e hMem
    rcases List.mem_append.mp hMem with hMem | hMem
    · exact hReaches.instructions e hMem
    · rw [List.eq_of_mem_replicate hMem]
      exact ⟨rfl, hChecked⟩
  · intro e hMem address hAddress
    have hKnown : s.Knows address ∨
        IR.Reserves emitted function address := by
      rcases List.mem_append.mp hMem with hMem | hMem
      · exact hReaches.pointers e hMem address hAddress
      · rw [List.eq_of_mem_replicate hMem] at hAddress
        exact hPointer address hAddress
    exact hKnown.imp_right fun hReserves => hReserves.append _
  · exact fun address hKnows =>
      (hReaches.bindings address hKnows).imp_right fun hReserves =>
        hReserves.append _
  · exact ⟨(hReaches.live.retained hRetains rfl : Live
      { t with generator.module := _ } function args).arguments,
      label, anchor + 1, rfl, hBlock.retained hRetains⟩
  · exact fun label hOld =>
      (hReaches.blocks label hOld).retained hRetains

theorem place
    (hReaches : s.Reaches function args emitted t)
    {hint name : String}
    {op : IR.Op}
    (hRun : Emit.place hint op t = .ok name u)
    (hChecked : op.isChecked = true)
    (hPointer : ∀ address, op.pointer? = some address →
      s.Knows address ∨ IR.Reserves emitted function address) :
    ∃ n, s.Reaches function args
      (emitted ++ List.replicate (n + 1) (function, ⟨name, op⟩)) u := by
  rcases hReaches.live.cursor with ⟨label, anchor, hCursor, _⟩
  rw [Emit.place, Steps.bind_ok (Emit.cursor_apply hCursor)] at hRun
  rcases Steps.bind_eq_ok hRun with ⟨_, v, hRegister, hRun₁⟩
  rcases Steps.bind_eq_ok hRun₁ with ⟨_, w, hInsert, hDone⟩
  cases hDone
  have hFirst :=
    hReaches.trans (Emit.register_reaches hReaches.live hRegister)
  rw [List.append_nil] at hFirst
  refine hFirst.insert ?_ hInsert hChecked hPointer
  cases hRegister
  exact hCursor

theorem terminate
    (hReaches : s.Reaches function args emitted t)
    {op : IR.Op}
    (hRun : Emit.terminate op t = .ok () u)
    (hChecked : op.isChecked = true)
    (hPointer : op.pointer? = none) :
    ∃ name n, s.Reaches function args
      (emitted ++ List.replicate (n + 1) (function, ⟨name, op⟩)) u := by
  rcases hReaches.live.cursor with ⟨label, anchor, hCursor, _⟩
  rw [Emit.terminate, Steps.bind_ok (Emit.cursor_apply hCursor)] at hRun
  rcases Steps.bind_eq_ok hRun with ⟨name, v, hRegister, hRun₁⟩
  rw [Steps.bind_ok (Steps.get_apply v)] at hRun₁
  have hFirst :=
    hReaches.trans (Emit.register_reaches hReaches.live hRegister)
  rw [List.append_nil] at hFirst
  split at hRun₁
  · cases hRun₁
  · refine ⟨name, hFirst.insert ?_ hRun₁ hChecked ?_⟩
    · cases hRegister
      exact hCursor
    · rw [hPointer]
      simp

/- Memory is reserved at the start of the function. -/
theorem allocate
    (hReaches : s.Reaches function args emitted t)
    {hint : String}
    {address : IR.Operand}
    (hRun : Emit.allocate hint "float" t = .ok address u) :
    ∃ more,
      s.Reaches function args (emitted ++ more) u ∧
      IR.Reserves (emitted ++ more) function address := by
  rw [Emit.allocate,
    Steps.bind_ok (Emit.currentFunction_live hReaches.live)] at hRun
  rcases Steps.bind_eq_ok hRun with ⟨name, v, hRegister, hReserve⟩
  have hFirst :=
    hReaches.trans (Emit.register_reaches hReaches.live hRegister)
  rw [List.append_nil] at hFirst
  let i : IR.Instruction := ⟨name, .alloca .float⟩
  rcases v.generator.module.reserve_emits function i with
    ⟨n, hEmits, hSome⟩
  have hPos : 0 < n := by
    rcases hFirst.live.cursor with ⟨label, _, _, f, hFunction, hLabel⟩
    refine hSome f (List.mem_of_find?_eq_some hFunction)
      (by simpa using List.find?_some hFunction) ?_
    rintro hNone
    rw [IR.Function.labels, hNone] at hLabel
    exact List.not_mem_nil hLabel
  have hMem : (function, i) ∈
      emitted ++ List.replicate n (function, i) :=
    List.mem_append_right _
      (List.mem_replicate.mpr ⟨Nat.ne_of_gt hPos, rfl⟩)
  have hRetains :=
    IR.Module.retains_reserve (m := v.generator.module) function
      function i
  have hEmission : Emission function v (List.replicate n (function, i))
      { v with
        generator.module := v.generator.module.modify function
          fun f => f.modifyEntry fun b => b.insert 0 i } := by
    refine ⟨hEmits, ?_, ?_, fun address hKnows => .inl hKnows⟩
    · intro e hMem
      rw [List.eq_of_mem_replicate hMem]
      exact ⟨rfl, rfl⟩
    · intro e hMem address hAddress
      rw [List.eq_of_mem_replicate hMem] at hAddress
      cases hAddress
  cases hReserve
  refine ⟨List.replicate n (function, i),
    hFirst.trans ⟨hEmission, hFirst.live.retained hRetains rfl,
      fun label hOld => hOld.retained hRetains⟩, name, hMem, rfl⟩

/- A variable is bound to memory that was reserved. -/
theorem bind
    (hReaches : s.Reaches function args emitted t)
    {address : IR.Operand}
    (hReserves : IR.Reserves emitted function address)
    (name : String) :
    s.Reaches function args emitted
      { t with bindings := t.bindings.set name address } where
  toEmission :=
    { hReaches.toEmission with
      bindings := by
        rintro other ⟨x, hBound⟩
        rw [Bindings.get?_set] at hBound
        split_ifs at hBound
        · cases hBound
          exact .inr hReserves
        · exact hReaches.bindings other ⟨x, hBound⟩ }
  live := ⟨hReaches.live.arguments, hReaches.live.cursor⟩
  blocks := hReaches.blocks

/- A variable is bound as it was. -/
theorem restore
    (hReaches : s.Reaches function args emitted t)
    {old : Option IR.Operand}
    (hOld : ∀ address, old = some address →
      s.Knows address ∨ IR.Reserves emitted function address)
    (name : String) :
    s.Reaches function args emitted
      { t with bindings := t.bindings.restore name old } where
  toEmission :=
    { hReaches.toEmission with
      bindings := by
        rintro other ⟨x, hBound⟩
        rw [Bindings.get?_restore] at hBound
        split_ifs at hBound
        · exact hOld other hBound
        · exact hReaches.bindings other ⟨x, hBound⟩ }
  live := ⟨hReaches.live.arguments, hReaches.live.cursor⟩
  blocks := hReaches.blocks

theorem load
    (hReaches : s.Reaches function args emitted t)
    {pointer value : IR.Operand}
    {hint : String}
    (hRun : Emit.load pointer hint t = .ok value u)
    (hPointer :
      s.Knows pointer ∨ IR.Reserves emitted function pointer) :
    ∃ more, s.Reaches function args (emitted ++ more) u := by
  rcases Emit.load_eq_ok hRun with ⟨type, name, hType, hPlace, _⟩
  rcases hReaches.place hPlace (IR.Op.isChecked_load hType)
      (by rintro _ ⟨⟩; exact hPointer) with
    ⟨n, hNext⟩
  exact ⟨_, hNext⟩

theorem store
    (hReaches : s.Reaches function args emitted t)
    {value pointer : IR.Operand}
    (hRun : Emit.store value pointer t = .ok () u)
    (hPointer :
      s.Knows pointer ∨ IR.Reserves emitted function pointer) :
    ∃ more,
      s.Reaches function args (emitted ++ more) u ∧
      ∀ e ∈ more, e.2.op.isSound = true := by
  rcases Emit.store_eq_ok hRun with ⟨type, name, hType, hValue, hPlace⟩
  have hChecked := IR.Op.isChecked_store hValue hType
  rcases hReaches.place hPlace hChecked
      (by rintro _ ⟨⟩; exact hPointer) with
    ⟨n, hNext⟩
  refine ⟨_, hNext, ?_⟩
  intro e hMem
  rw [List.eq_of_mem_replicate hMem]
  exact hChecked

end Offside.EmitState.Reaches

------------------------------------------------------------
-- Forms of the Language
------------------------------------------------------------

namespace Offside.Emit

open EmitState (Follows Reaches)

/- Nothing is said of a run that fails. -/
theorem steady_follows :
    Steady Follows ⊤ where
  refl := fun s function args hLive => ⟨[], .refl hLive⟩
  trans := by
    intro s t u hFirst hSecond function args hLive
    rcases hFirst function args hLive with ⟨emitted, hReaches⟩
    rcases hReaches.follow hSecond with ⟨more, hReaches'⟩
    exact ⟨emitted ++ more, hReaches'⟩
  fails := fun _ => trivial
  after := fun _ _ => trivial
  stack := fun s values function args hLive =>
    ⟨[], hLive.quiet rfl (.refl _ _) rfl rfl⟩
  printed := fun s text function args hLive =>
    ⟨[], hLive.quiet rfl (.refl _ _) rfl rfl⟩
  place := by
    intro hint op _ _ hChecked hPointer s
    refine ⟨?_, fun _ _ _ => trivial⟩
    intro name s' hRun function args hLive
    rcases (Reaches.refl hLive).place hRun hChecked
        (by rw [hPointer]; nofun) with
      ⟨n, hReaches⟩
    exact ⟨_, hReaches⟩
  access := by
    intro s x address hint op hBound hChecked hPointer
    refine ⟨?_, fun _ _ _ => trivial⟩
    intro name s' hRun function args hLive
    rcases (Reaches.refl hLive).place hRun hChecked
        (by rw [hPointer]; rintro _ ⟨⟩; exact .inl ⟨x, hBound⟩) with
      ⟨n, hReaches⟩
    exact ⟨_, hReaches⟩
  declare := by
    intro proto s
    refine ⟨?_, fun _ _ _ => trivial⟩
    intro operand s' hRun function args hLive
    exact ⟨[], declareFunction_reaches hLive hRun⟩

theorem follows_conditional
    {cond yes no : Emit Unit}
    (hCond : Keeps Follows ⊤ cond)
    (hYes : Keeps Follows ⊤ yes)
    (hNo : Keeps Follows ⊤ no) :
    Keeps Follows ⊤ (conditional cond yes no) := by
  intro s
  refine ⟨?_, fun _ _ _ => trivial⟩
  intro _ s' hRun function args hLive
  rcases Steps.bind_eq_ok hRun with ⟨value, s₁, hRun₁, hRun⟩
  rcases (Reaches.refl hLive).follow
      ((steady_follows.basic.takingValue hCond _ _).ok _ _ hRun₁) with
    ⟨_, hReaches₁⟩
  rcases Steps.bind_eq_ok hRun with ⟨test, s₂, hRun₂, hRun⟩
  rcases hReaches₁.follow
      ((steady_follows.compare _ _ _ _ _).ok _ _ hRun₂) with
    ⟨_, hReaches₂⟩
  rw [Steps.bind_ok (currentFunction_live hReaches₂.live)] at hRun
  -- The labels are taken, and the block ends with a branch.
  rcases Steps.bind_eq_ok hRun with ⟨yesLabel, s₃, hRun₃, hRun⟩
  rcases appendBlock_reaches hReaches₂.live hRun₃ with
    ⟨hReaches₃, hYesBlock⟩
  rcases Steps.bind_eq_ok hRun with ⟨noLabel, s₄, hRun₄, hRun⟩
  have hReaches₄ := register_reaches hReaches₃.live hRun₄
  rcases Steps.bind_eq_ok hRun with ⟨meetLabel, s₅, hRun₅, hRun⟩
  have hReaches₅ :=
    hReaches₄.trans (register_reaches hReaches₄.live hRun₅)
  rcases Steps.bind_eq_ok hRun with ⟨_, s₆, hRun₆, hRun⟩
  rcases hReaches₅.terminate hRun₆
      (IR.Op.isChecked_branch (compare_isSingle hRun₂) _ _) rfl with
    ⟨_, _, hReaches₆⟩
  rcases Steps.bind_eq_ok hRun with ⟨_, s₇, hRun₇, hRun⟩
  have hReaches₇ := moveToStart_reaches hReaches₆.live
    (hReaches₆.blocks yesLabel hYesBlock) hRun₇
  -- The first part is emitted, then the second one.
  rcases Steps.bind_eq_ok hRun with ⟨yesValue, s₈, hRun₈, hRun⟩
  rcases hReaches₇.follow
      ((steady_follows.basic.takingValue hYes _ _).ok _ _ hRun₈) with
    ⟨_, hReaches₈⟩
  rcases Steps.bind_eq_ok hRun with ⟨_, s₉, hRun₉, hRun⟩
  rcases hReaches₈.terminate hRun₉ rfl rfl with ⟨_, _, hReaches₉⟩
  rcases currentBlock_live hReaches₉.live with ⟨yesEnd, hYesEnd⟩
  rw [Steps.bind_ok hYesEnd,
    Steps.bind_ok (currentFunction_live hReaches₉.live)] at hRun
  rcases Steps.bind_eq_ok hRun with ⟨_, s₁₀, hRun₁₀, hRun⟩
  rcases Steps.bind_eq_ok hRun with ⟨_, s₁₁, hRun₁₁, hRun⟩
  have hReaches₁₁ := attach_reaches hReaches₉.live hRun₁₀ hRun₁₁
  rcases Steps.bind_eq_ok hRun with ⟨noValue, s₁₂, hRun₁₂, hRun⟩
  rcases hReaches₁₁.follow
      ((steady_follows.basic.takingValue hNo _ _).ok _ _ hRun₁₂) with
    ⟨_, hReaches₁₂⟩
  rcases currentBlock_live hReaches₁₂.live with ⟨noEnd, hNoEnd⟩
  rw [Steps.bind_ok hNoEnd] at hRun
  rcases Steps.bind_eq_ok hRun with ⟨_, s₁₃, hRun₁₃, hRun⟩
  rcases hReaches₁₂.terminate hRun₁₃ rfl rfl with ⟨_, _, hReaches₁₃⟩
  rw [Steps.bind_ok (currentFunction_live hReaches₁₃.live)] at hRun
  -- Both parts meet, and a value is picked.
  rcases Steps.bind_eq_ok hRun with ⟨_, s₁₄, hRun₁₄, hRun⟩
  rcases Steps.bind_eq_ok hRun with ⟨_, s₁₅, hRun₁₅, hRun⟩
  have hReaches₁₅ := attach_reaches hReaches₁₃.live hRun₁₄ hRun₁₅
  rcases Steps.bind_eq_ok hRun with ⟨name, s₁₆, hRun₁₆, hPush⟩
  rcases hReaches₁₅.place hRun₁₆ rfl nofun with ⟨_, hReaches₁₆⟩
  have hDone := push_reaches hReaches₁₆.live hPush
  exact ⟨_, hReaches₂.trans (hReaches₃.trans (hReaches₆.trans
    (hReaches₉.trans (hReaches₁₃.trans (hReaches₁₆.trans hDone)))))⟩

/- The end of a loop works on the memory of its counter. -/
theorem closeLoop_reaches
    {s t u : EmitState}
    {function : String}
    {args : List IR.Operand}
    {emitted : List (String × IR.Instruction)}
    (hReaches : s.Reaches function args emitted t)
    {counter head : String}
    {address step last : IR.Operand}
    (hAddress :
      s.Knows address ∨ IR.Reserves emitted function address)
    (hRun : closeLoop counter address step last head t = .ok () u) :
    ∃ more, s.Reaches function args (emitted ++ more) u := by
  rcases Steps.bind_eq_ok hRun with ⟨value, t₁, hRun₁, hRun⟩
  rcases hReaches.load hRun₁ hAddress with ⟨e₁, hReaches₁⟩
  rcases Steps.bind_eq_ok hRun with ⟨sum, t₂, hRun₂, hRun⟩
  rcases hReaches₁.follow
      ((steady_follows.arithmetic _ _ _ _ _).ok _ _ hRun₂) with
    ⟨e₂, hReaches₂⟩
  have hAddress₂ : s.Knows address ∨
      IR.Reserves (emitted ++ e₁ ++ e₂) function address :=
    hAddress.imp_right fun hReserves => (hReserves.append _).append _
  rcases Steps.bind_eq_ok hRun with ⟨_, t₃, hRun₃, hRun⟩
  rcases hReaches₂.store hRun₃ hAddress₂ with ⟨e₃, hReaches₃, _⟩
  rcases Steps.bind_eq_ok hRun with ⟨test, t₄, hRun₄, hRun⟩
  rcases hReaches₃.follow
      ((steady_follows.compare _ _ _ _ _).ok _ _ hRun₄) with
    ⟨e₄, hReaches₄⟩
  rw [Steps.bind_ok (currentFunction_live hReaches₄.live)] at hRun
  rcases Steps.bind_eq_ok hRun with ⟨next, t₅, hRun₅, hRun⟩
  rcases appendBlock_reaches hReaches₄.live hRun₅ with
    ⟨hReaches₅, hBlock⟩
  rcases Steps.bind_eq_ok hRun with ⟨_, t₆, hRun₆, hRun₇⟩
  rcases (Reaches.refl hReaches₅.live).terminate hRun₆
      (IR.Op.isChecked_branch (compare_isSingle hRun₄) _ _) rfl with
    ⟨_, _, hReaches₆⟩
  have hReaches₇ := moveToStart_reaches hReaches₆.live
    (hReaches₆.blocks next hBlock) hRun₇
  have hAll := hReaches₄.trans (hReaches₅.trans
    (hReaches₆.trans hReaches₇))
  simp only [List.append_assoc] at hAll
  exact ⟨_, hAll⟩

theorem follows_repetition
    {counter : Value}
    {hasStep : Bool}
    {first last step body : Emit Unit}
    (hFirst : Keeps Follows ⊤ first)
    (hLast : Keeps Follows ⊤ last)
    (hStep : Keeps Follows ⊤ step)
    (hBody : Keeps Follows ⊤ body) :
    Keeps Follows ⊤
      (repetition counter hasStep first last step body) := by
  intro s
  refine ⟨?_, fun _ _ _ => trivial⟩
  intro _ s' hRun function args hLive
  -- The counter has its memory and its first value.
  rcases Steps.bind_eq_ok hRun with ⟨address, s₁, hRun₁, hRun⟩
  rcases (Reaches.refl hLive).allocate hRun₁ with
    ⟨e₁, hReaches₁, hReserves₁⟩
  rcases Steps.bind_eq_ok hRun with ⟨_, s₂, hRun₂, hRun⟩
  have hReaches₂ :=
    hReaches₁.trans (moveToEnd_reaches hReaches₁.live hRun₂)
  rcases Steps.bind_eq_ok hRun with ⟨start, s₃, hRun₃, hRun⟩
  rcases hReaches₂.follow
      ((steady_follows.basic.takingValue hFirst _ _).ok _ _ hRun₃) with
    ⟨e₃, hReaches₃⟩
  rcases Steps.bind_eq_ok hRun with ⟨_, s₄, hRun₄, hRun⟩
  rcases hReaches₃.store hRun₄
      (.inr ((hReserves₁.append _).append _)) with
    ⟨e₄, hReaches₄, _⟩
  rw [Steps.bind_ok (currentFunction_live hReaches₄.live)] at hRun
  -- Code goes to where the loop starts.
  rcases Steps.bind_eq_ok hRun with ⟨head, s₅, hRun₅, hRun⟩
  rcases appendBlock_reaches hReaches₄.live hRun₅ with
    ⟨hReaches₅, hHead⟩
  rcases Steps.bind_eq_ok hRun with ⟨_, s₆, hRun₆, hRun⟩
  rcases (Reaches.refl hReaches₅.live).terminate hRun₆ rfl rfl with
    ⟨_, _, hReaches₆⟩
  rcases Steps.bind_eq_ok hRun with ⟨_, s₇, hRun₇, hRun⟩
  have hReaches₇ := moveToStart_reaches hReaches₆.live
    (hReaches₆.blocks head hHead) hRun₇
  have hEntered : ∃ emitted,
      s.Reaches function args emitted s₇ ∧
        IR.Reserves emitted function address :=
    ⟨_, hReaches₄.trans (hReaches₅.trans (hReaches₆.trans hReaches₇)),
      (((hReserves₁.append _).append _).append _).append _⟩
  rcases hEntered with ⟨emitted, hEntered, hReserves⟩
  rcases Steps.bind_eq_ok hRun with ⟨old, s₈, hRun₈, hRun⟩
  cases hRun₈
  rcases Steps.bind_eq_ok hRun with ⟨_, s₉, hRun₉, hRun⟩
  cases hRun₉
  have hReaches₉ := hEntered.bind hReserves counter.shown
  -- Where generation stops, the counter is still bound.
  rcases Steps.bind_eq_ok hRun with ⟨value, s₁₀, hRun₁₀, hRun⟩
  rcases hReaches₉.follow
      ((steady_follows.basic.taking hBody _).ok _ _ hRun₁₀) with
    ⟨e₁₀, hReaches₁₀⟩
  split at hRun
  · cases hRun
    exact ⟨_, hReaches₁₀⟩
  have hAmount : Keeps Follows ⊤
      (if hasStep then taking step
        else return .const .float Binary64.one) := by
    split
    · exact steady_follows.basic.taking hStep
    · exact steady_follows.pure _
  rcases Steps.bind_eq_ok hRun with ⟨amount, s₁₁, hRun₁₁, hRun⟩
  rcases hReaches₁₀.follow ((hAmount _).ok _ _ hRun₁₁) with
    ⟨e₁₁, hReaches₁₁⟩
  split at hRun
  · cases hRun
    exact ⟨_, hReaches₁₁⟩
  rcases Steps.bind_eq_ok hRun with ⟨limit, s₁₂, hRun₁₂, hRun⟩
  rcases hReaches₁₁.follow
      ((steady_follows.basic.taking hLast _).ok _ _ hRun₁₂) with
    ⟨e₁₂, hReaches₁₂⟩
  split at hRun
  · cases hRun
    exact ⟨_, hReaches₁₂⟩
  -- The loop is closed, and the counter is bound as before.
  rcases Steps.bind_eq_ok hRun with ⟨_, s₁₃, hRun₁₃, hRun⟩
  rcases closeLoop_reaches hReaches₁₂
      (.inr (((hReserves.append _).append _).append _)) hRun₁₃ with
    ⟨e₁₃, hReaches₁₃⟩
  rcases Steps.bind_eq_ok hRun with ⟨_, s₁₄, hRun₁₄, hPush⟩
  cases hRun₁₄
  have hOld : ∀ other, s₇.bindings.get? counter.shown = some other →
      s.Knows other ∨
        IR.Reserves (emitted ++ e₁₀ ++ e₁₁ ++ e₁₂ ++ e₁₃) function other :=
    fun other hBound =>
      (hEntered.bindings other ⟨_, hBound⟩).imp_right fun hReserves =>
        (((hReserves.append _).append _).append _).append _
  have hReaches₁₄ := hReaches₁₃.restore hOld counter.shown
  exact ⟨_, hReaches₁₄.trans (push_reaches hReaches₁₄.live hPush)⟩

/- Whatever is visited in a function, code is emitted there. -/
theorem structured_follows :
    Structured Follows ⊤ where
  toSteady := steady_follows
  conditional := follows_conditional
  repetition := follows_repetition

end Offside.Emit
