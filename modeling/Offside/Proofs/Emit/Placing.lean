import Mathlib
import Offside.Emit.Visit
import Offside.Proofs.IR.Growth
import Offside.Proofs.Steps

/-
  Placing code: what the elementary steps of code generation do
  to the function they work on.

  Key definitions include:
    * `Offside.EmitState.Ready`
    * `Offside.EmitState.Builds`
    * `Offside.EmitState.Extends`
    * `Offside.Emit.Placed`
    * `Offside.Emit.Ended`

  Main statements:
    * `Offside.Emit.place_ready`: at the end of a block that has
      not ended, an instruction is placed under a new name.
    * `Offside.Emit.terminate_ready`: the same for one that ends
      the block.
    * `Offside.Emit.allocate_ready`: memory is reserved without
      a change of place.
-/

------------------------------------------------------------
-- Bindings
------------------------------------------------------------

namespace Offside.Bindings

theorem get?_cons
    (entries : List (String × IR.Operand))
    (x y : String)
    (address : IR.Operand) :
    get? ⟨(x, address) :: entries⟩ y =
      if y = x then some address else get? ⟨entries⟩ y := by
  unfold get?
  by_cases hSame : y = x
  · simp [hSame]
  · have hTest : (y == x) = false := beq_false_of_ne hSame
    rw [List.lookup_cons, hTest, if_neg hSame]

theorem get?_erase
    (b : Bindings)
    (x y : String) :
    (b.erase x).get? y = if y = x then none else b.get? y := by
  rcases b with ⟨entries⟩
  unfold erase
  induction entries with
  | nil => simp [get?]
  | cons entry entries ih =>
      rcases entry with ⟨z, address⟩
      by_cases hEntry : z = x
      · rw [List.filter_cons_of_neg (by simpa using hEntry), ih,
          get?_cons, hEntry]
        split_ifs <;> rfl
      · rw [List.filter_cons_of_pos (by simpa using hEntry),
          get?_cons, get?_cons, ih]
        by_cases hSame : y = z
        · simp [hSame, hEntry]
        · rw [if_neg hSame, if_neg hSame]

theorem get?_set
    (b : Bindings)
    (x y : String)
    (address : IR.Operand) :
    (b.set x address).get? y =
      if y = x then some address else b.get? y := by
  rw [set, get?_cons]
  split_ifs with hSame
  · rfl
  · exact (b.get?_erase x y).trans (if_neg hSame)

theorem get?_restore
    (b : Bindings)
    (x y : String)
    (old : Option IR.Operand) :
    (b.restore x old).get? y = if y = x then old else b.get? y := by
  cases old with
  | none => exact b.get?_erase x y
  | some address => exact b.get?_set x y address

end Offside.Bindings

------------------------------------------------------------
-- Modules
------------------------------------------------------------

namespace Offside.IR.Module

/- The function of a name after it was changed. -/
theorem function?_modify
    {m : Module}
    {f : Function}
    (hFunction : m.function? f.name = some f)
    (change : Function → Function)
    (hName : (change f).name = f.name) :
    (m.modify f.name change).function? f.name = some (change f) := by
  obtain ⟨before, after, hSplit, hBefore⟩ :
      ∃ before after, m.functions = before ++ f :: after ∧
        ∀ g ∈ before, g.name ≠ f.name := by
    obtain ⟨_, before, after, hSplit, hBefore⟩ :=
      List.find?_eq_some_iff_append.mp hFunction
    exact ⟨before, after, hSplit, fun g hMem => by
      simpa using hBefore g hMem⟩
  rw [function?, modify, hSplit, List.map_append, List.map_cons,
    List.find?_append]
  have hNone :
      (before.map fun g => if g.name = f.name then change g else g).find?
        (fun g => g.name = f.name) = none := by
    rw [List.find?_eq_none]
    intro g hMem
    rcases List.mem_map.mp hMem with ⟨g', hOld, rfl⟩
    rw [if_neg (hBefore g' hOld)]
    simpa using hBefore g' hOld
  rw [hNone]
  simp [hName]

end Offside.IR.Module

------------------------------------------------------------
-- States
------------------------------------------------------------

namespace Offside.EmitState

/- The module has the function, and its names are in use. -/
structure Has
    (s : EmitState)
    (f : IR.Function) :
    Prop where
  function : s.generator.module.function? f.name = some f
  registered : f.Registered

/- The state with one more value on the stack. -/
def pushed
    (s : EmitState)
    (value : IR.Operand) :
    EmitState :=
  { s with generator.stack := value :: s.generator.stack }

/-
  The cursor is at the end of a block of the function that has
  not ended; the point says which one, and how many steps stand
  in it.
-/
structure Ready
    (s : EmitState)
    (f : IR.Function)
    (p : IR.Point) :
    Prop extends Has s f where
  cursor :
    ∃ b,
      f.block? p.label = some b ∧
      b.isTerminated = false ∧
      p.pc = b.steps.length ∧
      s.generator.cursor = some ⟨f.name, p.label, b.body.length⟩

/-
  From one state to another the function has grown, and stack
  and bindings are as they were.
-/
structure Builds
    (kept : List String)
    (s : EmitState)
    (f : IR.Function)
    (s' : EmitState)
    (f' : IR.Function) :
    Prop where
  grows : f.Grows kept f'
  stack : s'.generator.stack = s.generator.stack
  bindings : ∀ x, s'.bindings.get? x = s.bindings.get? x

namespace Builds

variable {kept kept' : List String}
variable {s s' s'' : EmitState}
variable {f f' f'' : IR.Function}

theorem refl
    (kept : List String)
    (s : EmitState)
    (f : IR.Function) :
    Builds kept s f s f :=
  ⟨.refl kept f, rfl, fun _ => rfl⟩

theorem trans
    (hFirst : Builds kept s f s' f')
    (hSecond : Builds kept s' f' s'' f'') :
    Builds kept s f s'' f'' where
  grows := hFirst.grows.trans hSecond.grows
  stack := hSecond.stack.trans hFirst.stack
  bindings := fun x => (hSecond.bindings x).trans (hFirst.bindings x)

theorem mono
    (hBuilds : Builds kept' s f s' f')
    (hSubset : kept ⊆ kept') :
    Builds kept s f s' f' :=
  { hBuilds with grows := hBuilds.grows.mono hSubset }

/- The second part may be built on more than the first. -/
theorem append
    (hFirst : Builds f.scope.used s f s' f')
    (hSecond : Builds f'.scope.used s' f' s'' f'') :
    Builds f.scope.used s f s'' f'' :=
  hFirst.trans (hSecond.mono hFirst.grows.used)

end Builds

/-
  Code has been placed from one point to another, which is in
  the same block or in a new one.
-/
structure Extends
    (s : EmitState)
    (f : IR.Function)
    (p : IR.Point)
    (s' : EmitState)
    (f' : IR.Function)
    (q : IR.Point) :
    Prop where
  ready : s'.Ready f' q
  builds : Builds f.scope.used s f s' f'
  label : q.label = p.label ∨ q.label ∉ f.scope.used

theorem Extends.trans
    {s s' s'' : EmitState}
    {f f' f'' : IR.Function}
    {p q r : IR.Point}
    (hFirst : Extends s f p s' f' q)
    (hSecond : Extends s' f' q s'' f'' r) :
    Extends s f p s'' f'' r where
  ready := hSecond.ready
  builds := hFirst.builds.append hSecond.builds
  label := by
    rcases hSecond.label with hSame | hNew
    · rw [hSame]
      exact hFirst.label
    · exact .inr fun hUsed => hNew (hFirst.builds.grows.used hUsed)

/- The label of the block that code is placed in is in use. -/
theorem Ready.label_used
    {s : EmitState}
    {f : IR.Function}
    {p : IR.Point}
    (hReady : s.Ready f p) :
    p.label ∈ f.scope.used := by
  rcases hReady.cursor with ⟨b, hBlock, -⟩
  rw [← IR.Function.label_of_block? hBlock]
  exact hReady.registered.labels b (List.mem_of_find?_eq_some hBlock)

theorem Ready.blocks_ne_nil
    {s : EmitState}
    {f : IR.Function}
    {p : IR.Point}
    (hReady : s.Ready f p) :
    f.blocks ≠ [] := by
  rcases hReady.cursor with ⟨b, hBlock, -⟩
  exact List.ne_nil_of_mem (List.mem_of_find?_eq_some hBlock)

/- The same place, in a function that has the same block there. -/
theorem Ready.of_block
    {s s' : EmitState}
    {f f' : IR.Function}
    {p : IR.Point}
    (hReady : s.Ready f p)
    (hHas : s'.Has f')
    (hName : f'.name = f.name)
    (hBlock : f'.block? p.label = f.block? p.label)
    (hCursor : s'.generator.cursor = s.generator.cursor) :
    s'.Ready f' p where
  toHas := hHas
  cursor := by
    rw [hBlock, hName, hCursor]
    exact hReady.cursor

end Offside.EmitState

------------------------------------------------------------
-- Names and Blocks
------------------------------------------------------------

namespace Offside.Emit

open EmitState (Has Ready Builds Extends)

variable {s : EmitState}
variable {f : IR.Function}
variable {p : IR.Point}
variable {function : String}

/- A change of one function of the module. -/
theorem modifyModule_has
    (hHas : s.Has f)
    (hName : f.name = function)
    (change : IR.Function → IR.Function)
    (hSame : (change f).name = f.name)
    (hRegistered : (change f).Registered) :
    ∃ s',
      modifyModule (fun m => m.modify function change) s = .ok () s' ∧
      s'.Has (change f) ∧
      s'.generator.cursor = s.generator.cursor ∧
      s'.generator.stack = s.generator.stack ∧
      s'.bindings = s.bindings := by
  subst hName
  refine ⟨_, rfl, ⟨?_, hRegistered⟩, rfl, rfl, rfl⟩
  rw [hSame]
  exact IR.Module.function?_modify hHas.function change hSame

/- A name is taken into use. -/
theorem register_has
    (hHas : s.Has f)
    (hName : f.name = function)
    (hint : String) :
    ∃ name s' f',
      register function hint s = .ok name s' ∧
      s'.Has f' ∧
      Builds f.scope.used s f s' f' ∧
      s'.generator.cursor = s.generator.cursor ∧
      f'.blocks = f.blocks ∧
      name ∉ f.scope.used ∧
      name ∈ f'.scope.used := by
  rcases f.register_fresh hint with ⟨hFree, hUsed⟩
  rcases
      modifyModule_has hHas hName (fun g => (g.register hint).2) rfl
        (hHas.registered.register hint) with
    ⟨s', hModify, hHas', hCursor, hStack, hBindings⟩
  have hRun :
      modifyModule (fun _ => s.generator.module.modify function
        fun g => (g.register hint).2) s = .ok () s' :=
    hModify
  refine ⟨(f.register hint).1, s', (f.register hint).2, ?_, hHas',
    ⟨f.grows_register _ hint, hStack, fun x => by rw [hBindings]⟩,
    hCursor, rfl, hFree, hUsed⟩
  have hModule :
      s.generator.module.register function hint =
        ((f.register hint).1,
          s.generator.module.modify function
            fun g => (g.register hint).2) := by
    rw [IR.Module.register, ← hName, hHas.function]
  rw [register, Steps.bind_apply]
  simp only [Steps.get_apply, hModule]
  exact (Steps.bind_ok hRun _).trans rfl

/- The same while code is placed. -/
theorem register_ready
    (hReady : s.Ready f p)
    (hName : f.name = function)
    (hint : String) :
    ∃ name s' f',
      register function hint s = .ok name s' ∧
      Extends s f p s' f' p ∧
      s'.generator.cursor = s.generator.cursor ∧
      f'.blocks = f.blocks ∧
      name ∉ f.scope.used ∧
      name ∈ f'.scope.used := by
  rcases register_has hReady.toHas hName hint with
    ⟨name, s', f', hRun, hHas, hBuilds, hCursor, hBlocks, hFree,
      hUsed⟩
  have hBlock : f'.block? p.label = f.block? p.label := by
    rw [IR.Function.block?, hBlocks]
    rfl
  exact ⟨name, s', f', hRun,
    ⟨hReady.of_block hHas hBuilds.grows.name hBlock hCursor, hBuilds,
      .inl rfl⟩,
    hCursor, hBlocks, hFree, hUsed⟩

/- A block is added whose name is in use already. -/
theorem attachBlock_has
    (hHas : s.Has f)
    (hName : f.name = function)
    {kept : List String}
    {label : String}
    (hUsed : label ∈ f.scope.used)
    (hNew : label ∉ kept)
    (hNone : f.block? label = none) :
    ∃ s' f',
      attachBlock function label s = .ok () s' ∧
      s'.Has f' ∧
      Builds kept s f s' f' ∧
      s'.generator.cursor = s.generator.cursor ∧
      f'.block? label = some ⟨label, []⟩ ∧
      (∀ other, other ≠ label → f'.block? other = f.block? other) := by
  rcases
      modifyModule_has hHas hName (fun f => f.attach label) rfl
        (hHas.registered.attach hUsed) with
    ⟨s', hModify, hHas', hCursor, hStack, hBindings⟩
  refine ⟨s', f.attach label, hModify, hHas',
    ⟨IR.Function.grows_attach hNew, hStack,
      fun x => by rw [hBindings]⟩,
    hCursor, IR.Function.block?_attach_self hNone, ?_⟩
  intro other hOther
  rw [IR.Function.block?_attach, if_neg (Ne.symm hOther), Option.or_none]

/- A block is added under a new name. -/
theorem appendBlock_ready
    (hReady : s.Ready f p)
    (hName : f.name = function)
    (hint : String) :
    ∃ label s' f',
      appendBlock function hint s = .ok label s' ∧
      Extends s f p s' f' p ∧
      label ∉ f.scope.used ∧
      label ∈ f'.scope.used ∧
      f'.block? label = some ⟨label, []⟩ := by
  rcases register_ready hReady hName hint with
    ⟨label, s₁, f₁, hRegister, hFirst, -, hBlocks, hFree, hUsed⟩
  have hNone : f₁.block? label = none := by
    rw [IR.Function.block?, hBlocks]
    exact hReady.registered.block?_eq_none hFree
  have hOther : p.label ≠ label := by
    rintro hSame
    exact hFree (hSame ▸ hReady.label_used)
  rcases
      attachBlock_has hFirst.ready.toHas
        (hFirst.builds.grows.name.trans hName) hUsed hFree hNone with
    ⟨s₂, f₂, hAttach, hHas, hBuilds, hCursor, hBlock, hOthers⟩
  refine ⟨label, s₂, f₂, ?_, ⟨?_, hFirst.builds.trans hBuilds, .inl rfl⟩,
    hFree, hBuilds.grows.used hUsed, hBlock⟩
  · rw [appendBlock, Steps.bind_ok hRegister]
    exact (Steps.bind_ok hAttach _).trans rfl
  · exact hFirst.ready.of_block hHas hBuilds.grows.name
      (hOthers p.label hOther) hCursor

/- Code goes to an empty block from there on. -/
theorem moveToStart_ready
    (hHas : s.Has f)
    (hName : f.name = function)
    (kept : List String)
    {label : String}
    (hBlock : f.block? label = some ⟨label, []⟩) :
    ∃ s',
      moveToStart function label s = .ok () s' ∧
      s'.Ready f (.start label) ∧
      Builds kept s f s' f := by
  refine ⟨{ s with generator.cursor := some ⟨function, label, 0⟩ }, rfl,
    ⟨⟨hHas.function, hHas.registered⟩, ⟨label, []⟩, hBlock, rfl, rfl,
      ?_⟩,
    ⟨.refl _ f, rfl, fun _ => rfl⟩⟩
  rw [hName]
  rfl

end Offside.Emit

------------------------------------------------------------
-- Instructions
------------------------------------------------------------

namespace Offside.Emit

open EmitState (Has Ready Builds Extends)

variable {s : EmitState}
variable {f : IR.Function}
variable {p : IR.Point}

theorem cursor_apply
    {c : IR.Cursor}
    (hCursor : s.generator.cursor = some c) :
    cursor s = .ok c s := by
  rw [cursor, Steps.bind_ok (Steps.get_apply s), hCursor]
  rfl

theorem currentBlock_apply
    {c : IR.Cursor}
    (hCursor : s.generator.cursor = some c) :
    currentBlock s = .ok c.block s := by
  rw [currentBlock, Steps.bind_ok (cursor_apply hCursor)]
  rfl

theorem currentFunction_apply
    {c : IR.Cursor}
    (hCursor : s.generator.cursor = some c) :
    currentFunction s = .ok c.function s := by
  rw [currentFunction, Steps.bind_ok (Steps.get_apply s), hCursor]
  rfl

/- An instruction at the end of a block is its last step. -/
theorem insertAt_has
    (hHas : s.Has f)
    {function label : String}
    (hName : f.name = function)
    {b : IR.Block}
    (hBlock : f.block? label = some b)
    {i : IR.Instruction}
    (hUsed : i.name ∈ f.scope.used)
    (hStep : i.op.isReservation = false) :
    ∃ s' f',
      insertAt ⟨function, label, b.body.length⟩ i.name i.op s =
        .ok () s' ∧
      s'.Has f' ∧
      Builds f.scope.used s f s' f' ∧
      f'.fetch ⟨label, b.steps.length⟩ = some i ∧
      s'.generator.cursor =
        some ⟨function, label, b.body.length + 1⟩ ∧
      f'.block? label = some (b.insert b.body.length i) ∧
      (∀ other, other ≠ label → f'.block? other = f.block? other) := by
  rcases
      modifyModule_has hHas hName
        (fun f => f.modifyBlock label fun b' => b'.insert b.body.length i)
        rfl (hHas.registered.modifyBlock label b.body.length hUsed) with
    ⟨s₁, hModify, hHas₁, -, hStack, hBindings⟩
  have hRun :
      modifyModule (fun m =>
        m.insert ⟨function, label, b.body.length⟩ ⟨i.name, i.op⟩) s =
          .ok () s₁ :=
    hModify
  refine ⟨_, _, (Steps.bind_ok hRun _).trans rfl,
    ⟨hHas₁.function, hHas₁.registered⟩,
    ⟨IR.Function.grows_append _ hBlock hStep, hStack,
      fun x => by rw [← hBindings]⟩,
    IR.Function.fetch_append hBlock hStep, rfl,
    IR.Function.block?_append hBlock i, ?_⟩
  intro other hOther
  rw [IR.Function.block?_insert]
  simp only [if_neg (Ne.symm hOther), Option.map_id']

/- An instruction has been placed, under a new name. -/
structure Placed
    (s : EmitState)
    (f : IR.Function)
    (p : IR.Point)
    (i : IR.Instruction)
    (s' : EmitState)
    (f' : IR.Function) :
    Prop extends Extends s f p s' f' p.next where
  fetch : f'.fetch p = some i
  free : i.name ∉ f.scope.used
  used : i.name ∈ f'.scope.used

theorem place_ready
    (hReady : s.Ready f p)
    (hint : String)
    (op : IR.Op)
    (hStep : op.isReservation = false)
    (hOpen : op.isTerminator = false) :
    ∃ name s' f',
      place hint op s = .ok name s' ∧ Placed s f p ⟨name, op⟩ s' f' := by
  rcases register_ready hReady rfl hint with
    ⟨name, s₁, f₁, hRegister, hFirst, hSame, -, hFree, hUsed⟩
  rcases hFirst.ready.cursor with ⟨b, hBlock, hEnd, hPc, hCursor⟩
  rw [hSame, hFirst.builds.grows.name] at hCursor
  rcases
      insertAt_has (i := ⟨name, op⟩) hFirst.ready.toHas
        hFirst.builds.grows.name hBlock hUsed hStep with
    ⟨s₂, f₂, hInsert, hHas, hBuilds, hFetch, hCursor₂, hBlock₂, -⟩
  refine ⟨name, s₂, f₂, ?_, ⟨⟨⟨hHas, _, hBlock₂, ?_, ?_, ?_⟩,
    hFirst.builds.append hBuilds, .inl rfl⟩, ?_, hFree,
    hBuilds.grows.used hUsed⟩⟩
  · rw [place, Steps.bind_ok (cursor_apply hCursor),
      Steps.bind_ok hRegister]
    exact (Steps.bind_ok hInsert _).trans rfl
  · rw [b.isTerminated_append, hEnd]
    exact hOpen
  · rw [b.steps_append hStep, List.length_append, ← hPc]
    rfl
  · rw [hCursor₂, hBuilds.grows.name, hFirst.builds.grows.name,
      b.length_insert]
    rfl
  · rw [← hFetch, ← hPc]

/-
  A block has been ended.  The cursor is still in it, so that no
  code can follow before it has moved.
-/
structure Ended
    (s : EmitState)
    (f : IR.Function)
    (p : IR.Point)
    (op : IR.Op)
    (s' : EmitState)
    (f' : IR.Function) :
    Prop extends Has s' f' where
  builds : Builds f.scope.used s f s' f'
  fetch : ∃ name, f'.fetch p = some ⟨name, op⟩
  cursor :
    ∃ anchor, s'.generator.cursor = some ⟨f.name, p.label, anchor⟩
  others :
    ∀ label, label ≠ p.label → f'.block? label = f.block? label

theorem terminate_ready
    (hReady : s.Ready f p)
    (op : IR.Op)
    (hStep : op.isReservation = false) :
    ∃ s' f', terminate op s = .ok () s' ∧ Ended s f p op s' f' := by
  rcases register_ready hReady rfl "" with
    ⟨name, s₁, f₁, hRegister, hFirst, hSame, hBlocks, hFree, hUsed⟩
  rcases hFirst.ready.cursor with ⟨b, hBlock, hEnd, hPc, hCursor⟩
  rw [hSame, hFirst.builds.grows.name] at hCursor
  rcases
      insertAt_has (i := ⟨name, op⟩) hFirst.ready.toHas
        hFirst.builds.grows.name hBlock hUsed hStep with
    ⟨s₂, f₂, hInsert, hHas, hBuilds, hFetch, hCursor₂, -, hOthers⟩
  refine ⟨s₂, f₂, ?_, ⟨hHas, hFirst.builds.append hBuilds, ⟨name, ?_⟩,
    ⟨_, hCursor₂⟩, ?_⟩⟩
  · have hAt :
        s₁.generator.module.blockAt?
          ⟨f.name, p.label, b.body.length⟩ = some b := by
      rw [IR.Module.blockAt?, ← hFirst.builds.grows.name,
        hFirst.ready.function]
      exact hBlock
    rw [terminate, Steps.bind_ok (cursor_apply hCursor),
      Steps.bind_ok hRegister, Steps.bind_ok (Steps.get_apply s₁)]
    simp only [hAt, Option.any_some, hEnd]
    exact hInsert
  · rw [← hFetch, ← hPc]
  · intro label hOther
    rw [hOthers label hOther, IR.Function.block?, hBlocks]
    rfl

/- A block is ended, and code goes to a new one that it leads to. -/
theorem turn_ready
    (hReady : s.Ready f p)
    (hint : String)
    (op : String → IR.Op)
    (hStep : ∀ label, (op label).isReservation = false) :
    ∃ label s₁ s₂ s' f',
      appendBlock f.name hint s = .ok label s₁ ∧
      terminate (op label) s₁ = .ok () s₂ ∧
      moveToStart f.name label s₂ = .ok () s' ∧
      Extends s f p s' f' (.start label) ∧
      (∃ name, f'.fetch p = some ⟨name, op label⟩) ∧
      label ∉ f.scope.used := by
  rcases appendBlock_ready hReady rfl hint with
    ⟨label, s₁, f₁, hAppend, hFirst, hFree, hUsed, hBlock⟩
  rcases terminate_ready hFirst.ready (op label) (hStep label) with
    ⟨s₂, f₂, hTerminate, hEnded⟩
  have hOther : label ≠ p.label := by
    rintro rfl
    exact hFree hReady.label_used
  have hBlock₂ := (hEnded.others label hOther).trans hBlock
  have hName : f₂.name = f.name :=
    hEnded.builds.grows.name.trans hFirst.builds.grows.name
  rcases
      moveToStart_ready hEnded.toHas hName f₂.scope.used hBlock₂ with
    ⟨s₃, hMove, hReady₃, hBuilds₃⟩
  exact ⟨label, s₁, s₂, s₃, f₂, hAppend, hTerminate, hMove,
    ⟨hReady₃, (hFirst.builds.append hEnded.builds).append hBuilds₃,
      .inr hFree⟩,
    hEnded.fetch, hFree⟩

/- Code goes to a block that is added now under a known name. -/
theorem attach_ready
    (hHas : s.Has f)
    {function : String}
    (hName : f.name = function)
    {kept : List String}
    {label : String}
    (hUsed : label ∈ f.scope.used)
    (hNew : label ∉ kept)
    (hNone : f.block? label = none) :
    ∃ s₁ s' f',
      attachBlock function label s = .ok () s₁ ∧
      moveToStart function label s₁ = .ok () s' ∧
      s'.Ready f' (.start label) ∧
      Builds kept s f s' f' := by
  rcases attachBlock_has hHas hName hUsed hNew hNone with
    ⟨s₁, f', hAttach, hHas', hBuilds, -, hBlock, -⟩
  rcases
      moveToStart_ready hHas' (hBuilds.grows.name.trans hName) kept
        hBlock with
    ⟨s', hMove, hReady, hBuilds'⟩
  exact ⟨s₁, s', f', hAttach, hMove, hReady, hBuilds.trans hBuilds'⟩

/- Code goes to the end of the block it was in. -/
theorem moveToEnd_ready
    (hHas : s.Has f)
    {anchor : Nat}
    (hCursor : s.generator.cursor = some ⟨f.name, p.label, anchor⟩)
    {b : IR.Block}
    (hBlock : f.block? p.label = some b)
    (hOpen : b.isTerminated = false)
    (hPc : p.pc = b.steps.length) :
    ∃ s',
      moveToEnd s = .ok () s' ∧
      s'.Ready f p ∧
      Builds f.scope.used s f s' f := by
  refine ⟨_, rfl, ⟨⟨hHas.function, hHas.registered⟩, b, hBlock, hOpen,
    hPc, ?_⟩, ⟨.refl _ f, rfl, fun _ => rfl⟩⟩
  simp [hCursor, IR.Module.blockAt?, hHas.function, hBlock]

/-
  Memory is reserved.  This may move code, but the place where
  code goes is the same after as many steps.
-/
theorem allocate_ready
    (hReady : s.Ready f p)
    (hint : String) :
    ∃ name s₁ s' f',
      allocate hint "float" s =
        .ok (.register (.pointer .float) name) s₁ ∧
      moveToEnd s₁ = .ok () s' ∧
      Extends s f p s' f' p ∧
      name ∉ f.scope.used ∧
      name ∈ f'.scope.used ∧
      name ∈ f'.cells := by
  rcases hReady.cursor with ⟨b, -, -, -, hCursor⟩
  rcases register_ready hReady rfl hint with
    ⟨name, s₁, f₁, hRegister, hFirst, hSame, -, hFree, hUsed⟩
  let i : IR.Instruction := ⟨name, .alloca .float⟩
  rcases
      modifyModule_has hFirst.ready.toHas hFirst.builds.grows.name
        (fun f => f.modifyEntry fun b => b.insert 0 i) rfl
        (hFirst.ready.registered.modifyEntry (i := i) hUsed) with
    ⟨s₂, hModify, hHas, hCursor₂, hStack, hBindings⟩
  have hGrows := f₁.grows_reserve f₁.scope.used (i := i) rfl
  obtain ⟨b', hBlock', hEnd', hPc'⟩ :
      ∃ b', (f₁.modifyEntry fun b => b.insert 0 i).block? p.label =
          some b' ∧
        b'.isTerminated = false ∧ p.pc = b'.steps.length := by
    obtain ⟨b₁, hBlock, hEnd, hPc, -⟩ := hFirst.ready.cursor
    rcases f₁.block?_reserve p.label i with hKept | hChanged
    · exact ⟨b₁, hKept.trans hBlock, hEnd, hPc⟩
    · rw [hBlock] at hChanged
      refine ⟨b₁.insert 0 i, hChanged, hEnd, ?_⟩
      rw [b₁.steps_reserve rfl]
      exact hPc
  have hAt : s₂.generator.cursor =
      some ⟨f₁.name, p.label, b.body.length⟩ := by
    rw [hCursor₂, hSame, hCursor, hFirst.builds.grows.name]
  rcases moveToEnd_ready hHas hAt hBlock' hEnd' hPc' with
    ⟨s₃, hMove, hReady₃, hBuilds₃⟩
  have hBuilds₂ : Builds f₁.scope.used s₁ f₁ s₂
      (f₁.modifyEntry fun b => b.insert 0 i) :=
    ⟨hGrows, hStack, fun x => by rw [hBindings]⟩
  refine ⟨name, s₂, s₃, _, ?_, hMove,
    ⟨hReady₃, (hFirst.builds.append hBuilds₂).append hBuilds₃, .inl rfl⟩,
    hFree, hUsed,
    IR.Function.mem_cells_reserve (i := i) hFirst.ready.blocks_ne_nil
      rfl⟩
  rw [allocate, Steps.bind_ok (currentFunction_apply hCursor)]
  change (register f.name hint >>= _) s = _
  rw [Steps.bind_ok hRegister]
  exact (Steps.bind_ok hModify _).trans rfl

end Offside.Emit

------------------------------------------------------------
-- Operands
------------------------------------------------------------

namespace Offside.Emit

open EmitState (Ready)
open IR (Operand)

variable {s : EmitState}
variable {f : IR.Function}
variable {p : IR.Point}

theorem load_ready
    (hReady : s.Ready f p)
    (cell hint : String) :
    ∃ name s' f',
      load (.register (.pointer .float) cell) hint s =
        .ok (.register .float name) s' ∧
      Placed s f p
        ⟨name, .load (.register (.pointer .float) cell)⟩ s' f' := by
  rcases
      place_ready hReady hint
        (.load (.register (.pointer .float) cell)) rfl rfl with
    ⟨name, s', f', hPlace, hPlaced⟩
  refine ⟨name, s', f', ?_, hPlaced⟩
  exact (Steps.bind_ok hPlace _).trans rfl

theorem store_ready
    (hReady : s.Ready f p)
    (value : Operand)
    (hValue : value.type? = some .float)
    (cell : String) :
    ∃ name s' f',
      store value (.register (.pointer .float) cell) s = .ok () s' ∧
      Placed s f p
        ⟨name, .store value (.register (.pointer .float) cell)⟩
        s' f' := by
  rcases
      place_ready hReady ""
        (.store value (.register (.pointer .float) cell)) rfl rfl with
    ⟨name, s', f', hPlace, hPlaced⟩
  refine ⟨name, s', f', ?_, hPlaced⟩
  rw [store, hValue]
  exact (Steps.bind_ok hPlace _).trans rfl

theorem arithmetic_ready
    (hReady : s.Ready f p)
    (op : IR.Arithmetic)
    (lhs rhs : Operand)
    (hLhs : lhs.type? = some .float)
    (hRhs : rhs.type? = some .float)
    (hint : String) :
    ∃ name s' f',
      arithmetic op lhs rhs hint s = .ok (.register .float name) s' ∧
      Placed s f p ⟨name, .arithmetic op lhs rhs⟩ s' f' := by
  rcases place_ready hReady hint (.arithmetic op lhs rhs) rfl rfl with
    ⟨name, s', f', hPlace, hPlaced⟩
  refine ⟨name, s', f', ?_, hPlaced⟩
  rw [arithmetic, hLhs, hRhs]
  exact (Steps.bind_ok hPlace _).trans rfl

theorem compare_ready
    (hReady : s.Ready f p)
    (op : IR.Comparison)
    {lhs : Operand}
    (hLhs : lhs.type? = some .float)
    (rhs : Operand)
    (hint : String) :
    ∃ name s' f',
      compare op lhs rhs hint s = .ok (.register .bool name) s' ∧
      Placed s f p ⟨name, .compare op lhs rhs⟩ s' f' := by
  rcases place_ready hReady hint (.compare op lhs rhs) rfl rfl with
    ⟨name, s', f', hPlace, hPlaced⟩
  refine ⟨name, s', f', ?_, hPlaced⟩
  rw [compare, hLhs]
  exact (Steps.bind_ok hPlace _).trans rfl

theorem toFloat_ready
    (hReady : s.Ready f p)
    (value : Operand)
    (hint : String) :
    ∃ name s' f',
      toFloat value hint s = .ok (.register .float name) s' ∧
      Placed s f p ⟨name, .toFloat value⟩ s' f' := by
  rcases place_ready hReady hint (.toFloat value) rfl rfl with
    ⟨name, s', f', hPlace, hPlaced⟩
  exact ⟨name, s', f', (Steps.bind_ok hPlace _).trans rfl, hPlaced⟩

/- What a visit has left on the stack is taken. -/
theorem taking_pushed
    {visit : Emit Unit}
    {s s' : EmitState}
    {value : Operand}
    (hVisit : visit s = .ok () (s'.pushed value)) :
    taking visit s = .ok value s' := by
  rw [taking, Steps.bind_ok hVisit]
  rfl

theorem pushed_of_taking
    {visit : Emit Unit}
    {s s' : EmitState}
    {value : Operand}
    (hTaking : taking visit s = .ok value s') :
    visit s = .ok () (s'.pushed value) := by
  rcases Steps.bind_eq_ok hTaking with ⟨u, t, hVisit, hPop⟩
  rw [hVisit]
  unfold pop at hPop
  split at hPop
  · cases hPop
  · rename_i value' stack hStack
    cases hPop
    simp only [EmitState.pushed, ← hStack]

theorem takingValue_of_taking
    {visit : Emit Unit}
    {s s' : EmitState}
    {value : Operand}
    (hTaking : taking visit s = .ok value s')
    (hValue : value.isNothing = false)
    (cause : Invalid) :
    takingValue visit cause s = .ok value s' := by
  rw [takingValue, Steps.bind_ok hTaking, hValue]
  rfl

end Offside.Emit
