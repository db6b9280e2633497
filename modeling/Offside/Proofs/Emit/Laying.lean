import Mathlib
import Offside.Proofs.Emit.Keeping

/-
  Code generation lays code: what every visit that succeeds does
  to the function it works on.

  Key definitions include:
    * `Offside.EmitState.Open`
    * `Offside.EmitState.Laid`

  Main statements:
    * `Offside.Emit.laid_conditional`,
      `Offside.Emit.laid_repetition`: branches and loops are laid
      when their parts are.
    * `Offside.Emit.structured_laid`: so is all code whose visit
      stays in one function.
-/

------------------------------------------------------------
-- States
------------------------------------------------------------

namespace Offside.EmitState

variable {s s' : EmitState}
variable {f : IR.Function}

/- The module has the function, whose names are distinct. -/
structure Holds
    (s : EmitState)
    (f : IR.Function) :
    Prop where
  function : s.generator.module.function? f.name = some f
  proper : f.Proper

/- Code goes to the end of a block that has not ended. -/
structure Open
    (s : EmitState)
    (f : IR.Function)
    (l : String) :
    Prop extends Holds s f where
  cursor :
    ∃ b ∈ f.blocks,
      b.label = l ∧
      b.isTerminated = false ∧
      s.generator.cursor = some ⟨f.name, l, b.body.length⟩

theorem Open.mem_labels
    {l : String}
    (hOpen : s.Open f l) :
    l ∈ f.labels := by
  rcases hOpen.cursor with ⟨b, hMem, rfl, _⟩
  exact IR.Function.label_mem hMem

/- The same place in another state. -/
theorem Open.of_generator
    {l : String}
    (hOpen : s.Open f l)
    (hModule : s'.generator.module = s.generator.module)
    (hCursor : s'.generator.cursor = s.generator.cursor) :
    s'.Open f l where
  function := hModule ▸ hOpen.function
  proper := hOpen.proper
  cursor := hCursor ▸ hOpen.cursor

/- The function has changed, and with it the module. -/
theorem Holds.modify
    (hHolds : s.Holds f)
    (change : IR.Function → IR.Function)
    (hName : (change f).name = f.name)
    (hProper : (change f).Proper)
    (hModule :
      s'.generator.module = s.generator.module.modify f.name change) :
    s'.Holds (change f) where
  function := by
    rw [hModule, hName]
    exact IR.Module.function?_modify hHolds.function change hName
  proper := hProper

end Offside.EmitState

------------------------------------------------------------
-- Steps of Laying
------------------------------------------------------------

namespace Offside.Emit

open EmitState (Holds Open)

variable {s s' : EmitState}
variable {f : IR.Function}
variable {l function : String}

theorem currentFunction_open
    (hOpen : s.Open f l) :
    currentFunction s = .ok f.name s := by
  rcases hOpen.cursor with ⟨_, _, _, _, hCursor⟩
  exact currentFunction_apply hCursor

theorem currentBlock_open
    (hOpen : s.Open f l) :
    currentBlock s = .ok l s := by
  rcases hOpen.cursor with ⟨_, _, _, _, hCursor⟩
  exact currentBlock_apply hCursor

theorem register_takes
    (hHolds : s.Holds f)
    (hName : f.name = function)
    {hint name : String}
    (hRun : register function hint s = .ok name s') :
    ∃ g,
      f.Takes name g ∧
      s'.Holds g ∧
      s'.generator.cursor = s.generator.cursor := by
  rcases
      register_has ⟨hHolds.function, hHolds.proper.toRegistered⟩ hName
        hint with
    ⟨name', t, g, hRegister, hHas, hBuilds, hCursor, hBlocks, hFree,
      hUsed⟩
  rw [hRegister] at hRun
  cases hRun
  have hTakes : f.Takes name g :=
    ⟨hBuilds.grows.name, hBlocks, hBuilds.grows.used, hFree, hUsed⟩
  exact ⟨g, hTakes, ⟨hHas.function, hHolds.proper.takes hTakes⟩,
    hCursor⟩

theorem register_open
    (hOpen : s.Open f l)
    (hName : f.name = function)
    {hint name : String}
    (hRun : register function hint s = .ok name s') :
    ∃ g, f.Takes name g ∧ s'.Open g l := by
  rcases register_takes hOpen.toHolds hName hRun with
    ⟨g, hTakes, hHolds, hCursor⟩
  refine ⟨g, hTakes, hHolds, ?_⟩
  rw [hTakes.blocks, hTakes.same, hCursor]
  exact hOpen.cursor

theorem appendBlock_opens
    (hHolds : s.Holds f)
    (hName : f.name = function)
    {hint label : String}
    (hRun : appendBlock function hint s = .ok label s') :
    ∃ g,
      f.Opens label g ∧
      s'.Holds g ∧
      s'.generator.cursor = s.generator.cursor := by
  rcases Steps.bind_eq_ok hRun with ⟨_, t, hRegister, hAttach⟩
  rcases register_takes hHolds hName hRegister with
    ⟨g, hTakes, hHolds', hCursor⟩
  cases hAttach
  refine ⟨g.attach label, .intro hTakes, ?_, hCursor⟩
  refine hHolds'.modify (fun h => h.attach label) rfl ?_
    (by rw [hTakes.same, hName])
  refine hHolds'.proper.attach hTakes.taken ?_
  rw [hTakes.labels_eq]
  exact fun hMem => hTakes.free (hHolds.proper.used_of_mem hMem)

/- A block is added while code goes to another one. -/
theorem appendBlock_open
    (hOpen : s.Open f l)
    (hName : f.name = function)
    {hint label : String}
    (hRun : appendBlock function hint s = .ok label s') :
    ∃ g, f.Opens label g ∧ s'.Open g l := by
  rcases appendBlock_opens hOpen.toHolds hName hRun with
    ⟨g, hOpens, hHolds, hCursor⟩
  rcases hOpen.cursor with ⟨b, hMem, hLabel, hEnd, hHere⟩
  refine ⟨g, hOpens, hHolds, b, ?_, hLabel, hEnd, ?_⟩
  · exact hOpens.mem_blocks hMem
  · rw [hCursor, hHere, hOpens.same]

theorem attachBlock_holds
    (hHolds : s.Holds f)
    (hName : f.name = function)
    {label : String}
    (hUsed : label ∈ f.scope.used)
    (hApart : label ∉ f.labels)
    (hRun : attachBlock function label s = .ok () s') :
    s'.Holds (f.attach label) := by
  cases hRun
  exact hHolds.modify (fun h => h.attach label) rfl
    (hHolds.proper.attach hUsed hApart) (by rw [hName])

/- Code goes to a block that is still empty. -/
theorem moveToStart_open
    (hHolds : s.Holds f)
    (hName : f.name = function)
    {label : String}
    (hBlock : ⟨label, []⟩ ∈ f.blocks)
    (hRun : moveToStart function label s = .ok () s') :
    s'.Open f label := by
  cases hRun
  refine ⟨⟨hHolds.function, hHolds.proper⟩, _, hBlock, rfl, rfl, ?_⟩
  rw [hName]
  rfl

/- An instruction at the end of a block. -/
theorem insertAt_holds
    (hHolds : s.Holds f)
    {b : IR.Block}
    (hMem : b ∈ f.blocks)
    {name : String}
    {op : IR.Op}
    (hUsed : name ∈ f.scope.used)
    (hRun :
      insertAt ⟨f.name, b.label, b.body.length⟩ name op s =
        .ok () s') :
    s'.Holds (f.append b.label ⟨name, op⟩) ∧
      s'.generator.cursor =
        some ⟨f.name, b.label, b.body.length + 1⟩ := by
  cases hRun
  have hSame := hHolds.proper.append_eq
    (hHolds.proper.block?_eq_some hMem) ⟨name, op⟩
  have hProper : (f.append b.label ⟨name, op⟩).Proper :=
    hHolds.proper.append b.label hUsed
  rw [← hSame] at hProper ⊢
  exact ⟨hHolds.modify
    (fun h => h.modifyBlock b.label fun b' =>
      b'.insert b.body.length ⟨name, op⟩) rfl hProper rfl, rfl⟩

/- What is known after an instruction was placed or ended a block. -/
theorem insertAt_adds
    (hOpen : s.Open f l)
    {c : IR.Cursor}
    (hCursor : s.generator.cursor = some c)
    {hint name : String}
    {op : IR.Op}
    {t : EmitState}
    (hRegister : register c.function hint s = .ok name t)
    (hInsert : insertAt c name op t = .ok () s') :
    ∃ g,
      f.Adds l op g ∧
      s'.Holds g ∧
      ∃ b ∈ f.blocks,
        b.label = l ∧
        b.isTerminated = false ∧
        s'.generator.cursor =
          some ⟨f.name, l, b.body.length + 1⟩ := by
  rcases hOpen.cursor with ⟨b, hMem, rfl, hEnd, hHere⟩
  rw [hCursor] at hHere
  cases hHere
  rcases register_takes hOpen.toHolds rfl hRegister with
    ⟨g, hTakes, hHolds, _⟩
  rw [← hTakes.same] at hInsert
  rcases
      insertAt_holds hHolds (hTakes.blocks ▸ hMem) hTakes.taken
        hInsert with
    ⟨hHolds', hCursor'⟩
  rw [hTakes.same] at hCursor'
  exact ⟨_, .intro hTakes, hHolds', b, hMem, rfl, hEnd, hCursor'⟩

/- An instruction is placed at the end of a block that has not ended. -/
theorem place_adds
    (hOpen : s.Open f l)
    {hint name : String}
    {op : IR.Op}
    (hOp : op.isTerminator = false)
    (hRun : place hint op s = .ok name s') :
    ∃ g, f.Adds l op g ∧ s'.Open g l := by
  rcases hOpen.cursor with ⟨_, _, _, _, hCursor⟩
  rw [place, Steps.bind_ok (cursor_apply hCursor)] at hRun
  rcases Steps.bind_eq_ok hRun with ⟨name', t, hRegister, hRun⟩
  rcases Steps.bind_eq_ok hRun with ⟨_, u, hInsert, hDone⟩
  cases hDone
  rcases insertAt_adds hOpen hCursor hRegister hInsert with
    ⟨g, hAdds, hHolds, b, hMem, hLabel, hEnd, hCursor'⟩
  refine ⟨g, hAdds, hHolds, ?_⟩
  cases hAdds with
  | @intro name g' hTakes =>
      refine ⟨⟨b.label, b.body ++ [⟨name, op⟩]⟩, ?_, hLabel, ?_, ?_⟩
      · rw [IR.Function.mem_append]
        exact ⟨b, hTakes.blocks ▸ hMem, by rw [if_pos hLabel]⟩
      · simp only [IR.Block.isTerminated, List.any_append] at hEnd ⊢
        simp [hEnd, hOp]
      · rw [hCursor', List.length_append]
        exact congrArg (fun n => some (IR.Cursor.mk n l _))
          hTakes.same.symm

/- A block is ended. -/
theorem terminate_adds
    (hOpen : s.Open f l)
    {op : IR.Op}
    (hRun : terminate op s = .ok () s') :
    ∃ g,
      f.Adds l op g ∧
      s'.Holds g ∧
      ∃ anchor, s'.generator.cursor = some ⟨f.name, l, anchor⟩ := by
  rcases hOpen.cursor with ⟨_, _, _, _, hCursor⟩
  rw [terminate, Steps.bind_ok (cursor_apply hCursor)] at hRun
  rcases Steps.bind_eq_ok hRun with ⟨name, t, hRegister, hRun⟩
  rw [Steps.bind_ok (Steps.get_apply t)] at hRun
  split at hRun
  · cases hRun
  · rcases insertAt_adds hOpen hCursor hRegister hRun with
      ⟨g, hAdds, hHolds, b, _, _, _, hCursor'⟩
    exact ⟨g, hAdds, hHolds, _, hCursor'⟩

/- Code goes to the end of the block it is in. -/
theorem moveToEnd_open
    (hHolds : s.Holds f)
    {anchor : Nat}
    (hCursor : s.generator.cursor = some ⟨f.name, l, anchor⟩)
    {b : IR.Block}
    (hMem : b ∈ f.blocks)
    (hLabel : b.label = l)
    (hEnd : b.isTerminated = false)
    (hRun : moveToEnd s = .ok () s') :
    s'.Open f l := by
  have hBlock := hHolds.proper.block?_eq_some hMem
  rw [hLabel] at hBlock
  cases hRun
  refine ⟨⟨hHolds.function, hHolds.proper⟩, b, hMem, hLabel, hEnd, ?_⟩
  simp [hCursor, IR.Module.blockAt?, hHolds.function, hBlock]

/- Memory is reserved, and code goes to the same block. -/
theorem allocate_open
    (hOpen : s.Open f l)
    {hint : String}
    {address : IR.Operand}
    {t : EmitState}
    (hRun : allocate hint "float" s = .ok address t)
    (hMove : moveToEnd t = .ok () s') :
    ∃ g, f.Lays l g l ∧ s'.Open g l := by
  rcases hOpen.cursor with ⟨b, hMem, hLabel, hEnd, hCursor⟩
  rw [allocate, Steps.bind_ok (currentFunction_apply hCursor)] at hRun
  rcases Steps.bind_eq_ok hRun with ⟨name, u, hRegister, hReserve⟩
  rcases register_takes hOpen.toHolds rfl hRegister with
    ⟨g, hTakes, hHolds, hCursor'⟩
  let i : IR.Instruction := ⟨name, .alloca .float⟩
  have hProper : (g.reserve i).Proper :=
    hHolds.proper.reserve hTakes.taken
  have hHolds' : t.Holds (g.reserve i) := by
    cases hReserve
    refine hHolds.modify (fun h => h.reserve i) rfl hProper ?_
    rw [hTakes.same]
    rfl
  have hCursor'' : t.generator.cursor =
      some ⟨(g.reserve i).name, l, b.body.length⟩ := by
    cases hReserve
    change _ = some (IR.Cursor.mk g.name l b.body.length)
    rw [hTakes.same, ← hCursor, ← hCursor']
  -- The block is the one it was, but for the memory.
  have hHere : l ∈ (g.reserve i).labels := by
    rw [IR.Function.labels_reserve, hTakes.labels_eq]
    exact hOpen.mem_labels
  rcases List.mem_map.mp hHere with ⟨b', hMem', hLabel'⟩
  have hEnd' : b'.isTerminated = false := by
    rcases IR.Function.mem_modifyEntry hMem' with ⟨c, hOld, hBlock⟩
    have hSame : c = b := by
      refine hOpen.proper.block_unique (hTakes.blocks ▸ hOld) hMem ?_
      rw [hLabel, ← hLabel']
      rcases hBlock with rfl | rfl <;> rfl
    subst hSame
    rcases hBlock with rfl | rfl
    · exact hEnd
    · exact hEnd
  exact ⟨g.reserve i, .reserve l rfl hTakes,
    moveToEnd_open hHolds' hCursor'' hMem' hLabel' hEnd' hMove⟩

end Offside.Emit

------------------------------------------------------------
-- Declarations
------------------------------------------------------------

namespace Offside.IR.Module

variable {m : Module}
variable {name other : String}

/- Another function stays as it was. -/
theorem function?_modify_other
    (hOther : other ≠ name)
    {change : Function → Function}
    (hName : ∀ f, (change f).name = f.name) :
    (m.modify name change).function? other = m.function? other := by
  unfold function? modify
  rw [List.find?_map]
  have hSame :
      ((fun f : Function => decide (f.name = other)) ∘ fun f =>
          if f.name = name then change f else f) =
        fun f : Function => decide (f.name = other) := by
    funext f
    simp only [Function.comp_apply]
    split_ifs
    · rw [hName]
    · rfl
  rw [hSame]
  cases hFound : m.functions.find? fun f => f.name = other with
  | none => rfl
  | some f =>
      have hFunction : f.name = other := by
        simpa using List.find?_some hFound
      rw [Option.map_some, if_neg (hFunction ▸ hOther)]

/- A function that is there stays when another one is added. -/
theorem function?_add
    {f : Function}
    (hFunction : m.function? name = some f)
    (g : Function) :
    (m.add g).function? name = some f := by
  unfold function? add at *
  rw [List.find?_append, hFunction]
  rfl

end Offside.IR.Module

namespace Offside

/- Functions may have been added, which have no code. -/
structure EmitState.Declares
    (s s' : EmitState) :
    Prop where
  functions :
    ∀ name f, s.generator.module.function? name = some f →
      s'.generator.module.function? name = some f
  code : s'.generator.module.code = s.generator.module.code
  cursor : s'.generator.cursor = s.generator.cursor
  bindings : s'.bindings = s.bindings

theorem EmitState.Declares.open
    {s s' : EmitState}
    (hDeclares : s.Declares s')
    {f : IR.Function}
    {l : String}
    (hOpen : s.Open f l) :
    s'.Open f l :=
  ⟨⟨hDeclares.functions _ _ hOpen.function, hOpen.proper⟩,
    hDeclares.cursor ▸ hOpen.cursor⟩

end Offside

namespace Offside.Emit

variable {s s' : EmitState}

/- One function is renamed in, and nothing else changes. -/
theorem nameParams_elsewhere
    {function : String}
    {index : Nat}
    {args : List Node}
    (hRun : nameParams function index args s = .ok () s') :
    (∀ other, other ≠ function →
        s'.generator.module.function? other =
          s.generator.module.function? other) ∧
      s'.generator.module.code = s.generator.module.code ∧
      s'.generator.cursor = s.generator.cursor ∧
      s'.bindings = s.bindings := by
  induction args generalizing index s with
  | nil =>
      cases hRun
      exact ⟨fun _ _ => rfl, rfl, rfl, rfl⟩
  | cons arg args ih =>
      rcases Steps.bind_eq_ok hRun with ⟨name, t, hPart, hRename⟩
      rcases part_eq_ok hPart with ⟨_, rfl⟩
      rcases Steps.bind_eq_ok hRename with ⟨_, u, hModify, hRest⟩
      rcases ih hRest with ⟨hFunctions, hCode, hCursor, hBindings⟩
      cases hModify
      refine ⟨?_, ?_, hCursor, hBindings⟩
      · intro other hOther
        exact (hFunctions other hOther).trans
          (IR.Module.function?_modify_other hOther fun _ => rfl)
      · exact hCode.trans (IR.Module.code_modify _ fun f _ =>
          f.code_renameParam index name.shown)

/- A declaration adds a function without code. -/
theorem declareFunction_declares
    {proto : Node}
    {operand : IR.Operand}
    (hRun : declareFunction proto s = .ok operand s') :
    s.Declares s' := by
  rcases Steps.bind_eq_ok hRun with ⟨args, t, hArgs, hRun₁⟩
  rcases part_eq_ok hArgs with ⟨_, rfl⟩
  rcases Steps.bind_eq_ok hRun₁ with ⟨name, t, hShown, hRun₂⟩
  rcases part_eq_ok hShown with ⟨_, rfl⟩
  rw [Steps.bind_ok (Steps.get_apply t)] at hRun₂
  split at hRun₂
  · rename_i hFree
    rcases Steps.bind_eq_ok hRun₂ with ⟨_, u, hAdd, hRun₃⟩
    rcases Steps.bind_eq_ok hRun₃ with ⟨_, v, hParams, hDone⟩
    cases hDone
    rcases nameParams_elsewhere hParams with
      ⟨hFunctions, hCode, hCursor, hBindings⟩
    cases hAdd
    refine ⟨?_, ?_, hCursor, hBindings⟩
    · intro other f hFunction
      have hOther : other ≠ name.shown := by
        intro hSame
        rw [IR.Module.isFree, ← hSame, hFunction] at hFree
        simp at hFree
      exact (hFunctions other hOther).trans
        (IR.Module.function?_add hFunction _)
    · exact hCode.trans
        (IR.Module.code_add _ (IR.Function.code_declare _ _))
  · cases hRun₂

end Offside.Emit

------------------------------------------------------------
-- Branches
------------------------------------------------------------

namespace Offside.Emit

open EmitState (Holds Open)

variable {s s' : EmitState}
variable {f : IR.Function}
variable {l function : String}

/- Code goes to a block that is added now under a known name. -/
theorem attach_open
    (hHolds : s.Holds f)
    (hName : f.name = function)
    {label : String}
    (hUsed : label ∈ f.scope.used)
    (hApart : label ∉ f.labels)
    {t : EmitState}
    (hAttach : attachBlock function label s = .ok () t)
    (hMove : moveToStart function label t = .ok () s') :
    s'.Open (f.attach label) label := by
  have hHolds' := attachBlock_holds hHolds hName hUsed hApart hAttach
  exact moveToStart_open hHolds' hName
    (IR.Function.mem_attach.mpr (.inr rfl)) hMove

/- A block is ended, and code goes to a new one. -/
theorem turn_open
    (hOpen : s.Open f l)
    (hName : f.name = function)
    {hint label : String}
    {op : IR.Op}
    {t u : EmitState}
    (hAppend : appendBlock function hint s = .ok label t)
    (hEnd : terminate op t = .ok () u)
    (hMove : moveToStart function label u = .ok () s') :
    ∃ f₁ f₂,
      f.Opens label f₁ ∧ f₁.Adds l op f₂ ∧ s'.Open f₂ label := by
  rcases appendBlock_open hOpen hName hAppend with
    ⟨f₁, hOpens, hOpen₁⟩
  rcases terminate_adds hOpen₁ hEnd with ⟨f₂, hAdds, hHolds₂, _⟩
  have hOther : label ≠ l := by
    rintro rfl
    exact hOpens.free (hOpen.proper.used_of_mem hOpen.mem_labels)
  exact ⟨f₁, f₂, hOpens, hAdds,
    moveToStart_open hHolds₂
      ((hAdds.same.trans hOpens.same).trans hName)
      (hAdds.mem_blocks hOpens.empty_mem hOther) hMove⟩

/-
  A branch ends a block.  The labels of the second part and of
  the block where both parts meet are known, but their blocks
  are not there yet.
-/
theorem branch_open
    (hOpen : s.Open f l)
    (hName : f.name = function)
    {yes no meet : String}
    {test : IR.Operand}
    {s₁ s₂ s₃ s₄ : EmitState}
    (hYes : appendBlock function "then" s = .ok yes s₁)
    (hNo : register function "else" s₁ = .ok no s₂)
    (hMeet : register function "ifcont" s₂ = .ok meet s₃)
    (hEnd : terminate (.branch test yes no) s₃ = .ok () s₄)
    (hMove : moveToStart function yes s₄ = .ok () s') :
    ∃ f₁ f₂ f₃ f₄,
      f.Opens yes f₁ ∧
      f₁.Takes no f₂ ∧
      f₂.Takes meet f₃ ∧
      f₃.Adds l (.branch test yes no) f₄ ∧
      s'.Open f₄ yes ∧
      no ∉ f₄.labels ∧
      meet ∉ f₄.labels := by
  rcases appendBlock_open hOpen hName hYes with ⟨f₁, hOpens, hOpen₁⟩
  have hName₁ := hOpens.same.trans hName
  rcases register_open hOpen₁ hName₁ hNo with ⟨f₂, hNoTakes, hOpen₂⟩
  have hName₂ := hNoTakes.same.trans hName₁
  rcases register_open hOpen₂ hName₂ hMeet with
    ⟨f₃, hMeetTakes, hOpen₃⟩
  rcases terminate_adds hOpen₃ hEnd with ⟨f₄, hAdds, hHolds₄, _⟩
  have hOther : yes ≠ l := by
    rintro rfl
    exact hOpens.free (hOpen.proper.used_of_mem hOpen.mem_labels)
  have hBlock : ⟨yes, []⟩ ∈ f₃.blocks := by
    rw [hMeetTakes.blocks, hNoTakes.blocks]
    exact hOpens.empty_mem
  refine ⟨f₁, f₂, f₃, f₄, hOpens, hNoTakes, hMeetTakes, hAdds,
    moveToStart_open hHolds₄
      ((hAdds.same.trans hMeetTakes.same).trans hName₂)
      (hAdds.mem_blocks hBlock hOther) hMove, ?_, ?_⟩
  · rw [hAdds.labels_eq, hMeetTakes.labels_eq, hNoTakes.labels_eq]
    exact fun hMem => hNoTakes.free (hOpen₁.proper.used_of_mem hMem)
  · rw [hAdds.labels_eq, hMeetTakes.labels_eq]
    exact fun hMem => hMeetTakes.free (hOpen₂.proper.used_of_mem hMem)

end Offside.Emit

------------------------------------------------------------
-- All Code Is Laid
------------------------------------------------------------

namespace Offside

/-
  Where code goes to the end of a block in the first state, it
  has been laid to the end of a block in the second.
-/
def EmitState.Laid
    (s s' : EmitState) :
    Prop :=
  ∀ f l, s.Open f l → ∃ g m, f.Lays l g m ∧ s'.Open g m

namespace Emit

open EmitState (Laid)

theorem laid_place
    {hint : String}
    {op : IR.Op}
    (hOp : op.isTerminator = false)
    (hPlain : op.isPhi = false) :
    Keeps Laid ⊤ (place hint op) := by
  intro s
  refine ⟨?_, fun _ _ _ => trivial⟩
  intro name s' hRun f l hOpen
  rcases place_adds hOpen hOp hRun with ⟨g, hAdds, hOpen'⟩
  exact ⟨g, l, .place hOp hPlain hAdds, hOpen'⟩

/- Nothing is said of a run that fails. -/
theorem steady_laid :
    Steady Laid ⊤ where
  refl := fun s f l hOpen => ⟨f, l, .refl f l, hOpen⟩
  trans := by
    intro s t u hFirst hSecond f l hOpen
    rcases hFirst f l hOpen with ⟨g, m, hLays, hOpen'⟩
    rcases hSecond g m hOpen' with ⟨h, k, hLays', hOpen''⟩
    exact ⟨h, k, hLays.trans hLays', hOpen''⟩
  fails := fun _ => trivial
  after := fun _ _ => trivial
  stack := fun s values f l hOpen =>
    ⟨f, l, .refl f l, hOpen.of_generator rfl rfl⟩
  printed := fun s text f l hOpen =>
    ⟨f, l, .refl f l, hOpen.of_generator rfl rfl⟩
  place := fun hOp hPlain _ _ => laid_place hOp hPlain
  access := by
    intro s name address hint op _ _ hPointer
    cases op <;> first | exact laid_place rfl rfl s | cases hPointer
  declare := by
    intro proto s
    refine ⟨?_, fun _ _ _ => trivial⟩
    intro operand s' hRun f l hOpen
    exact ⟨f, l, .refl f l, (declareFunction_declares hRun).open hOpen⟩

/- The memory may be that of a variable or not. -/
theorem laid_load
    (pointer : IR.Operand)
    (name : String) :
    Keeps Laid ⊤ (load pointer name) :=
  steady_laid.bind (steady_laid.target _ _) fun _ =>
    steady_laid.bind (laid_place rfl rfl) fun _ => steady_laid.pure _

theorem laid_store
    (value pointer : IR.Operand) :
    Keeps Laid ⊤ (store value pointer) := by
  apply steady_laid.bind (steady_laid.target _ _)
  intro type
  apply steady_laid.bind (steady_laid.part _)
  intro valueType
  have hPlace : Keeps Laid ⊤
      (do let _ ← place "" (.store value pointer)) :=
    steady_laid.bind (laid_place rfl rfl) fun _ => steady_laid.pure _
  split
  · exact hPlace
  · exact steady_laid.bind (steady_laid.throw _) fun _ => hPlace

theorem laid_conditional
    {cond yes no : Emit Unit}
    (hCond : Keeps Laid ⊤ cond)
    (hYes : Keeps Laid ⊤ yes)
    (hNo : Keeps Laid ⊤ no) :
    Keeps Laid ⊤ (conditional cond yes no) := by
  intro s
  refine ⟨?_, fun _ _ _ => trivial⟩
  intro _ s' hRun f₀ l₀ hOpen₀
  -- The test is laid, and the block ends with a branch.
  rcases Steps.bind_eq_ok hRun with ⟨value, s₁, hRun₁, hRun⟩
  rcases (steady_laid.basic.takingValue hCond _ _).ok _ _ hRun₁ f₀ l₀ hOpen₀ with
    ⟨f₁, l₁, hLays₁, hOpen₁⟩
  rcases Steps.bind_eq_ok hRun with ⟨test, s₂, hRun₂, hRun⟩
  rcases (steady_laid.compare _ _ _ _ _).ok _ _ hRun₂ f₁ l₁ hOpen₁ with
    ⟨f, l, hLays₂, hOpen⟩
  rw [Steps.bind_ok (currentFunction_open hOpen)] at hRun
  rcases Steps.bind_eq_ok hRun with ⟨yesLabel, s₃, hRun₃, hRun⟩
  rcases Steps.bind_eq_ok hRun with ⟨noLabel, s₄, hRun₄, hRun⟩
  rcases Steps.bind_eq_ok hRun with ⟨meetLabel, s₅, hRun₅, hRun⟩
  rcases Steps.bind_eq_ok hRun with ⟨_, s₆, hRun₆, hRun⟩
  rcases Steps.bind_eq_ok hRun with ⟨_, s₇, hRun₇, hRun⟩
  rcases branch_open hOpen rfl hRun₃ hRun₄ hRun₅ hRun₆ hRun₇ with
    ⟨g₁, g₂, g₃, g₄, hYesOpens, hNoTakes, hMeetTakes, hBranch, hOpen₄,
      hNoApart, hMeetApart⟩
  have hName₄ : g₄.name = f.name :=
    ((hBranch.same.trans hMeetTakes.same).trans hNoTakes.same).trans
      hYesOpens.same
  -- The first part is laid, and leads to where both parts meet.
  rcases Steps.bind_eq_ok hRun with ⟨yesValue, s₈, hRun₈, hRun⟩
  rcases (steady_laid.basic.takingValue hYes _ _).ok _ _ hRun₈ g₄ yesLabel hOpen₄
      with ⟨g₅, m, hFirst, hOpen₅⟩
  have hKeeps₅ := hFirst.keeps.1
  rcases Steps.bind_eq_ok hRun with ⟨_, s₉, hRun₉, hRun⟩
  rcases terminate_adds hOpen₅ hRun₉ with
    ⟨g₆, hJump, hHolds₆, anchor, hCursor₆⟩
  have hName₆ : g₆.name = f.name :=
    (hJump.same.trans hKeeps₅.same).trans hName₄
  have hNoUsed : noLabel ∈ g₄.scope.used :=
    hBranch.used (hMeetTakes.used hNoTakes.taken)
  have hMeetUsed : meetLabel ∈ g₄.scope.used :=
    hBranch.used hMeetTakes.taken
  have hNoApart₆ : noLabel ∉ g₆.labels := by
    rw [hJump.labels_eq]
    exact fun hMem => hNoApart (hKeeps₅.detached _ hNoUsed hMem)
  rw [Steps.bind_ok (currentBlock_apply hCursor₆),
    Steps.bind_ok (currentFunction_apply hCursor₆)] at hRun
  -- The second part starts in a block of its own.
  rcases Steps.bind_eq_ok hRun with ⟨_, s₁₀, hRun₁₀, hRun⟩
  rcases Steps.bind_eq_ok hRun with ⟨_, s₁₁, hRun₁₁, hRun⟩
  rw [hKeeps₅.same, hName₄] at hRun₁₀
  have hOpen₆ := attach_open hHolds₆ hName₆
    (hJump.used (hKeeps₅.used hNoUsed)) hNoApart₆ hRun₁₀ hRun₁₁
  rcases Steps.bind_eq_ok hRun with ⟨noValue, s₁₂, hRun₁₂, hRun⟩
  rcases (steady_laid.basic.takingValue hNo _ _).ok _ _ hRun₁₂ _ noLabel hOpen₆
      with ⟨g₇, k, hSecond, hOpen₇⟩
  have hKeeps₇ := hSecond.keeps.1
  rw [Steps.bind_ok (currentBlock_open hOpen₇)] at hRun
  rcases Steps.bind_eq_ok hRun with ⟨_, s₁₃, hRun₁₃, hRun⟩
  rcases terminate_adds hOpen₇ hRun₁₃ with
    ⟨g₈, hJump', hHolds₈, anchor', hCursor₈⟩
  have hName₇ : g₇.name = f.name := hKeeps₇.same.trans hName₆
  have hMeetUsed₆ : meetLabel ∈ (g₆.attach noLabel).scope.used :=
    hJump.used (hKeeps₅.used hMeetUsed)
  have hMeetApart₈ : meetLabel ∉ g₈.labels := by
    rw [hJump'.labels_eq]
    intro hMem
    have hMem₆ := hKeeps₇.detached _ hMeetUsed₆ hMem
    rw [IR.Function.labels_attach, List.mem_append, List.mem_singleton,
      hJump.labels_eq] at hMem₆
    rcases hMem₆ with hOld | rfl
    · exact hMeetApart (hKeeps₅.detached _ hMeetUsed hOld)
    · exact hMeetTakes.free hNoTakes.taken
  rw [Steps.bind_ok (currentFunction_apply hCursor₈)] at hRun
  -- Both parts meet, and a value is picked.
  rcases Steps.bind_eq_ok hRun with ⟨_, s₁₄, hRun₁₄, hRun⟩
  rcases Steps.bind_eq_ok hRun with ⟨_, s₁₅, hRun₁₅, hRun⟩
  rw [hName₇] at hRun₁₄
  have hOpen₈ := attach_open hHolds₈ (hJump'.same.trans hName₇)
    (hJump'.used (hKeeps₇.used hMeetUsed₆)) hMeetApart₈ hRun₁₄ hRun₁₅
  rcases Steps.bind_eq_ok hRun with ⟨name, s₁₆, hRun₁₆, hPush⟩
  rcases place_adds hOpen₈ rfl hRun₁₆ with ⟨g₉, hPick, hOpen₉⟩
  cases hPush
  exact ⟨g₉, meetLabel,
    hLays₁.trans (hLays₂.trans (.fork hYesOpens hNoTakes hMeetTakes
      hBranch hFirst hJump hNoApart₆ hSecond hJump' hMeetApart₈ hPick)),
    hOpen₉.of_generator rfl rfl⟩

/- The end of a loop is laid, and leads back to its start. -/
theorem closeLoop_open
    {s s' : EmitState}
    {f : IR.Function}
    {l : String}
    (hOpen : s.Open f l)
    {counter head : String}
    {address step last : IR.Operand}
    (hRun : closeLoop counter address step last head s = .ok () s') :
    ∃ f₁ f₂ f₃ m next test,
      f.Lays l f₁ m ∧
      f₁.Opens next f₂ ∧
      f₂.Adds m (.branch test head next) f₃ ∧
      s'.Open f₃ next := by
  rcases Steps.bind_eq_ok hRun with ⟨value, s₁, hRun₁, hRun⟩
  rcases (laid_load _ _ _).ok _ _ hRun₁ f l hOpen with
    ⟨g₁, l₁, hLays₁, hOpen₁⟩
  rcases Steps.bind_eq_ok hRun with ⟨sum, s₂, hRun₂, hRun⟩
  rcases (steady_laid.arithmetic _ _ _ _ _).ok _ _ hRun₂ g₁ l₁ hOpen₁ with
    ⟨g₂, l₂, hLays₂, hOpen₂⟩
  rcases Steps.bind_eq_ok hRun with ⟨_, s₃, hRun₃, hRun⟩
  rcases (laid_store _ _ _).ok _ _ hRun₃ g₂ l₂ hOpen₂ with
    ⟨g₃, l₃, hLays₃, hOpen₃⟩
  rcases Steps.bind_eq_ok hRun with ⟨test, s₄, hRun₄, hRun⟩
  rcases (steady_laid.compare _ _ _ _ _).ok _ _ hRun₄ g₃ l₃ hOpen₃ with
    ⟨f₁, m, hLays₄, hOpen₄⟩
  rw [Steps.bind_ok (currentFunction_open hOpen₄)] at hRun
  rcases Steps.bind_eq_ok hRun with ⟨next, s₅, hRun₅, hRun⟩
  rcases Steps.bind_eq_ok hRun with ⟨_, s₆, hRun₆, hRun₇⟩
  rcases turn_open hOpen₄ rfl hRun₅ hRun₆ hRun₇ with
    ⟨f₂, f₃, hOpens, hAdds, hOpen'⟩
  exact ⟨f₁, f₂, f₃, m, next, test,
    hLays₁.trans (hLays₂.trans (hLays₃.trans hLays₄)), hOpens, hAdds,
    hOpen'⟩

theorem laid_repetition
    {counter : Value}
    {hasStep : Bool}
    {first last step body : Emit Unit}
    (hFirst : Keeps Laid ⊤ first)
    (hLast : Keeps Laid ⊤ last)
    (hStep : Keeps Laid ⊤ step)
    (hBody : Keeps Laid ⊤ body) :
    Keeps Laid ⊤
      (repetition counter hasStep first last step body) := by
  intro s
  refine ⟨?_, fun _ _ _ => trivial⟩
  intro _ s' hRun f₀ l₀ hOpen₀
  -- The counter has its memory and its first value.
  rcases Steps.bind_eq_ok hRun with ⟨address, s₁, hRun₁, hRun⟩
  rcases Steps.bind_eq_ok hRun with ⟨_, s₂, hRun₂, hRun⟩
  rcases allocate_open hOpen₀ hRun₁ hRun₂ with ⟨f₁, hLays₁, hOpen₁⟩
  rcases Steps.bind_eq_ok hRun with ⟨start, s₃, hRun₃, hRun⟩
  rcases (steady_laid.basic.takingValue hFirst _ _).ok _ _ hRun₃ f₁ l₀ hOpen₁ with
    ⟨f₂, l₂, hLays₂, hOpen₂⟩
  rcases Steps.bind_eq_ok hRun with ⟨_, s₄, hRun₄, hRun⟩
  rcases (laid_store _ _ _).ok _ _ hRun₄ f₂ l₂ hOpen₂ with
    ⟨f, l, hLays₃, hOpen⟩
  have hLays := hLays₁.trans (hLays₂.trans hLays₃)
  rw [Steps.bind_ok (currentFunction_open hOpen)] at hRun
  -- Code goes to where the loop starts.
  rcases Steps.bind_eq_ok hRun with ⟨head, s₅, hRun₅, hRun⟩
  rcases Steps.bind_eq_ok hRun with ⟨_, s₆, hRun₆, hRun⟩
  rcases Steps.bind_eq_ok hRun with ⟨_, s₇, hRun₇, hRun⟩
  rcases turn_open hOpen rfl hRun₅ hRun₆ hRun₇ with
    ⟨g₁, g₂, hHead, hJump, hOpen₂⟩
  rcases Steps.bind_eq_ok hRun with ⟨old, s₈, hRun₈, hRun⟩
  cases hRun₈
  rcases Steps.bind_eq_ok hRun with ⟨_, s₉, hRun₉, hRun⟩
  cases hRun₉
  have hOpen₂' : EmitState.Open
      { s₇ with bindings := s₇.bindings.set counter.shown address }
      g₂ head :=
    hOpen₂.of_generator rfl rfl
  -- Where generation stops, the loop has only been entered.
  have hEntered := hLays.trans (.turn hHead hJump)
  rcases Steps.bind_eq_ok hRun with ⟨value, s₁₀, hRun₁₀, hRun⟩
  rcases (steady_laid.basic.taking hBody _).ok _ _ hRun₁₀ g₂ head hOpen₂' with
    ⟨g₃, m₃, hLays₃, hOpen₃⟩
  split at hRun
  · cases hRun
    exact ⟨g₃, m₃, hEntered.trans hLays₃, hOpen₃⟩
  rcases Steps.bind_eq_ok hRun with ⟨amount, s₁₁, hRun₁₁, hRun⟩
  have hAmount : Keeps Laid ⊤
      (if hasStep then taking step
        else return .const .float Binary64.one) := by
    split
    · exact steady_laid.basic.taking hStep
    · exact steady_laid.pure _
  rcases (hAmount _).ok _ _ hRun₁₁ g₃ m₃ hOpen₃ with
    ⟨g₄, m₄, hLays₄, hOpen₄⟩
  have hLays₄' := hLays₃.trans hLays₄
  split at hRun
  · cases hRun
    exact ⟨g₄, m₄, hEntered.trans hLays₄', hOpen₄⟩
  rcases Steps.bind_eq_ok hRun with ⟨limit, s₁₂, hRun₁₂, hRun⟩
  rcases (steady_laid.basic.taking hLast _).ok _ _ hRun₁₂ g₄ m₄ hOpen₄ with
    ⟨g₅, m₅, hLays₅, hOpen₅⟩
  have hLays₅' := hLays₄'.trans hLays₅
  split at hRun
  · cases hRun
    exact ⟨g₅, m₅, hEntered.trans hLays₅', hOpen₅⟩
  rcases Steps.bind_eq_ok hRun with ⟨_, s₁₃, hRun₁₃, hRun⟩
  rcases closeLoop_open hOpen₅ hRun₁₃ with
    ⟨g₆, g₇, g₈, m, next, test, hLays₆, hNext, hBranch, hOpen₈⟩
  cases hRun
  exact ⟨g₈, next,
    hLays.trans (.loop hHead hJump (hLays₅'.trans hLays₆) hNext hBranch),
    hOpen₈.of_generator rfl rfl⟩

/- All code is laid whose visit stays in one function. -/
theorem structured_laid :
    Structured Laid ⊤ where
  toSteady := steady_laid
  conditional := laid_conditional
  repetition := laid_repetition

end Emit

end Offside
