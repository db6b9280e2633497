import Mathlib
import Offside.IR.Text

/-
  The code of a module: which instructions it holds, which are
  added when it changes, and which of them have a text.

  Key definitions include:
    * `Offside.IR.Op.operands`
    * `Offside.IR.Op.isSound`
    * `Offside.IR.Op.isChecked`
    * `Offside.IR.Module.code`
    * `Offside.IR.Module.Emits`

  Main statements:
    * `Offside.IR.Module.insert_emits`: an instruction that is
      placed is all that is added.
    * `Offside.IR.Module.text?_isSome_iff`: a module has a text
      when all operands in it are single.
-/

------------------------------------------------------------
-- Sound Instructions
------------------------------------------------------------

namespace Offside.IR

/- Whether an operand is one value, not the values of a block. -/
def Operand.isSingle
    (o : Operand) :
    Bool :=
  o.type?.isSome

namespace Op

/- The operands of an instruction. -/
def operands :
    Op →
    List Operand
  | load pointer => [pointer]
  | store value pointer => [value, pointer]
  | arithmetic _ lhs rhs | compare _ lhs rhs => [lhs, rhs]
  | toFloat value | toInt value _ | ret value => [value]
  | call _ _ args => args
  | branch cond _ _ => [cond]
  | phi _ incoming => incoming.map Prod.fst
  | alloca _ | jump _ => []

/- Where the memory is that an instruction reads or writes. -/
def pointer? :
    Op →
    Option Operand
  | load pointer | store _ pointer => some pointer
  | _ => none

/- Whether the two operands of an operation have the same type. -/
def hasEqualTypes :
    Op →
    Bool
  | arithmetic _ lhs rhs | compare _ lhs rhs => lhs.type? = rhs.type?
  | _ => true

/-
  Whether every operand is single, and two that are computed
  with or compared have the same type.
-/
def isSound
    (op : Op) :
    Bool :=
  op.operands.all Operand.isSingle && op.hasEqualTypes

/-
  What is checked before an instruction is placed.  A comparison
  is not sound if its right operand does not fit, a call if the
  function takes fewer arguments, and a result or a picked value
  is not looked at.
-/
def isChecked :
    Op →
    Bool
  | compare _ lhs _ => lhs.isSingle
  | call signature _ args =>
      (args.take signature.arity).all Operand.isSingle
  | ret _ | phi .. => true
  | op => op.isSound

/- What a read of memory asks for. -/
theorem isChecked_load
    {pointer : Operand}
    {type : Ty}
    (hPointer : pointer.type? = some type) :
    (load pointer).isChecked = true := by
  simp [isChecked, isSound, operands, hasEqualTypes, Operand.isSingle,
    hPointer]

theorem isChecked_store
    {value pointer : Operand}
    {valueType type : Ty}
    (hValue : value.type? = some valueType)
    (hPointer : pointer.type? = some type) :
    (store value pointer).isChecked = true := by
  simp [isChecked, isSound, operands, hasEqualTypes, Operand.isSingle,
    hValue, hPointer]

theorem isChecked_arithmetic
    (op : Arithmetic)
    {lhs rhs : Operand}
    {type : Ty}
    (hLhs : lhs.type? = some type)
    (hRhs : rhs.type? = some type) :
    (arithmetic op lhs rhs).isChecked = true := by
  simp [isChecked, isSound, operands, hasEqualTypes, Operand.isSingle,
    hLhs, hRhs]

theorem isChecked_branch
    {test : Operand}
    (hTest : test.isSingle = true)
    (yes no : String) :
    (branch test yes no).isChecked = true := by
  simp [isChecked, isSound, operands, hasEqualTypes, hTest]

end Op

end Offside.IR

------------------------------------------------------------
-- Code
------------------------------------------------------------

namespace Offside.IR

/- The instructions of a function, each with the function's name. -/
def Function.code
    (f : Function) :
    List (String × Instruction) :=
  f.blocks.flatMap fun b => b.body.map fun i => (f.name, i)

namespace Module

/- The instructions of a module, each with its function. -/
def code
    (m : Module) :
    List (String × Instruction) :=
  m.functions.flatMap Function.code

/-
  A module has kept its code and holds more instructions, which
  are these.  Only their order is not determined.
-/
def Emits
    (m : Module)
    (emitted : List (String × Instruction))
    (m' : Module) :
    Prop :=
  m'.code.Perm (m.code ++ emitted)

variable {m m' m'' : Module}
variable {emitted more : List (String × Instruction)}

theorem Emits.of_code
    (hCode : m'.code = m.code) :
    m.Emits [] m' := by
  unfold Emits
  rw [hCode, List.append_nil]

theorem Emits.trans
    (hFirst : m.Emits emitted m')
    (hSecond : m'.Emits more m'') :
    m.Emits (emitted ++ more) m'' := by
  unfold Emits at *
  rw [← List.append_assoc]
  exact hSecond.trans (hFirst.append_right more)

theorem Emits.mem_code
    (hEmits : m.Emits emitted m')
    {e : String × Instruction} :
    e ∈ m'.code ↔ e ∈ m.code ∨ e ∈ emitted := by
  rw [List.Perm.mem_iff hEmits, List.mem_append]

/- What is emitted is determined by the two modules. -/
theorem Emits.unique
    (hEmits : m.Emits emitted m')
    (hOther : m.Emits more m') :
    emitted.Perm more :=
  (List.perm_append_left_iff m.code).mp
    (List.Perm.trans (List.Perm.symm hEmits) hOther)

end Module

end Offside.IR

------------------------------------------------------------
-- Changes of a Module
------------------------------------------------------------

namespace Offside.IR

namespace Function

variable (f : Function)

/- An instruction is added to every block of that label. -/
theorem code_insert
    (label : String)
    (anchor : Nat)
    (i : Instruction) :
    ∃ n,
      (f.modifyBlock label fun b => b.insert anchor i).code.Perm
          (f.code ++ List.replicate n (f.name, i)) ∧
        (label ∈ f.blocks.map Block.label → 0 < n) := by
  unfold code modifyBlock
  induction f.blocks with
  | nil => exact ⟨0, by simp⟩
  | cons b bs ih =>
      rcases ih with ⟨n, hPerm, hSome⟩
      simp only [List.map_cons, List.flatMap_cons]
      by_cases hHere : b.label = label
      · refine ⟨n + 1, ?_, fun _ => Nat.succ_pos n⟩
        have hBlock :
            ((b.insert anchor i).body.map fun j => (f.name, j)).Perm
              (b.body.map (fun j => (f.name, j)) ++ [(f.name, i)]) := by
          rw [← List.map_singleton (f := fun j => (f.name, j)),
            ← List.map_append]
          apply List.Perm.map
          simp only [Block.insert]
          conv_rhs => rw [← List.take_append_drop anchor b.body]
          exact List.perm_middle.trans (List.perm_append_singleton _ _).symm
        rw [if_pos hHere, List.replicate_succ]
        refine (hBlock.append hPerm).trans ?_
        simp only [List.append_assoc, List.singleton_append]
        exact List.Perm.append_left _ List.perm_middle.symm
      · refine ⟨n, ?_, ?_⟩
        · rw [if_neg hHere, List.append_assoc]
          exact List.Perm.append_left _ hPerm
        · intro hMem
          rcases List.mem_cons.mp hMem with hLabel | hLabel
          · exact absurd hLabel.symm hHere
          · exact hSome hLabel

/- An instruction is added to the first block, if there is one. -/
theorem code_modifyEntry
    (i : Instruction) :
    ∃ n,
      (f.modifyEntry fun b => b.insert 0 i).code.Perm
          (f.code ++ List.replicate n (f.name, i)) ∧
        (f.blocks ≠ [] → 0 < n) := by
  unfold code modifyEntry
  cases f.blocks with
  | nil => exact ⟨0, by simp⟩
  | cons b bs =>
      refine ⟨1, ?_, fun _ => Nat.one_pos⟩
      simp only [List.flatMap_cons, Block.insert, List.take_zero,
        List.drop_zero, List.nil_append, List.map_cons,
        List.cons_append, List.replicate_one]
      exact (List.perm_append_singleton _ _).symm

theorem code_attach
    (label : String) :
    (f.attach label).code = f.code := by
  simp [code, attach]

theorem code_register
    (name : String) :
    (f.register name).2.code = f.code :=
  rfl

theorem code_renameParam
    (index : Nat)
    (name : String) :
    (f.renameParam index name).code = f.code :=
  rfl

theorem code_declare
    (name : String)
    (signature : Signature) :
    (declare name signature).code = [] :=
  rfl

end Function

namespace Module

variable (m : Module)

/-
  A change of functions adds copies of an instruction if it does
  so in every function of the name, and at least one if it does
  so in one of them.
-/
theorem modify_emits
    {name : String}
    {change : Function → Function}
    {e : String × Instruction}
    {Reached : Function → Prop}
    (hChange : ∀ f, f.name = name →
      ∃ n, (change f).code.Perm (f.code ++ List.replicate n e) ∧
        (Reached f → 0 < n)) :
    ∃ n,
      m.Emits (List.replicate n e) (m.modify name change) ∧
        ∀ f ∈ m.functions, f.name = name → Reached f → 0 < n := by
  unfold Emits code modify
  induction m.functions with
  | nil => exact ⟨0, by simp⟩
  | cons f fs ih =>
      rcases ih with ⟨n, hPerm, hSome⟩
      simp only [List.map_cons, List.flatMap_cons]
      by_cases hHere : f.name = name
      · rcases hChange f hHere with ⟨k, hPerm', hSome'⟩
        refine ⟨k + n, ?_, ?_⟩
        · rw [if_pos hHere, List.replicate_add]
          refine (hPerm'.append hPerm).trans ?_
          simp only [List.append_assoc]
          refine List.Perm.append_left _ ?_
          rw [← List.append_assoc, ← List.append_assoc]
          exact List.perm_append_comm.append_right _
        · intro g hMem hName hReached
          rcases List.mem_cons.mp hMem with rfl | hMem
          · have hFirst := hSome' hReached
            omega
          · have hLater := hSome g hMem hName hReached
            omega
      · refine ⟨n, ?_, ?_⟩
        · rw [if_neg hHere, List.append_assoc]
          exact List.Perm.append_left _ hPerm
        · intro g hMem hName hReached
          rcases List.mem_cons.mp hMem with rfl | hMem
          · exact absurd hName hHere
          · exact hSome g hMem hName hReached

/- An instruction is placed at a cursor. -/
theorem insert_emits
    (c : Cursor)
    (i : Instruction) :
    ∃ n,
      m.Emits (List.replicate n (c.function, i)) (m.insert c i) ∧
        ∀ f ∈ m.functions, f.name = c.function →
          c.block ∈ f.blocks.map Block.label → 0 < n := by
  refine m.modify_emits fun f hName => ?_
  rcases f.code_insert c.block c.anchor i with ⟨n, hPerm, hSome⟩
  rw [hName] at hPerm
  exact ⟨n, hPerm, hSome⟩

/- An instruction is placed at the start of a function. -/
theorem reserve_emits
    (name : String)
    (i : Instruction) :
    ∃ n,
      m.Emits (List.replicate n (name, i))
          (m.modify name fun f => f.modifyEntry fun b => b.insert 0 i) ∧
        ∀ f ∈ m.functions, f.name = name → f.blocks ≠ [] → 0 < n := by
  refine m.modify_emits fun f hName => ?_
  rcases f.code_modifyEntry i with ⟨n, hPerm, hSome⟩
  rw [hName] at hPerm
  exact ⟨n, hPerm, hSome⟩

/- A change that leaves the code of every function. -/
theorem code_modify
    {name : String}
    {change : Function → Function}
    (hChange : ∀ f, f.name = name → (change f).code = f.code) :
    (m.modify name change).code = m.code := by
  unfold code modify
  rw [List.flatMap_map]
  apply List.flatMap_congr
  intro f _
  split_ifs with hName
  · exact hChange f hName
  · rfl

theorem code_add
    {f : Function}
    (hEmpty : f.code = []) :
    (m.add f).code = m.code := by
  simp [code, add, hEmpty]

end Module

end Offside.IR

------------------------------------------------------------
-- Texts
------------------------------------------------------------

namespace Offside.IR

theorem mapM_isSome_iff
    {α β : Type}
    (f : α → Option β)
    (xs : List α) :
    (xs.mapM f).isSome ↔ ∀ x ∈ xs, (f x).isSome := by
  induction xs with
  | nil => simp
  | cons x xs ih =>
      rw [List.mapM_cons, List.forall_mem_cons, ← ih]
      cases f x with
      | none => simp
      | some y => cases xs.mapM f <;> simp

theorem one_isSome
    {α β : Type}
    (x : Option α)
    (k : α → β) :
    (x >>= fun a => pure (k a)).isSome = x.isSome := by
  cases x <;> rfl

theorem two_isSome
    {α β γ : Type}
    (x : Option α)
    (y : Option β)
    (k : α → β → γ) :
    (x >>= fun a => y >>= fun b => pure (k a b)).isSome =
      (x.isSome && y.isSome) := by
  cases x <;> cases y <;> rfl

theorem Operand.reference?_isSome
    (o : Operand) :
    o.reference?.isSome = o.isSingle := by
  cases o <;> rfl

theorem Operand.text?_isSome
    (o : Operand) :
    o.text?.isSome = o.isSingle := by
  cases o <;> rfl

/- An instruction has a text when its operands are single. -/
theorem Op.text?_isSome
    (op : Op) :
    op.text?.isSome = op.operands.all Operand.isSingle := by
  have hOne : ∀ (o : Operand) (k : String → String),
      (o.text? >>= fun text => pure (k text)).isSome =
        [o].all Operand.isSingle := by
    intro o k
    rw [one_isSome, o.text?_isSome]
    simp
  have hTwo : ∀ (lhs rhs : Operand) (k : String → String → String),
      (lhs.text? >>= fun l => rhs.reference? >>= fun r =>
        pure (k l r)).isSome = [lhs, rhs].all Operand.isSingle := by
    intro lhs rhs k
    rw [two_isSome, lhs.text?_isSome, rhs.reference?_isSome]
    simp
  cases op with
  | alloca type => rfl
  | jump target => rfl
  | load pointer => cases pointer <;> rfl
  | store value pointer =>
      refine (two_isSome value.text? pointer.text? _).trans ?_
      simp [operands, Operand.text?_isSome]
  | arithmetic op lhs rhs => exact hTwo lhs rhs _
  | compare op lhs rhs => exact hTwo lhs rhs _
  | toFloat value => exact hOne value _
  | toInt value bits => exact hOne value _
  | ret value => exact hOne value _
  | branch cond yes no => exact hOne cond _
  | call signature callee args =>
      refine (one_isSome (args.mapM Operand.text?) _).trans ?_
      rw [Bool.eq_iff_iff, mapM_isSome_iff, List.all_eq_true]
      simp only [Operand.text?_isSome, operands]
  | phi type incoming =>
      refine (one_isSome (incoming.mapM _) _).trans ?_
      rw [Bool.eq_iff_iff, mapM_isSome_iff, List.all_eq_true]
      simp only [one_isSome, Operand.reference?_isSome, operands,
        List.forall_mem_map]

theorem Instruction.text?_isSome
    (i : Instruction) :
    i.text?.isSome = i.op.operands.all Operand.isSingle := by
  refine (one_isSome i.op.text? _).trans ?_
  rw [Op.text?_isSome]

theorem Block.text?_isSome_iff
    (b : Block) :
    b.text?.isSome ↔
      ∀ i ∈ b.body, i.op.operands.all Operand.isSingle := by
  unfold text?
  rw [one_isSome, mapM_isSome_iff]
  simp only [one_isSome, Instruction.text?_isSome]

theorem Function.text?_isSome_iff
    (f : Function) :
    f.text?.isSome ↔
      ∀ e ∈ f.code, e.2.op.operands.all Operand.isSingle := by
  have hCode :
      (∀ e ∈ f.code, e.2.op.operands.all Operand.isSingle) ↔
        ∀ b ∈ f.blocks, b.text?.isSome := by
    simp only [code, Block.text?_isSome_iff, List.mem_flatMap,
      List.mem_map, forall_exists_index, and_imp]
    constructor
    · intro hAll b hBlock i hMem
      exact hAll _ b hBlock i hMem rfl
    · rintro hAll _ b hBlock i hMem rfl
      exact hAll b hBlock i hMem
  rw [hCode]
  unfold text?
  split_ifs with hEmpty
  · rw [List.isEmpty_iff] at hEmpty
    simp [hEmpty]
  · exact (Bool.eq_iff_iff.mp (one_isSome (f.blocks.mapM Block.text?) _)).trans
      (mapM_isSome_iff _ _)

/- A module has a text when all operands in it are single. -/
theorem Module.text?_isSome_iff
    (m : Module) :
    m.text?.isSome ↔
      ∀ e ∈ m.code, e.2.op.operands.all Operand.isSingle := by
  unfold text?
  rw [one_isSome, mapM_isSome_iff]
  simp only [Function.text?_isSome_iff, code, List.mem_flatMap,
    forall_exists_index, and_imp]
  constructor
  · intro hAll e f hFunction hMem
    exact hAll f hFunction e hMem
  · intro hAll f hFunction e hMem
    exact hAll e f hFunction hMem

/- The text of a module that has more code than another one. -/
theorem Module.Emits.text?_isSome_iff
    {m m' : Module}
    {emitted : List (String × Instruction)}
    (hEmits : m.Emits emitted m') :
    m'.text?.isSome ↔
      m.text?.isSome ∧
        ∀ e ∈ emitted, e.2.op.operands.all Operand.isSingle := by
  rw [Module.text?_isSome_iff, Module.text?_isSome_iff]
  simp only [hEmits.mem_code, or_imp, forall_and]

theorem Op.operands_of_isSound
    {op : Op}
    (hSound : op.isSound = true) :
    op.operands.all Operand.isSingle = true := by
  rw [isSound, Bool.and_eq_true] at hSound
  exact hSound.1

end Offside.IR
