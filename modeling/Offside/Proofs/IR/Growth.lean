import Mathlib
import Offside.Proofs.IR.Names

/-
  Growth of functions: the code that is at a place stays there
  while instructions and blocks are added.

  Key definitions include:
    * `Offside.IR.Block.steps`
    * `Offside.IR.Function.fetch`
    * `Offside.IR.Function.Grows`

  Memory is reserved at the start of a function, in front of
  other code.  An instruction that reserves memory is therefore
  not counted among the steps of its block.

  Main statements:
    * `Offside.IR.Function.Grows.trans`
    * `Offside.IR.Function.grows_append`,
      `Offside.IR.Function.grows_reserve`,
      `Offside.IR.Function.grows_attach`: what code generation
      does to a function lets it grow.
-/

------------------------------------------------------------
-- Code and Places
------------------------------------------------------------

namespace Offside.IR

/- Whether the instruction reserves memory. -/
def Op.isReservation :
    Op →
    Bool
  | alloca _ => true
  | _ => false

namespace Block

/- The instructions that do something when they are reached. -/
def steps
    (b : Block) :
    List Instruction :=
  b.body.filter fun i => !i.op.isReservation

/- An instruction at the end is one more step. -/
theorem steps_append
    (b : Block)
    {i : Instruction}
    (hStep : i.op.isReservation = false) :
    (b.insert b.body.length i).steps = b.steps ++ [i] := by
  simp [steps, insert, hStep]

/- A reservation at the start is none. -/
theorem steps_reserve
    (b : Block)
    {i : Instruction}
    (hReserve : i.op.isReservation = true) :
    (b.insert 0 i).steps = b.steps := by
  simp [steps, insert, hReserve]

/- A block ends when its last instruction ends it. -/
theorem isTerminated_append
    (b : Block)
    (i : Instruction) :
    (b.insert b.body.length i).isTerminated =
      (b.isTerminated || i.op.isTerminator) := by
  simp [isTerminated, insert]

theorem length_insert
    (b : Block)
    (i : Instruction) :
    (b.insert b.body.length i).body.length = b.body.length + 1 := by
  simp [insert]

/- A block has what it had before an instruction was put there. -/
theorem subset_insert
    (b : Block)
    (anchor : Nat)
    (i : Instruction) :
    b.body ⊆ (b.insert anchor i).body := by
  intro j hMem
  rw [← List.take_append_drop anchor b.body, List.mem_append] at hMem
  rw [insert, List.mem_append]
  rcases hMem with hTake | hDrop
  · exact .inl hTake
  · exact .inr (List.mem_cons_of_mem i hDrop)

/- What is in a block after an instruction was put there. -/
theorem mem_insert
    {b : Block}
    {anchor : Nat}
    {i j : Instruction}
    (hMem : j ∈ (b.insert anchor i).body) :
    j = i ∨ j ∈ b.body := by
  rw [insert, List.mem_append, List.mem_cons] at hMem
  rcases hMem with hTake | hNew | hDrop
  · exact .inr (List.mem_of_mem_take hTake)
  · exact .inl hNew
  · exact .inr (List.mem_of_mem_drop hDrop)

end Block

/- A place in a function: a block and a number of steps in it. -/
structure Point where
  label : String
  pc : Nat
  deriving DecidableEq, Repr

namespace Point

/- The start of a block. -/
def start
    (label : String) :
    Point :=
  ⟨label, 0⟩

/- One step further. -/
def next
    (p : Point) :
    Point :=
  { p with pc := p.pc + 1 }

end Point

namespace Function

/- The instruction at a place. -/
def fetch
    (f : Function)
    (p : Point) :
    Option Instruction :=
  (f.block? p.label).bind fun b => b.steps[p.pc]?

/- The names of the memory that a function reserves. -/
def cells
    (f : Function) :
    List String :=
  f.blocks.flatMap fun b =>
    (b.body.filter fun i => i.op.isReservation).map fun i => i.name

theorem mem_cells
    {f : Function}
    {name : String} :
    name ∈ f.cells ↔
      ∃ b ∈ f.blocks, ∃ i ∈ b.body,
        i.op.isReservation = true ∧ i.name = name := by
  simp [cells, and_assoc]

/- Memory stays reserved where every block has what it had. -/
theorem cells_subset
    {f g : Function}
    (hBlocks : ∀ b ∈ f.blocks, ∃ b' ∈ g.blocks, b.body ⊆ b'.body) :
    f.cells ⊆ g.cells := by
  intro name hMem
  rcases mem_cells.mp hMem with ⟨b, hBlock, i, hCode, hReserve⟩
  rcases hBlocks b hBlock with ⟨b', hBlock', hSubset⟩
  exact mem_cells.mpr ⟨b', hBlock', i, hSubset hCode, hReserve⟩

/- The code at every place of one function is in the other. -/
structure Within
    (f g : Function) :
    Prop where
  code : ∀ p i, f.fetch p = some i → g.fetch p = some i
  cells : f.cells ⊆ g.cells

theorem Within.refl
    (f : Function) :
    f.Within f :=
  ⟨fun _ _ hFetch => hFetch, List.Subset.refl _⟩

theorem Within.trans
    {f g h : Function}
    (hFirst : f.Within g)
    (hSecond : g.Within h) :
    f.Within h where
  code := fun p i hFetch => hSecond.code p i (hFirst.code p i hFetch)
  cells := List.Subset.trans hFirst.cells hSecond.cells

/- Every label and every name of an instruction is in use. -/
structure Registered
    (f : Function) :
    Prop where
  labels : ∀ b ∈ f.blocks, b.label ∈ f.scope.used
  names : ∀ b ∈ f.blocks, ∀ i ∈ b.body, i.name ∈ f.scope.used

/- There is no block of a label that is not in use. -/
theorem Registered.block?_eq_none
    {f : Function}
    (hRegistered : f.Registered)
    {label : String}
    (hFree : label ∉ f.scope.used) :
    f.block? label = none := by
  rw [block?, List.find?_eq_none]
  intro b hMem hSame
  have hLabel : b.label = label := by simpa using hSame
  exact hFree (hLabel ▸ hRegistered.labels b hMem)

/-
  How code generation changes a function: no code and no name
  is lost, and no block is added under one of the names that
  are `kept`.
-/
structure Grows
    (kept : List String)
    (f g : Function) :
    Prop where
  name : g.name = f.name
  within : f.Within g
  used : f.scope.used ⊆ g.scope.used
  blocks :
    ∀ label ∈ kept, f.block? label = none → g.block? label = none

theorem Grows.refl
    (kept : List String)
    (f : Function) :
    Grows kept f f where
  name := rfl
  within := .refl f
  used := List.Subset.refl _
  blocks := fun _ _ hNone => hNone

theorem Grows.trans
    {kept : List String}
    {f g h : Function}
    (hFirst : Grows kept f g)
    (hSecond : Grows kept g h) :
    Grows kept f h where
  name := hSecond.name.trans hFirst.name
  within := hFirst.within.trans hSecond.within
  used := List.Subset.trans hFirst.used hSecond.used
  blocks := fun label hKept hNone =>
    hSecond.blocks label hKept (hFirst.blocks label hKept hNone)

theorem Grows.mono
    {kept kept' : List String}
    {f g : Function}
    (hGrows : Grows kept' f g)
    (hSubset : kept ⊆ kept') :
    Grows kept f g :=
  { hGrows with
    blocks := fun label hKept => hGrows.blocks label (hSubset hKept) }

end Function

end Offside.IR

------------------------------------------------------------
-- Names and Blocks Are Added
------------------------------------------------------------

namespace Offside.IR.Function

variable {f : Function}

/- Taking a name into use changes no code. -/
theorem grows_register
    (kept : List String)
    (f : Function)
    (hint : String) :
    Grows kept f (f.register hint).2 where
  name := rfl
  within := ⟨fun _ _ hFetch => hFetch, List.Subset.refl _⟩
  used := by
    change f.scope.used ⊆ (f.scope.register hint).2.used
    rw [Scope.used_register]
    exact List.subset_cons_self _ _
  blocks := fun _ _ hNone => hNone

theorem Registered.register
    (hRegistered : f.Registered)
    (hint : String) :
    (f.register hint).2.Registered where
  labels := fun b hMem =>
    (grows_register [] f hint).used (hRegistered.labels b hMem)
  names := fun b hMem i hCode =>
    (grows_register [] f hint).used (hRegistered.names b hMem i hCode)

/- The name is a new one and is in use. -/
theorem register_fresh
    (f : Function)
    (hint : String) :
    (f.register hint).1 ∉ f.scope.used ∧
      (f.register hint).1 ∈ (f.register hint).2.scope.used := by
  refine ⟨Scope.register_notMem f.scope hint, ?_⟩
  change _ ∈ (f.scope.register hint).2.used
  rw [Scope.used_register]
  exact List.mem_cons_self

/- The blocks after one has been added. -/
theorem block?_attach
    (f : Function)
    (label other : String) :
    (f.attach label).block? other =
      (f.block? other).or
        (if label = other then some ⟨label, []⟩ else none) := by
  simp [attach, block?, List.find?_append, List.find?_cons]
  split_ifs with hSame <;> simp [hSame]

/- An empty block is added under a name of its own. -/
theorem block?_attach_self
    {label : String}
    (hNone : f.block? label = none) :
    (f.attach label).block? label = some ⟨label, []⟩ := by
  rw [block?_attach, hNone, if_pos rfl]
  rfl

theorem grows_attach
    {kept : List String}
    {label : String}
    (hNew : label ∉ kept) :
    Grows kept f (f.attach label) where
  name := rfl
  within := by
    refine ⟨fun p i hFetch => ?_, cells_subset fun b hMem =>
      ⟨b, List.mem_append_left _ hMem, List.Subset.refl _⟩⟩
    unfold fetch at hFetch ⊢
    rw [block?_attach]
    cases hBlock : f.block? p.label with
    | none =>
        rw [hBlock] at hFetch
        cases hFetch
    | some b =>
        rw [hBlock] at hFetch
        exact hFetch
  used := List.Subset.refl _
  blocks := by
    intro other hKept hNone
    have hOther : label ≠ other := by
      rintro rfl
      exact hNew hKept
    rw [block?_attach, hNone, if_neg hOther]
    rfl

theorem Registered.attach
    (hRegistered : f.Registered)
    {label : String}
    (hUsed : label ∈ f.scope.used) :
    (f.attach label).Registered where
  labels := by
    intro b hMem
    rcases List.mem_append.mp hMem with hOld | hNew
    · exact hRegistered.labels b hOld
    · rw [List.mem_singleton.mp hNew]
      exact hUsed
  names := by
    intro b hMem i hCode
    rcases List.mem_append.mp hMem with hOld | hNew
    · exact hRegistered.names b hOld i hCode
    · rw [List.mem_singleton.mp hNew] at hCode
      cases hCode

end Offside.IR.Function

------------------------------------------------------------
-- Instructions Are Added
------------------------------------------------------------

namespace Offside.IR.Function

variable {f : Function}

/- A block that is found has the label. -/
theorem label_of_block?
    {label : String}
    {b : Block}
    (hBlock : f.block? label = some b) :
    b.label = label := by
  simpa using List.find?_some hBlock

/- The blocks after one has been changed. -/
theorem block?_modifyBlock
    (f : Function)
    (label other : String)
    {change : Block → Block}
    (hLabel : ∀ b, (change b).label = b.label) :
    (f.modifyBlock label change).block? other =
      (f.block? other).map fun b =>
        if label = other then change b else b := by
  have hSame :
      (fun b => decide ((if b.label = label then change b else b).label
          = other)) =
        fun b : Block => decide (b.label = other) := by
    funext b
    split_ifs <;> simp [hLabel]
  rw [block?, modifyBlock, List.find?_map]
  change (f.blocks.find? fun b =>
    decide ((if b.label = label then change b else b).label
      = other)).map _ = _
  rw [hSame]
  refine Option.map_congr fun b hBlock => ?_
  rw [label_of_block? hBlock]
  simp only [eq_comm]

theorem block?_insert
    (f : Function)
    (label other : String)
    (anchor : Nat)
    (i : Instruction) :
    (f.modifyBlock label fun b => b.insert anchor i).block? other =
      (f.block? other).map fun b =>
        if label = other then b.insert anchor i else b :=
  block?_modifyBlock f label other fun _ => rfl

/- The same for the first block. -/
theorem block?_modifyEntry
    (f : Function)
    (label : String)
    {change : Block → Block}
    (hLabel : ∀ b, (change b).label = b.label) :
    (f.modifyEntry change).block? label = f.block? label ∨
      (f.modifyEntry change).block? label =
        (f.block? label).map change := by
  unfold block? modifyEntry
  cases f.blocks with
  | nil => exact .inl rfl
  | cons b bs =>
      by_cases hFirst : b.label = label
      · right
        simp [hLabel, hFirst]
      · left
        simp [hLabel, hFirst]

theorem block?_reserve
    (f : Function)
    (label : String)
    (i : Instruction) :
    (f.modifyEntry fun b => b.insert 0 i).block? label =
        f.block? label ∨
      (f.modifyEntry fun b => b.insert 0 i).block? label =
        (f.block? label).map fun b => b.insert 0 i :=
  block?_modifyEntry f label fun _ => rfl

/- The code of a function whose block gets one more instruction. -/
theorem block?_append
    {label : String}
    {b : Block}
    (hBlock : f.block? label = some b)
    (i : Instruction) :
    (f.modifyBlock label fun b' =>
        b'.insert b.body.length i).block? label =
      some (b.insert b.body.length i) := by
  rw [block?_insert, hBlock]
  simp

theorem cells_modifyBlock
    (f : Function)
    (label : String)
    (anchor : Nat)
    (i : Instruction) :
    f.cells ⊆
      (f.modifyBlock label fun b => b.insert anchor i).cells := by
  apply cells_subset
  intro b hMem
  refine ⟨_, List.mem_map_of_mem hMem, ?_⟩
  split_ifs
  · exact b.subset_insert anchor i
  · exact List.Subset.refl _

theorem grows_append
    (kept : List String)
    {label : String}
    {b : Block}
    (hBlock : f.block? label = some b)
    {i : Instruction}
    (hStep : i.op.isReservation = false) :
    Grows kept f
      (f.modifyBlock label fun b' => b'.insert b.body.length i) where
  name := rfl
  within := by
    refine ⟨fun p j hFetch => ?_, cells_modifyBlock f label _ i⟩
    unfold fetch at hFetch ⊢
    by_cases hHere : p.label = label
    · rw [hHere] at hFetch ⊢
      rw [hBlock] at hFetch
      rw [block?_append hBlock]
      simp only [Option.bind_some, b.steps_append hStep] at hFetch ⊢
      exact List.getElem?_append_left
        (List.getElem?_eq_some_iff.mp hFetch).1 ▸ hFetch
    · rw [block?_insert]
      simp only [if_neg (Ne.symm hHere), Option.map_id']
      exact hFetch
  used := List.Subset.refl _
  blocks := by
    intro other _ hNone
    rw [block?_insert, hNone]
    rfl

/- The new instruction is the last step of its block. -/
theorem fetch_append
    {label : String}
    {b : Block}
    (hBlock : f.block? label = some b)
    {i : Instruction}
    (hStep : i.op.isReservation = false) :
    (f.modifyBlock label fun b' =>
        b'.insert b.body.length i).fetch ⟨label, b.steps.length⟩ =
      some i := by
  rw [fetch, block?_append hBlock, Option.bind_some,
    b.steps_append hStep]
  simp

theorem Registered.modifyBlock
    (hRegistered : f.Registered)
    (label : String)
    (anchor : Nat)
    {i : Instruction}
    (hName : i.name ∈ f.scope.used) :
    (f.modifyBlock label fun b => b.insert anchor i).Registered where
  labels := by
    intro b hMem
    rcases List.mem_map.mp hMem with ⟨b', hOld, rfl⟩
    split_ifs
    all_goals exact hRegistered.labels b' hOld
  names := by
    intro b hMem j hCode
    rcases List.mem_map.mp hMem with ⟨b', hOld, rfl⟩
    split_ifs at hCode
    · rcases Block.mem_insert hCode with rfl | hCode
      · exact hName
      · exact hRegistered.names b' hOld j hCode
    · exact hRegistered.names b' hOld j hCode

theorem cells_modifyEntry
    (f : Function)
    (i : Instruction) :
    f.cells ⊆ (f.modifyEntry fun b => b.insert 0 i).cells := by
  apply cells_subset
  intro b hMem
  unfold modifyEntry
  cases hBlocks : f.blocks with
  | nil =>
      rw [hBlocks] at hMem
      cases hMem
  | cons c cs =>
      rw [hBlocks] at hMem
      rcases List.mem_cons.mp hMem with rfl | hOther
      · exact ⟨b.insert 0 i, List.mem_cons_self, b.subset_insert 0 i⟩
      · exact ⟨b, List.mem_cons_of_mem _ hOther, List.Subset.refl _⟩

/- Memory is reserved in the first block. -/
theorem grows_reserve
    (kept : List String)
    (f : Function)
    {i : Instruction}
    (hReserve : i.op.isReservation = true) :
    Grows kept f (f.modifyEntry fun b => b.insert 0 i) where
  name := rfl
  within := by
    refine ⟨fun p j hFetch => ?_, f.cells_modifyEntry i⟩
    unfold fetch at hFetch ⊢
    rcases f.block?_reserve p.label i with hSame | hChanged
    · rwa [hSame]
    · rw [hChanged]
      cases hBlock : f.block? p.label with
      | none =>
          rw [hBlock] at hFetch
          cases hFetch
      | some b =>
          rw [hBlock] at hFetch
          simpa [b.steps_reserve hReserve] using hFetch
  used := List.Subset.refl _
  blocks := by
    intro label _ hNone
    rcases f.block?_reserve label i with hSame | hChanged
    · rwa [hSame]
    · rw [hChanged, hNone]
      rfl

/- What is reserved is there, in a function that has a block. -/
theorem mem_cells_reserve
    (hSome : f.blocks ≠ [])
    {i : Instruction}
    (hReserve : i.op.isReservation = true) :
    i.name ∈ (f.modifyEntry fun b => b.insert 0 i).cells := by
  rw [mem_cells]
  unfold modifyEntry
  cases hBlocks : f.blocks with
  | nil => exact absurd hBlocks hSome
  | cons b bs =>
      exact ⟨b.insert 0 i, List.mem_cons_self, i, List.mem_cons_self,
        hReserve, rfl⟩

/- Every block after that is an old one, or one that has changed. -/
theorem mem_modifyEntry
    {change : Block → Block}
    {b : Block}
    (hMem : b ∈ (f.modifyEntry change).blocks) :
    ∃ b' ∈ f.blocks, b = b' ∨ b = change b' := by
  unfold Function.modifyEntry at hMem
  cases hBlocks : f.blocks with
  | nil =>
      rw [hBlocks] at hMem
      cases hMem
  | cons c cs =>
      rw [hBlocks] at hMem
      rcases List.mem_cons.mp hMem with hFirst | hOther
      · exact ⟨c, List.mem_cons_self, .inr hFirst⟩
      · exact ⟨b, List.mem_cons_of_mem _ hOther, .inl rfl⟩

theorem Registered.modifyEntry
    (hRegistered : f.Registered)
    {i : Instruction}
    (hName : i.name ∈ f.scope.used) :
    (f.modifyEntry fun b => b.insert 0 i).Registered where
  labels := by
    intro b hMem
    rcases mem_modifyEntry hMem with ⟨b', hOld, hBlock⟩
    rcases hBlock with rfl | rfl
    · exact hRegistered.labels _ hOld
    · exact hRegistered.labels b' hOld
  names := by
    intro b hMem j hCode
    rcases mem_modifyEntry hMem with ⟨b', hOld, hBlock⟩
    rcases hBlock with rfl | rfl
    · exact hRegistered.names b hOld j hCode
    · rcases Block.mem_insert hCode with rfl | hCode
      · exact hName
      · exact hRegistered.names b' hOld j hCode

end Offside.IR.Function
