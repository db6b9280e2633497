import Mathlib
import Offside.Proofs.IR.Growth

/-
  Laying code: all the ways in which code generation changes a
  function while it goes from the end of one block to the end of
  another.

  Key definitions include:
    * `Offside.IR.Function.Proper`
    * `Offside.IR.Function.predecessors`
    * `Offside.IR.Function.Lays`
    * `Offside.IR.Function.Keeps`

  Main statements:
    * `Offside.IR.Function.Lays.keeps`: code is laid behind the
      block it starts from and in new blocks, and control goes to
      new blocks only.
-/

------------------------------------------------------------
-- Labels
------------------------------------------------------------

namespace Offside.IR.Function

variable {f : Function}

/- The labels of the blocks, in their order. -/
def labels
    (f : Function) :
    List String :=
  f.blocks.map Block.label

/- Names are in use, and no two blocks have the same label. -/
structure Proper
    (f : Function) :
    Prop extends Registered f where
  distinct : f.labels.Nodup

/- Puts an instruction at the end of a block. -/
def append
    (f : Function)
    (label : String)
    (i : Instruction) :
    Function :=
  f.modifyBlock label fun b => { b with body := b.body ++ [i] }

/- Reserves memory at the start of the first block. -/
def reserve
    (f : Function)
    (i : Instruction) :
    Function :=
  f.modifyEntry fun b => b.insert 0 i

theorem label_mem
    {b : Block}
    (hMem : b ∈ f.blocks) :
    b.label ∈ f.labels :=
  List.mem_map_of_mem hMem

theorem Registered.used_of_mem
    (hRegistered : f.Registered)
    {label : String}
    (hMem : label ∈ f.labels) :
    label ∈ f.scope.used := by
  rcases List.mem_map.mp hMem with ⟨b, hBlock, rfl⟩
  exact hRegistered.labels b hBlock

/- There is one block of a label. -/
theorem Proper.block_unique
    (hProper : f.Proper)
    {b c : Block}
    (hBlock : b ∈ f.blocks)
    (hOther : c ∈ f.blocks)
    (hSame : b.label = c.label) :
    b = c :=
  List.inj_on_of_nodup_map hProper.distinct hBlock hOther hSame

theorem Proper.block?_eq_some
    (hProper : f.Proper)
    {b : Block}
    (hBlock : b ∈ f.blocks) :
    f.block? b.label = some b := by
  cases hFound : f.block? b.label with
  | none =>
      have hNone := List.find?_eq_none.mp hFound b hBlock
      simp at hNone
  | some c =>
      have hSame := hProper.block_unique
        (List.mem_of_find?_eq_some hFound) hBlock
        (label_of_block? hFound)
      rw [hSame]

theorem labels_modifyBlock
    (f : Function)
    (label : String)
    {change : Block → Block}
    (hLabel : ∀ b, (change b).label = b.label) :
    (f.modifyBlock label change).labels = f.labels := by
  unfold labels modifyBlock
  rw [List.map_map]
  apply List.map_congr_left
  intro b _
  simp only [Function.comp_apply]
  split_ifs
  · exact hLabel b
  · rfl

theorem labels_append
    (f : Function)
    (label : String)
    (i : Instruction) :
    (f.append label i).labels = f.labels :=
  f.labels_modifyBlock label fun _ => rfl

theorem labels_attach
    (f : Function)
    (label : String) :
    (f.attach label).labels = f.labels ++ [label] := by
  simp [labels, attach]

theorem labels_reserve
    (f : Function)
    (i : Instruction) :
    (f.reserve i).labels = f.labels := by
  unfold labels reserve modifyEntry
  cases f.blocks <;> rfl

/- The blocks after an instruction was put at the end of one. -/
theorem mem_append
    {label : String}
    {i : Instruction}
    {b : Block} :
    b ∈ (f.append label i).blocks ↔
      ∃ b' ∈ f.blocks,
        b = if b'.label = label then { b' with body := b'.body ++ [i] }
          else b' := by
  simp [append, modifyBlock, eq_comm]

theorem mem_attach
    {label : String}
    {b : Block} :
    b ∈ (f.attach label).blocks ↔ b ∈ f.blocks ∨ b = ⟨label, []⟩ := by
  simp [attach]

/- An instruction at the end of the block that was found. -/
theorem Proper.append_eq
    (hProper : f.Proper)
    {label : String}
    {b : Block}
    (hBlock : f.block? label = some b)
    (i : Instruction) :
    (f.modifyBlock label fun b' => b'.insert b.body.length i) =
      f.append label i := by
  unfold append modifyBlock
  congr 1
  apply List.map_congr_left
  intro c hMem
  split_ifs with hHere
  · have hSame := hProper.block_unique hMem
      (List.mem_of_find?_eq_some hBlock)
      (hHere.trans (label_of_block? hBlock).symm)
    simp [hSame, Block.insert]
  · rfl

theorem Proper.append
    (hProper : f.Proper)
    (label : String)
    {i : Instruction}
    (hName : i.name ∈ f.scope.used) :
    (f.append label i).Proper where
  labels := by
    intro b hMem
    have hLabel : b.label ∈ f.labels := by
      rw [← f.labels_append label i]
      exact label_mem hMem
    exact hProper.used_of_mem hLabel
  names := by
    intro b hMem j hCode
    rcases mem_append.mp hMem with ⟨b', hOld, rfl⟩
    split_ifs at hCode
    · rcases List.mem_append.mp hCode with hCode | hCode
      · exact hProper.names b' hOld j hCode
      · rw [List.mem_singleton.mp hCode]
        exact hName
    · exact hProper.names b' hOld j hCode
  distinct := by
    rw [labels_append]
    exact hProper.distinct

theorem Proper.attach
    (hProper : f.Proper)
    {label : String}
    (hUsed : label ∈ f.scope.used)
    (hNew : label ∉ f.labels) :
    (f.attach label).Proper where
  toRegistered := hProper.toRegistered.attach hUsed
  distinct := by
    rw [labels_attach]
    exact hProper.distinct.append (List.nodup_singleton label)
      (List.disjoint_singleton.mpr hNew)

theorem Proper.reserve
    (hProper : f.Proper)
    {i : Instruction}
    (hName : i.name ∈ f.scope.used) :
    (f.reserve i).Proper where
  toRegistered := hProper.toRegistered.modifyEntry hName
  distinct := by
    rw [labels_reserve]
    exact hProper.distinct

end Offside.IR.Function

------------------------------------------------------------
-- Control Flow
------------------------------------------------------------

namespace Offside.IR

/- Whether the instruction picks a value by where control came from. -/
def Op.isPhi :
    Op →
    Bool
  | phi .. => true
  | _ => false

/- The labels that an instruction leads to. -/
def Op.targets :
    Op →
    List String
  | jump target => [target]
  | branch _ yes no => [yes, no]
  | _ => []

/- Only an instruction that ends its block leads anywhere. -/
theorem Op.targets_eq_nil
    {op : Op}
    (hOpen : op.isTerminator = false) :
    op.targets = [] := by
  cases op <;> first | rfl | cases hOpen

/- The labels that a block leads to. -/
def Block.targets
    (b : Block) :
    List String :=
  b.body.flatMap fun i => i.op.targets

namespace Function

variable {f : Function}

/- The labels of the blocks that lead to a label. -/
def predecessors
    (f : Function)
    (label : String) :
    List String :=
  (f.blocks.filter fun b => label ∈ b.targets).map Block.label

theorem predecessors_attach
    (f : Function)
    (new label : String) :
    (f.attach new).predecessors label = f.predecessors label := by
  simp [predecessors, attach, Block.targets]

theorem predecessors_reserve
    (f : Function)
    {i : Instruction}
    (hReserve : i.op.isReservation = true)
    (label : String) :
    (f.reserve i).predecessors label = f.predecessors label := by
  have hTargets : i.op.targets = [] := by
    cases hOp : i.op <;> rw [hOp] at hReserve <;>
      first | rfl | cases hReserve
  unfold predecessors reserve modifyEntry
  cases f.blocks with
  | nil => rfl
  | cons b bs =>
      have hSame : (b.insert 0 i).targets = b.targets := by
        simp [Block.targets, Block.insert, hTargets]
      have hLabel : (b.insert 0 i).label = b.label := rfl
      by_cases hMem : label ∈ b.targets
      · simp [hSame, hMem, hLabel]
      · simp [hSame, hMem]

/- An instruction changes the predecessors of its targets only. -/
theorem predecessors_append
    (f : Function)
    (here : String)
    {i : Instruction}
    {label : String}
    (hOther : label ∉ i.op.targets) :
    (f.append here i).predecessors label = f.predecessors label := by
  unfold predecessors append modifyBlock
  rw [List.filter_map, List.map_map]
  have hFilter :
      ((fun b : Block => decide (label ∈ b.targets)) ∘ fun b =>
          if b.label = here then { b with body := b.body ++ [i] }
          else b) =
        fun b : Block => decide (label ∈ b.targets) := by
    funext b
    simp only [Function.comp_apply]
    split_ifs
    · simp [Block.targets, hOther]
    · rfl
  rw [hFilter]
  apply List.map_congr_left
  intro b _
  simp only [Function.comp_apply]
  split_ifs <;> rfl

end Function

end Offside.IR

------------------------------------------------------------
-- Steps of Laying
------------------------------------------------------------

namespace Offside.IR.Function

/- A new name is taken into use. -/
structure Takes
    (f : Function)
    (name : String)
    (g : Function) :
    Prop where
  same : g.name = f.name
  blocks : g.blocks = f.blocks
  used : f.scope.used ⊆ g.scope.used
  free : name ∉ f.scope.used
  taken : name ∈ g.scope.used

/- An instruction is put at the end of a block, under a new name. -/
inductive Adds
    (f : Function)
    (label : String)
    (op : Op) :
    Function →
    Prop
  | intro
      {name : String} {g : Function}
      (hTakes : f.Takes name g) :
      Adds f label op (g.append label ⟨name, op⟩)

/- An empty block is added under a new name. -/
inductive Opens
    (f : Function)
    (label : String) :
    Function →
    Prop
  | intro
      {g : Function}
      (hTakes : f.Takes label g) :
      Opens f label (g.attach label)

/-
  Code is laid from the end of one block to the end of another.
  It is placed, with its memory at the start of the function; it
  goes on in a new block; it branches, and the branches meet; or
  it comes back to where a loop starts.
-/
inductive Lays :
    Function →
    String →
    Function →
    String →
    Prop
  | refl (f : Function) (l : String) :
      Lays f l f l
  | trans
      {f g h : Function} {l m k : String}
      (hFirst : Lays f l g m)
      (hSecond : Lays g m h k) :
      Lays f l h k
  | place
      {f g : Function} {l : String} {op : Op}
      (hOpen : op.isTerminator = false)
      (hPlain : op.isPhi = false)
      (hAdds : f.Adds l op g) :
      Lays f l g l
  | reserve
      {f g : Function} {i : Instruction} (l : String)
      (hReserve : i.op.isReservation = true)
      (hTakes : f.Takes i.name g) :
      Lays f l (g.reserve i) l
  | turn
      {f g h : Function} {l next : String}
      (hOpens : f.Opens next g)
      (hJump : g.Adds l (.jump next) h) :
      Lays f l h next
  | fork
      {f f₁ f₂ f₃ f₄ f₅ f₆ f₇ f₈ g : Function}
      {l yes no meet m k : String} {test v w : Operand} {type : Ty}
      (hYes : f.Opens yes f₁)
      (hNo : f₁.Takes no f₂)
      (hMeet : f₂.Takes meet f₃)
      (hBranch : f₃.Adds l (.branch test yes no) f₄)
      (hFirst : Lays f₄ yes f₅ m)
      (hJump : f₅.Adds m (.jump meet) f₆)
      (hApart : no ∉ f₆.labels)
      (hSecond : Lays (f₆.attach no) no f₇ k)
      (hJump' : f₇.Adds k (.jump meet) f₈)
      (hApart' : meet ∉ f₈.labels)
      (hPick :
        (f₈.attach meet).Adds meet (.phi type [(v, m), (w, k)]) g) :
      Lays f l g meet
  | loop
      {f f₁ f₂ f₃ f₄ g : Function}
      {l head next m : String} {test : Operand}
      (hHead : f.Opens head f₁)
      (hJump : f₁.Adds l (.jump head) f₂)
      (hBody : Lays f₂ head f₃ m)
      (hNext : f₃.Opens next f₄)
      (hBranch : f₄.Adds m (.branch test head next) g) :
      Lays f l g next

variable {f g : Function}
variable {l : String}

theorem Takes.labels_eq
    {name : String}
    (hTakes : f.Takes name g) :
    g.labels = f.labels := by
  rw [labels, hTakes.blocks]
  rfl

theorem Takes.predecessors_eq
    {name : String}
    (hTakes : f.Takes name g)
    (label : String) :
    g.predecessors label = f.predecessors label := by
  rw [predecessors, hTakes.blocks]
  rfl

theorem Proper.takes
    {name : String}
    (hProper : f.Proper)
    (hTakes : f.Takes name g) :
    g.Proper where
  labels := by
    rw [hTakes.blocks]
    exact fun b hMem => hTakes.used (hProper.labels b hMem)
  names := by
    rw [hTakes.blocks]
    exact fun b hMem i hCode =>
      hTakes.used (hProper.names b hMem i hCode)
  distinct := by
    rw [hTakes.labels_eq]
    exact hProper.distinct

theorem Adds.labels_eq
    {op : Op}
    (hAdds : f.Adds l op g) :
    g.labels = f.labels := by
  cases hAdds with
  | intro hTakes => rw [labels_append, hTakes.labels_eq]

theorem Adds.used
    {op : Op}
    (hAdds : f.Adds l op g) :
    f.scope.used ⊆ g.scope.used := by
  cases hAdds with
  | intro hTakes => exact hTakes.used

theorem Opens.free
    (hOpens : f.Opens l g) :
    l ∉ f.scope.used := by
  cases hOpens with
  | intro hTakes => exact hTakes.free

theorem Opens.same
    (hOpens : f.Opens l g) :
    g.name = f.name := by
  cases hOpens with
  | intro hTakes => exact hTakes.same

theorem Opens.mem_blocks
    (hOpens : f.Opens l g)
    {b : Block}
    (hMem : b ∈ f.blocks) :
    b ∈ g.blocks := by
  cases hOpens with
  | intro hTakes => exact mem_attach.mpr (.inl (hTakes.blocks ▸ hMem))

theorem Opens.empty_mem
    (hOpens : f.Opens l g) :
    ⟨l, []⟩ ∈ g.blocks := by
  cases hOpens with
  | intro hTakes => exact mem_attach.mpr (.inr rfl)

theorem Opens.mem_labels
    (hOpens : f.Opens l g) :
    l ∈ g.labels := by
  cases hOpens with
  | intro hTakes =>
      rw [labels_attach]
      exact List.mem_append_right _ List.mem_cons_self

theorem Adds.same
    {op : Op}
    (hAdds : f.Adds l op g) :
    g.name = f.name := by
  cases hAdds with
  | intro hTakes => exact hTakes.same

/- Another block stays as it was. -/
theorem Adds.mem_blocks
    {op : Op}
    (hAdds : f.Adds l op g)
    {b : Block}
    (hMem : b ∈ f.blocks)
    (hOther : b.label ≠ l) :
    b ∈ g.blocks := by
  cases hAdds with
  | intro hTakes =>
      exact mem_append.mpr
        ⟨b, hTakes.blocks ▸ hMem, by rw [if_neg hOther]⟩

end Offside.IR.Function

------------------------------------------------------------
-- What Laying Keeps
------------------------------------------------------------

namespace Offside.IR.Function

/-
  What stays as it was.  No block is added under one of the names
  that are `kept`, no control goes to one of them, and the code
  of a block of one of these names stays: memory may be reserved
  before the first block, and code may follow in the block `l`.
-/
structure Keeps
    (kept : List String)
    (l : String)
    (f g : Function) :
    Prop where
  same : g.name = f.name
  used : f.scope.used ⊆ g.scope.used
  labels : f.labels <+: g.labels
  detached : ∀ x ∈ kept, x ∈ g.labels → x ∈ f.labels
  blocks :
    ∀ b ∈ f.blocks, ∃ before after,
      { b with body := before ++ b.body ++ after } ∈ g.blocks ∧
      (∀ i ∈ before, i.op.isReservation = true) ∧
      (before ≠ [] → f.labels.head? = some b.label) ∧
      (b.label ∈ kept →
        ∀ i ∈ after, b.label = l ∧ i.op.isPhi = false)
  predecessors :
    ∀ x ∈ kept, g.predecessors x = f.predecessors x

namespace Keeps

variable {f g h : Function}
variable {kept kept' : List String}
variable {l l' : String}

/- Everything is kept where the blocks are the same. -/
theorem of_blocks
    (hSame : g.name = f.name)
    (hUsed : f.scope.used ⊆ g.scope.used)
    (hBlocks : g.blocks = f.blocks) :
    Keeps kept l f g where
  same := hSame
  used := hUsed
  labels := by
    rw [Function.labels, Function.labels, hBlocks]
  detached := by
    intro x _ hMem
    rw [Function.labels, hBlocks] at hMem
    exact hMem
  blocks := by
    intro b hMem
    refine ⟨[], [], ?_, by simp, by simp, by simp⟩
    rw [hBlocks]
    simpa using hMem
  predecessors := by
    intro x _
    rw [Function.predecessors, hBlocks]
    rfl

theorem refl
    (kept : List String)
    (l : String)
    (f : Function) :
    Keeps kept l f f :=
  of_blocks rfl (List.Subset.refl _) rfl

theorem of_takes
    {name : String}
    (hTakes : f.Takes name g) :
    Keeps kept l f g :=
  of_blocks hTakes.same hTakes.used hTakes.blocks

/- The first label of a function with a block is kept. -/
theorem head?_eq
    (hKeeps : Keeps kept l f g)
    {b : Block}
    (hMem : b ∈ f.blocks) :
    g.labels.head? = f.labels.head? := by
  rcases hKeeps.labels with ⟨new, hLabels⟩
  rw [← hLabels, List.head?_append_of_ne_nil]
  exact List.ne_nil_of_mem (label_mem hMem)

theorem trans
    (hFirst : Keeps kept l f g)
    (hSecond : Keeps kept l g h) :
    Keeps kept l f h where
  same := hSecond.same.trans hFirst.same
  used := List.Subset.trans hFirst.used hSecond.used
  labels := hFirst.labels.trans hSecond.labels
  detached := fun x hKept hMem =>
    hFirst.detached x hKept (hSecond.detached x hKept hMem)
  blocks := by
    intro b hMem
    rcases hFirst.blocks b hMem with
      ⟨before, after, hMem', hReserved, hEntry, hAfter⟩
    rcases hSecond.blocks _ hMem' with
      ⟨before', after', hMem'', hReserved', hEntry', hAfter'⟩
    refine ⟨before' ++ before, after ++ after', ?_, ?_, ?_, ?_⟩
    · simpa [List.append_assoc] using hMem''
    · intro i hMem
      rcases List.mem_append.mp hMem with hNew | hOld
      · exact hReserved' i hNew
      · exact hReserved i hOld
    · intro hSome
      by_cases hNone : before = []
      · rw [hNone, List.append_nil] at hSome
        rw [← hFirst.head?_eq hMem]
        exact hEntry' hSome
      · exact hEntry hNone
    · intro hKept i hMem
      rcases List.mem_append.mp hMem with hOld | hNew
      · exact hAfter hKept i hOld
      · exact hAfter' hKept i hNew
  predecessors := fun x hKept =>
    (hSecond.predecessors x hKept).trans (hFirst.predecessors x hKept)

/- Fewer names are kept, and code may follow elsewhere. -/
theorem mono
    (hKeeps : Keeps kept' l' f g)
    (hSubset : kept ⊆ kept')
    (hHere : l' = l ∨ l' ∉ kept) :
    Keeps kept l f g :=
  { hKeeps with
    detached := fun x hKept => hKeeps.detached x (hSubset hKept)
    blocks := by
      intro b hMem
      rcases hKeeps.blocks b hMem with
        ⟨before, after, hMem', hReserved, hEntry, hAfter⟩
      refine ⟨before, after, hMem', hReserved, hEntry, ?_⟩
      intro hKept i hCode
      rcases hAfter (hSubset hKept) i hCode with ⟨hLabel, hPlain⟩
      rcases hHere with rfl | hNew
      · exact ⟨hLabel, hPlain⟩
      · exact absurd (hLabel ▸ hKept) hNew
    predecessors := fun x hKept =>
      hKeeps.predecessors x (hSubset hKept) }

theorem attach
    (f : Function)
    {label : String}
    (hNew : label ∉ kept) :
    Keeps kept l f (f.attach label) where
  same := rfl
  used := List.Subset.refl _
  labels := by
    rw [labels_attach]
    exact List.prefix_append _ _
  detached := by
    intro x hKept hMem
    rw [labels_attach, List.mem_append, List.mem_singleton] at hMem
    rcases hMem with hOld | rfl
    · exact hOld
    · exact absurd hKept hNew
  blocks := by
    intro b hMem
    refine ⟨[], [], ?_, by simp, by simp, by simp⟩
    rw [mem_attach]
    exact .inl (by simpa using hMem)
  predecessors := fun x _ => predecessors_attach f label x

/- Code is put at the end of a block where it may follow. -/
theorem append
    (f : Function)
    {here : String}
    {i : Instruction}
    (hTargets : ∀ x ∈ i.op.targets, x ∉ kept)
    (hHere : here = l ∧ i.op.isPhi = false ∨ here ∉ kept) :
    Keeps kept l f (f.append here i) where
  same := rfl
  used := List.Subset.refl _
  labels := by
    rw [labels_append]
  detached := by
    intro x _ hMem
    rw [labels_append] at hMem
    exact hMem
  blocks := by
    intro b hMem
    by_cases hSame : b.label = here
    · refine ⟨[], [i], ?_, by simp, by simp, ?_⟩
      · rw [mem_append]
        exact ⟨b, hMem, by simp [hSame]⟩
      · intro hKept j hCode
        rw [List.mem_singleton.mp hCode, hSame]
        rw [hSame] at hKept
        exact hHere.resolve_right fun hNew => hNew hKept
    · refine ⟨[], [], ?_, by simp, by simp, by simp⟩
      rw [mem_append]
      exact ⟨b, hMem, by simp [hSame]⟩
  predecessors := fun x hKept =>
    predecessors_append f here fun hMem => hTargets x hMem hKept

theorem reserve
    (f : Function)
    {i : Instruction}
    (hReserve : i.op.isReservation = true) :
    Keeps kept l f (f.reserve i) where
  same := rfl
  used := List.Subset.refl _
  labels := by
    rw [labels_reserve]
  detached := by
    intro x _ hMem
    rw [labels_reserve] at hMem
    exact hMem
  blocks := by
    intro b hMem
    unfold Function.reserve modifyEntry Function.labels
    cases hBlocks : f.blocks with
    | nil =>
        rw [hBlocks] at hMem
        cases hMem
    | cons c cs =>
        rw [hBlocks] at hMem
        rcases List.mem_cons.mp hMem with rfl | hOther
        · refine ⟨[i], [], ?_, by simpa using hReserve, by simp, by simp⟩
          simp [Block.insert]
        · refine ⟨[], [], ?_, by simp, by simp, by simp⟩
          exact List.mem_cons_of_mem _ (by simpa using hOther)
  predecessors := fun x _ => predecessors_reserve f hReserve x

theorem of_adds
    {here : String}
    {op : Op}
    (hAdds : f.Adds here op g)
    (hTargets : ∀ x ∈ op.targets, x ∉ kept)
    (hHere : here = l ∧ op.isPhi = false ∨ here ∉ kept) :
    Keeps kept l f g := by
  cases hAdds with
  | intro hTakes =>
      exact (of_takes hTakes).trans (append _ hTargets hHere)

theorem of_opens
    {label : String}
    (hOpens : f.Opens label g)
    (hNew : label ∉ kept) :
    Keeps kept l f g := by
  cases hOpens with
  | intro hTakes =>
      exact (of_takes hTakes).trans (attach _ hNew)

end Keeps

variable {f g : Function}
variable {l m : String}

/-
  Code is laid behind the block it starts from and in new blocks,
  and it ends in that block or in a new one.
-/
theorem Lays.keeps
    (hLays : Lays f l g m) :
    Keeps f.scope.used l f g ∧ (m = l ∨ m ∉ f.scope.used) := by
  induction hLays with
  | refl f l => exact ⟨.refl _ l f, .inl rfl⟩
  | trans _ _ ihFirst ihSecond =>
      rcases ihFirst with ⟨hFirst, hMiddle⟩
      rcases ihSecond with ⟨hSecond, hEnd⟩
      refine ⟨hFirst.trans (hSecond.mono hFirst.used hMiddle), ?_⟩
      rcases hEnd with rfl | hNew
      · exact hMiddle
      · exact .inr fun hUsed => hNew (hFirst.used hUsed)
  | place hOpen hPlain hAdds =>
      refine ⟨.of_adds hAdds ?_ (.inl ⟨rfl, hPlain⟩), .inl rfl⟩
      rw [Op.targets_eq_nil hOpen]
      exact List.forall_mem_nil _
  | reserve l hReserve hTakes =>
      exact ⟨(Keeps.of_takes hTakes).trans (.reserve _ hReserve),
        .inl rfl⟩
  | turn hOpens hJump =>
      refine ⟨(Keeps.of_opens hOpens hOpens.free).trans
        (.of_adds hJump ?_ (.inl ⟨rfl, rfl⟩)), .inr hOpens.free⟩
      rintro x (_ | ⟨_, ⟨⟩⟩)
      exact hOpens.free
  | @fork f f₁ f₂ f₃ f₄ f₅ f₆ f₇ f₈ g l yes no meet m k test v w type
      hYes hNo hMeet hBranch _ hJump _ _ hJump' _ hPick ihFirst
      ihSecond =>
      -- The names of the three blocks are new, one after another.
      have hKeeps₁ : Keeps f.scope.used l f f₁ := .of_opens hYes hYes.free
      have hNewNo : no ∉ f.scope.used :=
        fun hUsed => hNo.free (hKeeps₁.used hUsed)
      have hKeeps₂ : Keeps f.scope.used l f f₂ :=
        hKeeps₁.trans (.of_takes hNo)
      have hNewMeet : meet ∉ f.scope.used :=
        fun hUsed => hMeet.free (hKeeps₂.used hUsed)
      have hKeeps₄ : Keeps f.scope.used l f f₄ := by
        refine (hKeeps₂.trans (.of_takes hMeet)).trans
          (.of_adds hBranch ?_ (.inl ⟨rfl, rfl⟩))
        rintro x (_ | ⟨_, (_ | ⟨_, ⟨⟩⟩)⟩)
        · exact hYes.free
        · exact hNewNo
      have hToMeet : ∀ x ∈ (Op.jump meet).targets, x ∉ f.scope.used := by
        rintro x (_ | ⟨_, ⟨⟩⟩)
        exact hNewMeet
      have hNewEnd : m ∉ f.scope.used := by
        rcases ihFirst.2 with rfl | hNew
        · exact hYes.free
        · exact fun hUsed => hNew (hKeeps₄.used hUsed)
      have hKeeps₆ : Keeps f.scope.used l f (f₆.attach no) :=
        ((hKeeps₄.trans (ihFirst.1.mono hKeeps₄.used (.inr hYes.free))).trans
          (.of_adds hJump hToMeet (.inr hNewEnd))).trans
            (.attach f₆ hNewNo)
      have hNewEnd' : k ∉ f.scope.used := by
        rcases ihSecond.2 with rfl | hNew
        · exact hNewNo
        · exact fun hUsed => hNew (hKeeps₆.used hUsed)
      have hKeeps₈ : Keeps f.scope.used l f (f₈.attach meet) :=
        ((hKeeps₆.trans (ihSecond.1.mono hKeeps₆.used (.inr hNewNo))).trans
          (.of_adds hJump' hToMeet (.inr hNewEnd'))).trans
            (.attach f₈ hNewMeet)
      exact ⟨hKeeps₈.trans
        (.of_adds hPick (List.forall_mem_nil _) (.inr hNewMeet)),
        .inr hNewMeet⟩
  | @loop f f₁ f₂ f₃ f₄ g l head next m test hHead hJump _ hNext hBranch
      ih =>
      have hKeeps₂ : Keeps f.scope.used l f f₂ := by
        refine (Keeps.of_opens hHead hHead.free).trans
          (.of_adds hJump ?_ (.inl ⟨rfl, rfl⟩))
        rintro x (_ | ⟨_, ⟨⟩⟩)
        exact hHead.free
      have hKeeps₃ : Keeps f.scope.used l f f₃ :=
        hKeeps₂.trans (ih.1.mono hKeeps₂.used (.inr hHead.free))
      have hNewEnd : m ∉ f.scope.used := by
        rcases ih.2 with rfl | hNew
        · exact hHead.free
        · exact fun hUsed => hNew (hKeeps₂.used hUsed)
      have hNewNext : next ∉ f.scope.used :=
        fun hUsed => hNext.free (hKeeps₃.used hUsed)
      refine ⟨(hKeeps₃.trans (.of_opens hNext hNewNext)).trans
        (.of_adds hBranch ?_ (.inr hNewEnd)), .inr hNewNext⟩
      rintro x (_ | ⟨_, (_ | ⟨_, ⟨⟩⟩)⟩)
      · exact hHead.free
      · exact hNewNext

end Offside.IR.Function
