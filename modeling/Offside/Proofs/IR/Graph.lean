import Mathlib
import Offside.Proofs.IR.Laying

/-
  The graph of a function: its blocks, where they lead, and the
  values that are picked by where control came from.

  Key definitions include:
    * `Offside.IR.Block.IsClosed`
    * `Offside.IR.Block.Joins`
    * `Offside.IR.Function.Good`
    * `Offside.IR.Function.Shape`

  While code is laid some blocks have not ended yet, and some
  labels are led to before there is a block of that label.
  `Shape` names both.

  Main statements:
    * `Offside.IR.Function.Lays.shape`: laying code changes
      neither the labels that have no block yet nor what is known
      of the other blocks.
    * `Offside.IR.Function.Lays.good`: a good graph stays good.
-/

------------------------------------------------------------
-- Graphs
------------------------------------------------------------

namespace Offside.IR

/- The last instruction ends the block, and no other one does. -/
def Block.IsClosed
    (b : Block) :
    Prop :=
  ∃ code last,
    b.body = code ++ [last] ∧
    last.op.isTerminator = true ∧
    ∀ i ∈ code, i.op.isTerminator = false

/- No value is picked by where control came from. -/
def Block.IsPlain
    (b : Block) :
    Prop :=
  ∀ i ∈ b.body, i.op.isPhi = false

/- Values are picked for each of the labels, which control comes from. -/
def Block.Joins
    (b : Block)
    (labels : List String) :
    Prop :=
  ∀ i ∈ b.body, ∀ type incoming,
    i.op = .phi type incoming →
      (incoming.map Prod.snd).Perm labels

namespace Function

/-
  A graph that code can be added to at the current block.  This
  is the only block that has not ended; all targets are blocks,
  and values are picked for each predecessor of a block once.
-/
structure Good
    (f : Function)
    (current : String) :
    Prop extends Proper f where
  here : current ∈ f.labels
  unfinished :
    ∀ b ∈ f.blocks, b.label = current → b.isTerminated = false
  closed : ∀ b ∈ f.blocks, b.label ≠ current → b.IsClosed
  targets : ∀ b ∈ f.blocks, ∀ x ∈ b.targets, x ∈ f.labels
  joins : ∀ b ∈ f.blocks, b.Joins (f.predecessors b.label)

/-
  A graph in the making.  The blocks of the labels `opened` have
  not ended, and there is no block yet for the targets that are
  `pending`.
-/
structure Shape
    (f : Function)
    (opened pending : List String) :
    Prop extends Proper f where
  unfinished :
    ∀ b ∈ f.blocks, b.label ∈ opened → b.isTerminated = false
  closed : ∀ b ∈ f.blocks, b.label ∉ opened → b.IsClosed
  targets :
    ∀ b ∈ f.blocks, ∀ x ∈ b.targets, x ∈ f.labels ∨ x ∈ pending
  pending_used : pending ⊆ f.scope.used
  joins : ∀ b ∈ f.blocks, b.Joins (f.predecessors b.label)

/- A good graph has one open block and no target without a block. -/
theorem good_iff
    (f : Function)
    (current : String) :
    f.Good current ↔ current ∈ f.labels ∧ f.Shape [current] [] := by
  constructor
  · intro hGood
    exact ⟨hGood.here, hGood.toProper,
      fun b hMem hOpen =>
        hGood.unfinished b hMem (List.mem_singleton.mp hOpen),
      fun b hMem hOther =>
        hGood.closed b hMem fun hSame =>
          hOther (List.mem_singleton.mpr hSame),
      fun b hMem x hTarget => .inl (hGood.targets b hMem x hTarget),
      List.nil_subset _, hGood.joins⟩
  · rintro ⟨hHere, hShape⟩
    exact ⟨hShape.toProper, hHere,
      fun b hMem hSame =>
        hShape.unfinished b hMem (List.mem_singleton.mpr hSame),
      fun b hMem hOther =>
        hShape.closed b hMem fun hOpen =>
          hOther (List.mem_singleton.mp hOpen),
      fun b hMem x hTarget =>
        (hShape.targets b hMem x hTarget).resolve_right
          List.not_mem_nil,
      hShape.joins⟩

end Function

end Offside.IR

------------------------------------------------------------
-- Steps of Laying
------------------------------------------------------------

namespace Offside.IR

namespace Block

variable {b : Block}
variable {i : Instruction}

theorem isTerminated_eq_false
    (b : Block) :
    b.isTerminated = false ↔
      ∀ i ∈ b.body, i.op.isTerminator = false := by
  simp [isTerminated]

/- What a block leads to with one more instruction. -/
theorem mem_targets_append
    {label x : String} :
    x ∈ Block.targets ⟨label, b.body ++ [i]⟩ ↔
      x ∈ b.targets ∨ x ∈ i.op.targets := by
  simp [targets]

/- Where no value is picked, control may come from anywhere. -/
theorem IsPlain.joins
    (hPlain : b.IsPlain)
    (labels : List String) :
    b.Joins labels := by
  intro i hMem type incoming hOp
  have hPhi := hPlain i hMem
  rw [hOp] at hPhi
  cases hPhi

theorem isPlain_nil
    (label : String) :
    IsPlain ⟨label, []⟩ :=
  List.forall_mem_nil _

/- A picked value may be put at the end of a block that joins. -/
theorem Joins.append
    {labels : List String}
    (hJoins : b.Joins labels)
    (hPick : ∀ type incoming,
      i.op = .phi type incoming →
        (incoming.map Prod.snd).Perm labels)
    (label : String) :
    Joins ⟨label, b.body ++ [i]⟩ labels := by
  intro j hMem
  rcases List.mem_append.mp hMem with hOld | hNew
  · exact hJoins j hOld
  · rw [List.mem_singleton.mp hNew]
    exact hPick

end Block

namespace Function.Shape

variable {f g : Function}
variable {opened opened' pending pending' : List String}
variable {l label : String}

/- A target that is not in use yet has no predecessor. -/
theorem predecessors_eq_nil
    (hShape : f.Shape opened pending)
    (hFree : label ∉ f.scope.used) :
    f.predecessors label = [] := by
  rw [predecessors, List.map_eq_nil_iff, List.filter_eq_nil_iff]
  intro b hMem hTarget
  rcases hShape.targets b hMem label (of_decide_eq_true hTarget) with
    hBlock | hPending
  · exact hFree (hShape.used_of_mem hBlock)
  · exact hFree (hShape.pending_used hPending)

/- A name is taken into use. -/
theorem takes
    (hShape : f.Shape opened pending)
    {name : String}
    (hTakes : f.Takes name g) :
    g.Shape opened pending := by
  refine ⟨hShape.toProper.takes hTakes, ?_, ?_, ?_,
    List.Subset.trans hShape.pending_used hTakes.used, ?_⟩
  · rw [hTakes.blocks]
    exact hShape.unfinished
  · rw [hTakes.blocks]
    exact hShape.closed
  · rw [hTakes.blocks, hTakes.labels_eq]
    exact hShape.targets
  · intro b hMem
    rw [hTakes.blocks] at hMem
    rw [hTakes.predecessors_eq]
    exact hShape.joins b hMem

/- An empty block is added; the label waits no longer. -/
theorem attach
    (hShape : f.Shape opened pending)
    (hUsed : label ∈ f.scope.used)
    (hNew : label ∉ f.labels)
    (hPending : pending ⊆ label :: pending')
    (hStill : pending' ⊆ pending) :
    (f.attach label).Shape (label :: opened) pending' where
  toProper := hShape.toProper.attach hUsed hNew
  unfinished := by
    intro b hMem hOpen
    rcases mem_attach.mp hMem with hOld | rfl
    · have hOther : b.label ≠ label := by
        rintro rfl
        exact hNew (label_mem hOld)
      exact hShape.unfinished b hOld
        ((List.mem_cons.mp hOpen).resolve_left hOther)
    · rfl
  closed := by
    intro b hMem hEnded
    rw [List.mem_cons, not_or] at hEnded
    rcases mem_attach.mp hMem with hOld | rfl
    · exact hShape.closed b hOld hEnded.2
    · exact absurd rfl hEnded.1
  targets := by
    intro b hMem x hTarget
    rw [labels_attach, List.mem_append, List.mem_singleton]
    rcases mem_attach.mp hMem with hOld | rfl
    · rcases hShape.targets b hOld x hTarget with hBlock | hWaits
      · exact .inl (.inl hBlock)
      · rcases List.mem_cons.mp (hPending hWaits) with rfl | hWaits
        · exact .inl (.inr rfl)
        · exact .inr hWaits
    · cases hTarget
  pending_used := List.Subset.trans hStill hShape.pending_used
  joins := by
    intro b hMem
    rw [predecessors_attach]
    rcases mem_attach.mp hMem with hOld | rfl
    · exact hShape.joins b hOld
    · exact (Block.isPlain_nil label).joins _

theorem opens
    (hShape : f.Shape opened pending)
    (hOpens : f.Opens label g) :
    g.Shape (label :: opened) pending := by
  cases hOpens with
  | @intro f' hTakes =>
      refine (hShape.takes hTakes).attach hTakes.taken ?_
        (List.subset_cons_self _ _) (List.Subset.refl _)
      rw [hTakes.labels_eq]
      exact fun hMem => hTakes.free (hShape.used_of_mem hMem)

/- An instruction that does not end its block. -/
theorem place
    (hShape : f.Shape opened pending)
    (hHere : l ∈ opened)
    {op : Op}
    (hOpen : op.isTerminator = false)
    (hAdds : f.Adds l op g)
    (hPick : ∀ type incoming,
      op = .phi type incoming →
        (incoming.map Prod.snd).Perm (f.predecessors l)) :
    g.Shape opened pending := by
  cases hAdds with
  | @intro name f' hTakes =>
      have hTaken := hShape.takes hTakes
      have hTargets : ∀ x, x ∉ op.targets := by
        rw [Op.targets_eq_nil hOpen]
        exact fun x => List.not_mem_nil
      refine ⟨hTaken.toProper.append l hTakes.taken, ?_, ?_, ?_,
        hTaken.pending_used, ?_⟩
      · intro b hMem hOpened
        rcases mem_append.mp hMem with ⟨b', hOld, rfl⟩
        split_ifs at hOpened ⊢
        · have hUnfinished := hTaken.unfinished b' hOld hOpened
          simp only [Block.isTerminated, List.any_append] at hUnfinished ⊢
          simp [hUnfinished, hOpen]
        · exact hTaken.unfinished b' hOld hOpened
      · intro b hMem hEnded
        rcases mem_append.mp hMem with ⟨b', hOld, rfl⟩
        split_ifs at hEnded ⊢ with hSame
        · exact absurd (hSame ▸ hHere) hEnded
        · exact hTaken.closed b' hOld hEnded
      · intro b hMem x hTarget
        rw [labels_append]
        rcases mem_append.mp hMem with ⟨b', hOld, rfl⟩
        split_ifs at hTarget
        · exact hTaken.targets b' hOld x
            ((Block.mem_targets_append.mp hTarget).resolve_right
              (hTargets x))
        · exact hTaken.targets b' hOld x hTarget
      · intro b hMem
        rw [predecessors_append f' l (hTargets _)]
        rcases mem_append.mp hMem with ⟨b', hOld, rfl⟩
        split_ifs with hSame
        · refine (hTaken.joins b' hOld).append ?_ _
          rw [hSame, hTakes.predecessors_eq]
          exact hPick
        · exact hTaken.joins b' hOld

/-
  An instruction that ends its block.  What it leads to may be a
  label without a block, but no block that picks values.
-/
theorem finish
    (hShape : f.Shape opened pending)
    (hOpened : ∀ x, x ∈ opened ↔ x = l ∨ x ∈ opened')
    (hLast : l ∉ opened')
    {op : Op}
    (hEnd : op.isTerminator = true)
    (hAdds : f.Adds l op g)
    (hTargets : ∀ x ∈ op.targets, x ∈ f.labels ∨ x ∈ pending')
    (hPending : pending ⊆ pending')
    (hUsed : pending' ⊆ f.scope.used)
    (hPlain : ∀ b ∈ f.blocks, b.label ∈ op.targets → b.IsPlain) :
    g.Shape opened' pending' := by
  cases hAdds with
  | @intro name f' hTakes =>
      have hTaken := hShape.takes hTakes
      refine ⟨hTaken.toProper.append l hTakes.taken, ?_, ?_, ?_,
        List.Subset.trans hUsed hTakes.used, ?_⟩
      · intro b hMem hStill
        rcases mem_append.mp hMem with ⟨b', hOld, rfl⟩
        split_ifs at hStill ⊢ with hSame
        · exact absurd (hSame ▸ hStill) hLast
        · exact hTaken.unfinished b' hOld ((hOpened _).mpr (.inr hStill))
      · intro b hMem hEnded
        rcases mem_append.mp hMem with ⟨b', hOld, rfl⟩
        split_ifs at hEnded ⊢ with hSame
        · refine ⟨b'.body, _, rfl, hEnd, ?_⟩
          exact (Block.isTerminated_eq_false b').mp
            (hTaken.unfinished b' hOld ((hOpened _).mpr (.inl hSame)))
        · refine hTaken.closed b' hOld fun hOpen => ?_
          exact ((hOpened _).mp hOpen).elim hSame hEnded
      · intro b hMem x hTarget
        rw [labels_append]
        have hOldTargets : ∀ b' ∈ f'.blocks, x ∈ b'.targets →
            x ∈ f'.labels ∨ x ∈ pending' := by
          intro b' hOld hMem
          exact (hTaken.targets b' hOld x hMem).imp_right
            fun hWaits => hPending hWaits
        rcases mem_append.mp hMem with ⟨b', hOld, rfl⟩
        split_ifs at hTarget
        · rcases Block.mem_targets_append.mp hTarget with hTarget | hNew
          · exact hOldTargets b' hOld hTarget
          · rw [hTakes.labels_eq]
            exact hTargets x hNew
        · exact hOldTargets b' hOld hTarget
      · intro b hMem
        rcases mem_append.mp hMem with ⟨b', hOld, rfl⟩
        have hNoPhi : ∀ type incoming, op ≠ .phi type incoming := by
          rintro type incoming rfl
          cases hEnd
        have hSame :
            (if b'.label = l then
              { b' with body := b'.body ++ [⟨name, op⟩] }
              else b').label = b'.label := by
          split_ifs <;> rfl
        rw [hSame]
        -- Only the predecessors of its targets are others now.
        have hJoins :
            b'.Joins ((f'.append l ⟨name, op⟩).predecessors b'.label) := by
          by_cases hTarget : b'.label ∈ op.targets
          · exact (hPlain b' (hTakes.blocks ▸ hOld) hTarget).joins _
          · rw [predecessors_append f' l hTarget]
            exact hTaken.joins b' hOld
        split_ifs
        · exact hJoins.append
            (fun type incoming hOp => absurd hOp (hNoPhi type incoming)) _
        · exact hJoins

/- Memory is reserved at the start of the function. -/
theorem reserve
    (hShape : f.Shape opened pending)
    {i : Instruction}
    (hReserve : i.op.isReservation = true)
    (hName : i.name ∈ f.scope.used) :
    (f.reserve i).Shape opened pending := by
  have hOpen : i.op.isTerminator = false := by
    cases hOp : i.op <;> rw [hOp] at hReserve <;>
      first | rfl | cases hReserve
  have hTargets : ∀ b : Block, (b.insert 0 i).targets = b.targets := by
    intro b
    simp [Block.targets, Block.insert, Op.targets_eq_nil hOpen]
  refine ⟨hShape.toProper.reserve hName, ?_, ?_, ?_,
    hShape.pending_used, ?_⟩
  · intro b hMem hOpened
    rcases mem_modifyEntry hMem with ⟨b', hOld, rfl | rfl⟩
    · exact hShape.unfinished _ hOld hOpened
    · have hUnfinished := hShape.unfinished b' hOld hOpened
      simp [Block.isTerminated, Block.insert, hOpen] at hUnfinished ⊢
      exact hUnfinished
  · intro b hMem hEnded
    rcases mem_modifyEntry hMem with ⟨b', hOld, rfl | rfl⟩
    · exact hShape.closed _ hOld hEnded
    · rcases hShape.closed b' hOld hEnded with
        ⟨code, last, hBody, hLast, hCode⟩
      refine ⟨i :: code, last, by simp [Block.insert, hBody], hLast, ?_⟩
      exact List.forall_mem_cons.mpr ⟨hOpen, hCode⟩
  · intro b hMem x hTarget
    rw [labels_reserve]
    rcases mem_modifyEntry hMem with ⟨b', hOld, rfl | rfl⟩
    · exact hShape.targets _ hOld x hTarget
    · rw [hTargets] at hTarget
      exact hShape.targets b' hOld x hTarget
  · intro b hMem
    rw [predecessors_reserve f hReserve]
    rcases mem_modifyEntry hMem with ⟨b', hOld, rfl | rfl⟩
    · exact hShape.joins _ hOld
    · intro j hCode
      rcases Block.mem_insert hCode with rfl | hOldCode
      · intro type incoming hOp
        rw [hOp] at hReserve
        cases hReserve
      · exact hShape.joins b' hOld j hOldCode

end Function.Shape

end Offside.IR

------------------------------------------------------------
-- Predecessors
------------------------------------------------------------

namespace Offside.IR.Function

variable {f g : Function}
variable {l x : String}

theorem Adds.predecessors_eq
    {op : Op}
    (hAdds : f.Adds l op g)
    (hOther : x ∉ op.targets) :
    g.predecessors x = f.predecessors x := by
  cases hAdds with
  | @intro name f' hTakes =>
      rw [predecessors_append f' l hOther, hTakes.predecessors_eq]

/- An open block that is ended is one more predecessor. -/
theorem Adds.predecessors_perm
    {opened pending : List String}
    (hShape : f.Shape opened pending)
    (hHere : l ∈ f.labels)
    (hOpen : l ∈ opened)
    {op : Op}
    (hAdds : f.Adds l op g)
    (hTarget : x ∈ op.targets) :
    (g.predecessors x).Perm (l :: f.predecessors x) := by
  cases hAdds with
  | @intro name f' hTakes =>
      have hTaken := hShape.takes hTakes
      rw [← hTakes.predecessors_eq]
      rw [← hTakes.labels_eq] at hHere
      rcases List.mem_map.mp hHere with ⟨b, hMem, rfl⟩
      rcases List.append_of_mem hMem with ⟨before, after, hBlocks⟩
      -- The other blocks have other labels.
      have hOthers : ∀ c ∈ before ++ after, c.label ≠ b.label := by
        have hDistinct := hTaken.distinct
        rw [labels, hBlocks, List.map_append, List.map_cons,
          List.nodup_middle, List.nodup_cons, ← List.map_append]
          at hDistinct
        intro c hOther hSame
        exact hDistinct.1 (hSame ▸ List.mem_map_of_mem hOther)
      have hMap : ∀ bs : List Block, (∀ c ∈ bs, c.label ≠ b.label) →
          bs.map (fun c =>
            if c.label = b.label then
              { c with body := c.body ++ [⟨name, op⟩] }
            else c) = bs := by
        intro bs hAll
        conv_rhs => rw [← List.map_id bs]
        apply List.map_congr_left
        intro c hOther
        rw [if_neg (hAll c hOther)]
        rfl
      have hNone : x ∉ b.targets := by
        have hUnfinished := (Block.isTerminated_eq_false b).mp
          (hTaken.unfinished b hMem hOpen)
        intro hMem'
        rcases List.mem_flatMap.mp hMem' with ⟨i, hCode, hLeads⟩
        rw [Op.targets_eq_nil (hUnfinished i hCode)] at hLeads
        cases hLeads
      have hLeads :
          x ∈ Block.targets ⟨b.label, b.body ++ [⟨name, op⟩]⟩ :=
        Block.mem_targets_append.mpr (.inr hTarget)
      simp only [predecessors, append, modifyBlock, hBlocks,
        List.map_append, List.map_cons, List.filter_append,
        List.filter_cons, hNone, decide_false, Bool.false_eq_true,
        if_false, hLeads, decide_true, if_true,
        hMap before fun c hOther =>
          hOthers c (List.mem_append_left _ hOther),
        hMap after fun c hOther =>
          hOthers c (List.mem_append_right _ hOther)]
      exact List.perm_middle

/- A new block is empty. -/
theorem Opens.isPlain
    (hRegistered : f.Registered)
    (hOpens : f.Opens l g)
    {b : Block}
    (hMem : b ∈ g.blocks)
    (hLabel : b.label = l) :
    b.IsPlain := by
  cases hOpens with
  | @intro f' hTakes =>
      rcases mem_attach.mp hMem with hOld | rfl
      · rw [hTakes.blocks] at hOld
        exact absurd (hLabel ▸ hRegistered.labels b hOld) hTakes.free
      · exact Block.isPlain_nil l

/- A block picks no value where none was added to it. -/
theorem Adds.isPlain
    {op : Op}
    (hAdds : f.Adds l op g)
    (hOp : op.isPhi = false)
    (hPlain : ∀ b ∈ f.blocks, b.label = x → b.IsPlain)
    {b : Block}
    (hMem : b ∈ g.blocks)
    (hLabel : b.label = x) :
    b.IsPlain := by
  cases hAdds with
  | intro hTakes =>
      rcases mem_append.mp hMem with ⟨b', hOld, rfl⟩
      rw [hTakes.blocks] at hOld
      split_ifs at hLabel ⊢
      · intro i hCode
        rcases List.mem_append.mp hCode with hCode | hCode
        · exact hPlain b' hOld hLabel i hCode
        · rw [List.mem_singleton.mp hCode]
          exact hOp
      · exact hPlain b' hOld hLabel

/- So it does after code was laid. -/
theorem Keeps.isPlain
    {kept : List String}
    (hKeeps : Keeps kept l f g)
    (hProper : g.Proper)
    (hKept : x ∈ kept)
    (hHere : x ∈ f.labels)
    (hPlain : ∀ b ∈ f.blocks, b.label = x → b.IsPlain)
    {b : Block}
    (hMem : b ∈ g.blocks)
    (hLabel : b.label = x) :
    b.IsPlain := by
  rcases List.mem_map.mp hHere with ⟨c, hOld, hSame⟩
  rcases hKeeps.blocks c hOld with
    ⟨before, after, hNow, hReserved, _, hAfter⟩
  rw [hProper.block_unique hMem hNow (hLabel.trans hSame.symm)]
  intro i hCode
  rcases List.mem_append.mp hCode with hCode | hCode
  · rcases List.mem_append.mp hCode with hCode | hCode
    · have hReserve := hReserved i hCode
      cases hOp : i.op <;> rw [hOp] at hReserve <;>
        first | rfl | cases hReserve
    · exact hPlain c hOld hSame i hCode
  · exact (hAfter (hSame ▸ hKept) i hCode).2

end Offside.IR.Function

------------------------------------------------------------
-- Laying Code
------------------------------------------------------------

namespace Offside.IR.Function

variable {f g : Function}
variable {l m : String}

/-
  A block is ended, and code goes on in a new one.  Control goes
  there, or to a block that picks no value.
-/
theorem Shape.turn
    {h : Function}
    {next : String}
    {op : Op}
    {pending : List String}
    (hShape : f.Shape [l] pending)
    (hHere : l ∈ f.labels)
    (hOpens : f.Opens next g)
    (hEnd : op.isTerminator = true)
    (hAdds : g.Adds l op h)
    (hTargets : ∀ x ∈ op.targets, x = next ∨
      x ∈ g.labels ∧ ∀ b ∈ g.blocks, b.label = x → b.IsPlain) :
    h.Shape [next] pending := by
  have hShape₁ := hShape.opens hOpens
  refine hShape₁.finish ?_ ?_ hEnd hAdds ?_ (List.Subset.refl _)
    hShape₁.pending_used ?_
  · intro x
    simp only [List.mem_cons, List.not_mem_nil, or_false]
    exact or_comm
  · rw [List.mem_singleton]
    rintro rfl
    exact hOpens.free (hShape.used_of_mem hHere)
  · intro x hTarget
    rcases hTargets x hTarget with rfl | ⟨hLabel, _⟩
    · exact .inl hOpens.mem_labels
    · exact .inl hLabel
  · intro b hMem hTarget
    rcases hTargets b.label hTarget with hNew | ⟨_, hPlain⟩
    · exact hOpens.isPlain hShape.toRegistered hMem hNew
    · exact hPlain b hMem rfl

theorem Shape.jump
    {h : Function}
    {next : String}
    {pending : List String}
    (hShape : f.Shape [l] pending)
    (hHere : l ∈ f.labels)
    (hOpens : f.Opens next g)
    (hJump : g.Adds l (.jump next) h) :
    h.Shape [next] pending :=
  hShape.turn hHere hOpens rfl hJump fun _ hTarget =>
    .inl (List.mem_singleton.mp hTarget)

/-
  A block is ended by a branch to a new one and to a label that
  waits; where both will meet, control does not go yet.
-/
theorem Shape.branch
    {f₁ f₂ f₃ f₄ : Function}
    {yes no meet : String}
    {test : Operand}
    {pending : List String}
    (hShape : f.Shape [l] pending)
    (hHere : l ∈ f.labels)
    (hYes : f.Opens yes f₁)
    (hNo : f₁.Takes no f₂)
    (hMeet : f₂.Takes meet f₃)
    (hBranch : f₃.Adds l (.branch test yes no) f₄) :
    f₄.Shape [yes] (no :: pending) ∧
      yes ∈ f₄.labels ∧
      meet ∈ f₄.scope.used ∧
      f₄.predecessors meet = [] := by
  have hShape₁ := hShape.opens hYes
  have hShape₂ := hShape₁.takes hNo
  have hShape₃ := hShape₂.takes hMeet
  have hLabels : f₃.labels = f₁.labels :=
    hMeet.labels_eq.trans hNo.labels_eq
  have hApart : no ∉ f₁.labels :=
    fun hMem => hNo.free (hShape₁.used_of_mem hMem)
  refine ⟨?_, ?_, ?_, ?_⟩
  · refine hShape₃.finish ?_ ?_ rfl hBranch ?_
      (List.subset_cons_self _ _)
      (List.cons_subset.mpr
        ⟨hMeet.used hNo.taken, hShape₃.pending_used⟩) ?_
    · intro x
      simp only [List.mem_cons, List.not_mem_nil, or_false]
      exact or_comm
    · rw [List.mem_singleton]
      rintro rfl
      exact hYes.free (hShape.used_of_mem hHere)
    · rintro x (_ | ⟨_, (_ | ⟨_, ⟨⟩⟩)⟩)
      · exact .inl (hLabels ▸ hYes.mem_labels)
      · exact .inr List.mem_cons_self
    · rw [hMeet.blocks, hNo.blocks]
      intro b hMem hTarget
      rcases List.mem_cons.mp hTarget with hLabel | hTarget
      · exact hYes.isPlain hShape.toRegistered hMem hLabel
      · exact absurd (List.mem_singleton.mp hTarget ▸ label_mem hMem)
          hApart
  · rw [hBranch.labels_eq, hLabels]
    exact hYes.mem_labels
  · cases hBranch with
    | intro hTakes => exact hTakes.used hMeet.taken
  · rw [hBranch.predecessors_eq, hMeet.predecessors_eq]
    · exact hShape₂.predecessors_eq_nil hMeet.free
    · rintro (_ | ⟨_, (_ | ⟨_, ⟨⟩⟩)⟩)
      · exact hMeet.free
          (hNo.used (hShape₁.used_of_mem hYes.mem_labels))
      · exact hMeet.free hNo.taken

/-
  Code is laid up to a block that is ended, and control goes to a
  label that waits, where it comes from that block now, too.
-/
theorem Shape.leave
    {h : Function}
    {start meet : String}
    {pending : List String}
    (hShape : g.Shape [l] pending)
    (hHere : l ∈ g.labels)
    (hKeeps : Keeps f.scope.used start f g)
    (hUsed : meet ∈ f.scope.used)
    (hApart : meet ∉ g.labels)
    (hJump : g.Adds l (.jump meet) h) :
    h.Shape [] (meet :: pending) ∧
      (h.predecessors meet).Perm (l :: f.predecessors meet) := by
  constructor
  · refine hShape.finish ?_ List.not_mem_nil rfl hJump ?_
      (List.subset_cons_self _ _)
      (List.cons_subset.mpr ⟨hKeeps.used hUsed, hShape.pending_used⟩) ?_
    · intro x
      simp
    · intro x hTarget
      rw [List.mem_singleton.mp hTarget]
      exact .inr List.mem_cons_self
    · intro b hMem hTarget
      exact absurd (List.mem_singleton.mp hTarget ▸ label_mem hMem) hApart
  · rw [← hKeeps.predecessors meet hUsed]
    exact hJump.predecessors_perm hShape hHere List.mem_cons_self
      List.mem_cons_self

/-
  Laying code ends the block that it starts from, or stays in
  it; the labels that wait for a block still do.
-/
theorem Lays.shape
    (hLays : Lays f l g m)
    {pending : List String}
    (hHere : l ∈ f.labels)
    (hShape : f.Shape [l] pending) :
    m ∈ g.labels ∧ g.Shape [m] pending := by
  induction hLays generalizing pending with
  | refl f l => exact ⟨hHere, hShape⟩
  | trans _ _ ihFirst ihSecond =>
      rcases ihFirst hHere hShape with ⟨hMiddle, hShape'⟩
      exact ihSecond hMiddle hShape'
  | place hOpen hPlain hAdds =>
      refine ⟨hAdds.labels_eq ▸ hHere,
        hShape.place List.mem_cons_self hOpen hAdds ?_⟩
      rintro type incoming rfl
      cases hPlain
  | reserve l hReserve hTakes =>
      refine ⟨?_, (hShape.takes hTakes).reserve hReserve hTakes.taken⟩
      rw [labels_reserve, hTakes.labels_eq]
      exact hHere
  | turn hOpens hJump =>
      exact ⟨hJump.labels_eq ▸ hOpens.mem_labels,
        hShape.jump hHere hOpens hJump⟩
  | @fork f f₁ f₂ f₃ f₄ f₅ f₆ f₇ f₈ g l yes no meet m k test v w type
      hYes hNo hMeet hBranch hFirst hJump hApart hSecond hJump' hApart'
      hPick ihFirst ihSecond =>
      rcases hShape.branch hHere hYes hNo hMeet hBranch with
        ⟨hShape₄, hStart, hUsed₄, hNone₄⟩
      rcases ihFirst hStart hShape₄ with ⟨hEnd, hShape₅⟩
      have hKeeps₇ := hSecond.keeps.1
      have hApart₇ : meet ∉ f₇.labels := hJump'.labels_eq ▸ hApart'
      have hApart₅ : meet ∉ f₅.labels := by
        intro hMem
        refine hApart₇ (hKeeps₇.labels.subset ?_)
        rw [labels_attach, hJump.labels_eq]
        exact List.mem_append_left _ hMem
      -- The first part goes to where both meet, and the second starts.
      rcases hShape₅.leave hEnd hFirst.keeps.1 hUsed₄ hApart₅ hJump with
        ⟨hShape₆, hFrom⟩
      have hNoUsed : no ∈ f₆.scope.used :=
        hShape₆.pending_used
          (List.mem_cons_of_mem _ List.mem_cons_self)
      have hMeetUsed : meet ∈ (f₆.attach no).scope.used :=
        hShape₆.pending_used List.mem_cons_self
      have hStart' : no ∈ (f₆.attach no).labels := by
        rw [labels_attach]
        exact List.mem_append_right _ List.mem_cons_self
      have hShape₆' : (f₆.attach no).Shape [no] (meet :: pending) :=
        hShape₆.attach hNoUsed hApart (by simp) (by simp)
      rcases ihSecond hStart' hShape₆' with ⟨hEnd', hShape₇⟩
      rcases hShape₇.leave hEnd' hKeeps₇ hMeetUsed hApart₇ hJump' with
        ⟨hShape₈, hFrom'⟩
      have hShape₈' : (f₈.attach meet).Shape [meet] pending :=
        hShape₈.attach (hShape₈.pending_used List.mem_cons_self) hApart'
          (by simp) (by simp)
      -- Both parts have come to where they meet, and nothing else has.
      rw [hNone₄] at hFrom
      rw [predecessors_attach] at hFrom'
      refine ⟨?_, hShape₈'.place List.mem_cons_self rfl hPick ?_⟩
      · rw [hPick.labels_eq, labels_attach]
        exact List.mem_append_right _ List.mem_cons_self
      · rintro _ _ ⟨⟩
        rw [predecessors_attach]
        exact (hFrom'.trans
          ((hFrom.cons k).trans (List.Perm.swap m k []))).symm
  | @loop f f₁ f₂ f₃ f₄ g l head next m test hHead hJump hBody hNext
      hBranch ih =>
      have hShape₂ := hShape.jump hHere hHead hJump
      have hStart : head ∈ f₂.labels :=
        hJump.labels_eq ▸ hHead.mem_labels
      rcases ih hStart hShape₂ with ⟨hEnd, hShape₃⟩
      have hKeeps : Keeps f₂.scope.used head f₂ f₄ :=
        hBody.keeps.1.trans (.of_opens hNext fun hUsed =>
          hNext.free (hBody.keeps.1.used hUsed))
      refine ⟨hBranch.labels_eq ▸ hNext.mem_labels,
        hShape₃.turn hEnd hNext rfl hBranch ?_⟩
      rintro x (_ | ⟨_, (_ | ⟨_, ⟨⟩⟩)⟩)
      · -- Nothing is picked where the loop starts.
        refine .inr ⟨hKeeps.labels.subset hStart, fun b hMem hLabel => ?_⟩
        refine hKeeps.isPlain (hShape₃.opens hNext).toProper
          (hShape₂.used_of_mem hStart) hStart ?_ hMem hLabel
        intro c hOld hSame
        exact hJump.isPlain rfl
          (fun b => hHead.isPlain hShape.toRegistered) hOld hSame
      · exact .inl rfl

/- A good graph stays good where code is laid. -/
theorem Lays.good
    (hLays : Lays f l g m)
    (hGood : f.Good l) :
    g.Good m := by
  rcases (good_iff f l).mp hGood with ⟨hHere, hShape⟩
  exact (good_iff g m).mpr (hLays.shape hHere hShape)

end Offside.IR.Function
