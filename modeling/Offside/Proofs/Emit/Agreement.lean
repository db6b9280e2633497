import Mathlib
import Offside.Proofs.Emit.Definition
import Offside.Proofs.Emit.Frame

/-
  Two runs of a visit with different bindings: where these agree
  on the variables that are looked up, the runs do the same.

  Key definitions include:
    * `Offside.EmitState.Regular`
    * `Offside.EmitState.IsNew`
    * `Offside.EmitState.Alike`
    * `Offside.Emit.Agrees`
    * `Offside.Node.IsProper`
    * `Offside.Emit.attempt`

  Main statements:
    * `Offside.Emit.visit_agrees`: a visit depends on the bindings
      of the names which the node uses and on no others.
    * `Offside.Emit.definition_alike`: a definition depends on
      none for its own parameters.
-/

------------------------------------------------------------
-- States That Are Alike
------------------------------------------------------------

namespace Offside

/- A node that is the name of a variable. -/
def Node.IsVariable
    (node : Node) :
    Prop :=
  ∃ name type location, node = .reference name type location

/- The address of memory that keeps a number. -/
def IR.Operand.IsCell
    (address : IR.Operand) :
    Prop :=
  ∃ name, address = .register (.pointer .float) name

namespace EmitState

/-
  A state of a generator that finds functions by their names.
  Functions are known by prototypes, and variables are kept in
  memory.
-/
structure Regular
    (s : EmitState) :
    Prop where
  resolves : s.generator.resolves = true
  prototypes :
    ∀ entry ∈ s.generator.prototypes, ¬entry.2.IsVariable
  cells :
    ∀ name address, s.bindings.get? name = some address →
      address.IsCell

/-
  A state of a new generator that finds functions by their names,
  before any variable is bound.
-/
structure IsNew
    (s : EmitState) :
    Prop where
  generator :
    ∃ inputFile outputFile isLibrary,
      s.generator = .new true inputFile outputFile isLibrary
  bindings : s.bindings = .empty

theorem IsNew.regular
    {s : EmitState}
    (hNew : s.IsNew) :
    s.Regular := by
  rcases hNew.generator with ⟨_, _, _, hGenerator⟩
  constructor
  · rw [hGenerator]
    rfl
  · rw [hGenerator]
    exact nofun
  · rw [hNew.bindings]
    exact nofun

/-
  States with the same generator and with the same bindings of
  some names.
-/
structure Alike
    (X : String → Prop)
    (s t : EmitState) :
    Prop where
  left : s.Regular
  right : t.Regular
  generator : t.generator = s.generator
  bindings : ∀ x, X x → t.bindings.get? x = s.bindings.get? x

variable {X Y : String → Prop}
variable {s t : EmitState}
variable {counter : String}

theorem Regular.lookup
    (hRegular : s.Regular)
    {name : String}
    {proto : Node}
    (hLookup : s.generator.prototypes.lookup name = some proto) :
    ¬proto.IsVariable := by
  rcases List.lookup_eq_some_iff.mp hLookup with
    ⟨before, after, hEntries, _⟩
  apply hRegular.prototypes (name, proto)
  rw [hEntries]
  exact List.mem_append_right _ List.mem_cons_self

theorem Regular.alike
    (hRegular : s.Regular)
    (X : String → Prop) :
    s.Alike X s :=
  ⟨hRegular, hRegular, rfl, fun _ _ => rfl⟩

theorem Alike.mono
    (hAlike : s.Alike Y t)
    (hNames : ∀ x, X x → Y x) :
    s.Alike X t :=
  ⟨hAlike.left, hAlike.right, hAlike.generator,
    fun x hName => hAlike.bindings x (hNames x hName)⟩

/- A change of the generator that keeps it regular. -/
theorem Alike.change
    (hAlike : s.Alike X t)
    (change : Generator → Generator)
    (hResolves : ∀ g, (change g).resolves = g.resolves)
    (hPrototypes : ∀ entry ∈ (change s.generator).prototypes,
      ¬entry.2.IsVariable) :
    Alike X { s with generator := change s.generator }
      { t with generator := change t.generator } where
  left :=
    ⟨(hResolves _).trans hAlike.left.resolves, hPrototypes,
      hAlike.left.cells⟩
  right := by
    refine ⟨(hResolves _).trans hAlike.right.resolves, ?_,
      hAlike.right.cells⟩
    rw [hAlike.generator]
    exact hPrototypes
  generator := congrArg change hAlike.generator
  bindings := hAlike.bindings

/- A variable is bound to the same memory in both. -/
theorem Alike.set
    (hAlike : s.Alike X t)
    (counter name : String) :
    Alike (fun x => X x ∨ x = counter)
      { s with
        bindings :=
          s.bindings.set counter (.register (.pointer .float) name) }
      { t with
        bindings :=
          t.bindings.set counter (.register (.pointer .float) name) } := by
  have hCells : ∀ {b : Bindings},
      (∀ x address, b.get? x = some address → address.IsCell) →
      ∀ x address,
        (b.set counter (.register (.pointer .float) name)).get? x =
          some address → address.IsCell := by
    intro b hKept x address hBound
    rw [Bindings.get?_set] at hBound
    split_ifs at hBound
    · cases hBound
      exact ⟨name, rfl⟩
    · exact hKept x address hBound
  refine ⟨⟨hAlike.left.resolves, hAlike.left.prototypes,
    hCells hAlike.left.cells⟩, ⟨hAlike.right.resolves,
    hAlike.right.prototypes, hCells hAlike.right.cells⟩,
    hAlike.generator, ?_⟩
  intro x hName
  rw [Bindings.get?_set, Bindings.get?_set]
  split_ifs with hCounter
  · rfl
  · exact hAlike.bindings x (hName.resolve_right hCounter)

/-
  A variable is bound as it was before, where the states may have
  differed in it.
-/
theorem Alike.restore
    (hAlike : s.Alike (fun x => X x ∨ x = counter) t)
    {old old' : Option IR.Operand}
    (hOld : ∀ address, old = some address → address.IsCell)
    (hOld' : ∀ address, old' = some address → address.IsCell)
    (hSame : X counter → old' = old) :
    Alike X { s with bindings := s.bindings.restore counter old }
      { t with bindings := t.bindings.restore counter old' } := by
  have hCells : ∀ {b : Bindings} {old : Option IR.Operand},
      (∀ x address, b.get? x = some address → address.IsCell) →
      (∀ address, old = some address → address.IsCell) →
      ∀ x address, (b.restore counter old).get? x = some address →
        address.IsCell := by
    intro b old hKept hOld x address hBound
    rw [Bindings.get?_restore] at hBound
    split_ifs at hBound
    · exact hOld address hBound
    · exact hKept x address hBound
  refine ⟨⟨hAlike.left.resolves, hAlike.left.prototypes,
    hCells hAlike.left.cells hOld⟩, ⟨hAlike.right.resolves,
    hAlike.right.prototypes, hCells hAlike.right.cells hOld'⟩,
    hAlike.generator, ?_⟩
  intro x hName
  rw [Bindings.get?_restore, Bindings.get?_restore]
  split_ifs with hCounter
  · subst hCounter
    exact hSame hName
  · exact hAlike.bindings x (.inl hName)

end EmitState

end Offside

------------------------------------------------------------
-- Runs That Agree
------------------------------------------------------------

namespace Offside.Emit

variable {α β : Type}

/-
  Results of two runs that are the same but for the states, which
  are alike: in the names `Y` where the runs have succeeded, in
  the names `X` where they have failed.
-/
def AlikeResults
    (X Y : String → Prop) :
    EStateM.Result EmitError EmitState α →
    EStateM.Result EmitError EmitState α →
    Prop
  | .ok a s, .ok b t => b = a ∧ s.Alike Y t
  | .error e s, .error d t => d = e ∧ s.Alike X t
  | _, _ => False

/- A step that looks up no other variables than these. -/
def Agrees
    (X : String → Prop)
    (m : Emit α) :
    Prop :=
  ∀ s t, s.Alike X t → AlikeResults X X (m s) (m t)

variable {X Y Z : String → Prop}
variable {m : Emit α}
variable {s t : EmitState}

theorem AlikeResults.mono
    {X' Y' : String → Prop}
    {r r' : EStateM.Result EmitError EmitState α}
    (hResults : AlikeResults X' Y' r r')
    (hFail : ∀ x, X x → X' x)
    (hOk : ∀ x, Y x → Y' x) :
    AlikeResults X Y r r' := by
  cases r with
  | ok a s =>
      cases r' with
      | ok b t => exact ⟨hResults.1, hResults.2.mono hOk⟩
      | error e t => exact hResults
  | error e s =>
      cases r' with
      | ok b t => exact hResults
      | error d t => exact ⟨hResults.1, hResults.2.mono hFail⟩

/- What comes second starts from the states that came first. -/
theorem AlikeResults.bind
    {k k' : α → Emit β}
    (hFirst : AlikeResults X Y (m s) (m t))
    (hSecond : ∀ a s' t', m s = .ok a s' → s'.Alike Y t' →
      AlikeResults X Z (k a s') (k' a t')) :
    AlikeResults X Z ((m >>= k) s) ((m >>= k') t) := by
  rw [Steps.bind_apply, Steps.bind_apply]
  cases hRun : m s with
  | ok a s' =>
      cases hRun' : m t with
      | ok b t' =>
          rw [hRun, hRun'] at hFirst
          rcases hFirst with ⟨rfl, hAlike⟩
          exact hSecond b s' t' hRun hAlike
      | error d t' =>
          rw [hRun, hRun'] at hFirst
          exact hFirst.elim
  | error e s' =>
      cases hRun' : m t with
      | ok b t' =>
          rw [hRun, hRun'] at hFirst
          exact hFirst.elim
      | error d t' =>
          rw [hRun, hRun'] at hFirst
          exact hFirst

namespace Agrees

theorem bind
    {k : α → Emit β}
    (hFirst : Agrees X m)
    (hSecond : ∀ a, Agrees X (k a)) :
    Agrees X (m >>= k) :=
  fun s t hAlike => (hFirst s t hAlike).bind
    fun a s' t' _ hAlike' => hSecond a s' t' hAlike'

/- A change of the module, the cursor or the stack. -/
theorem change
    (change : Generator → Generator)
    (hResolves : ∀ g, (change g).resolves = g.resolves)
    (hPrototypes : ∀ g, (change g).prototypes = g.prototypes) :
    Agrees X (modify fun s =>
      { s with generator := change s.generator }) := by
  intro s t hAlike
  refine ⟨rfl, hAlike.change change hResolves ?_⟩
  rw [hPrototypes]
  exact hAlike.left.prototypes

theorem pop :
    Agrees X pop := by
  intro s t hAlike
  unfold Emit.pop
  rw [hAlike.generator]
  cases hStack : s.generator.stack with
  | nil => exact ⟨rfl, hAlike⟩
  | cons value values =>
      refine ⟨rfl, ?_⟩
      have hPopped := hAlike.change
        (fun g => { g with stack := values }) (fun _ => rfl)
        hAlike.left.prototypes
      rwa [hAlike.generator] at hPopped

/- The class of these steps is closed. -/
theorem closed
    (X : String → Prop) :
    Closed fun _ m => Agrees X m where
  pure := fun a s t hAlike => ⟨rfl, hAlike⟩
  throw := fun e s t hAlike => ⟨rfl, hAlike⟩
  bind := bind
  push := fun value =>
    change (fun g => { g with stack := value :: g.stack })
      (fun _ => rfl) fun _ => rfl
  pop := pop
  print := by
    intro text s t hAlike
    exact ⟨rfl,
      ⟨hAlike.left.resolves, hAlike.left.prototypes, hAlike.left.cells⟩,
      ⟨hAlike.right.resolves, hAlike.right.prototypes,
        hAlike.right.cells⟩,
      hAlike.generator, hAlike.bindings⟩
  reads := by
    intro α k hRest s t hAlike
    rw [Steps.bind_ok (Steps.get_apply s),
      Steps.bind_ok (Steps.get_apply t), hAlike.generator]
    exact hRest _ s t hAlike
  changes := fun module cursor =>
    change
      (fun g => { g with module := module g, cursor := cursor g })
      (fun _ => rfl) fun _ => rfl

theorem address?
    {name : String}
    (hName : X name) :
    Agrees X (Emit.address? name) := by
  intro s t hAlike
  exact ⟨hAlike.bindings name hName, hAlike⟩

/- Functions are looked for without a look at variables. -/
theorem getFunction
    (name : String) :
    Agrees X (Emit.getFunction name) := by
  have hClosed := closed X
  refine (hClosed.function? name).bind fun found => ?_
  cases found with
  | some f =>
      exact (hClosed.push _).bind fun _ => hClosed.resolved name
  | none =>
      intro s t hAlike
      dsimp only
      rw [Steps.bind_ok (Steps.get_apply s),
        Steps.bind_ok (Steps.get_apply t), hAlike.generator]
      cases hLookup : s.generator.prototypes.lookup name with
      | none => exact hClosed.pure none s t hAlike
      | some proto =>
          have hDeclare : Agrees X (do
              discard (declareFunction proto)
              Emit.resolved name) :=
            (hClosed.discard (hClosed.declareFunction proto)).bind
              fun _ => hClosed.resolved name
          cases proto with
          | reference _ type location =>
              exact absurd ⟨_, _, _, rfl⟩ (hAlike.left.lookup hLookup)
          | _ => exact hDeclare s t hAlike

/- The part of a loop in which its counter is bound. -/
theorem counting
    {counter : String}
    (name : String)
    {inner : Emit Bool}
    (hInner : Agrees (fun x => X x ∨ x = counter) inner) :
    Agrees X
      (counting counter (.register (.pointer .float) name) inner) := by
  intro s t hAlike
  -- What was bound before is looked up, but only to be restored.
  have hRun : ∀ u : EmitState,
      Emit.counting counter (.register (.pointer .float) name) inner u =
        (inner >>= fun all => if all then do
            modify fun s =>
              { s with
                bindings :=
                  s.bindings.restore counter (u.bindings.get? counter) }
            push (.zero .float)
          else Pure.pure ())
          { u with
            bindings :=
              u.bindings.set counter (.register (.pointer .float) name) } :=
    fun u => rfl
  have hNames : ∀ x, X x → X x ∨ x = counter := fun _ => .inl
  rw [hRun, hRun]
  refine AlikeResults.bind ((hInner _ _ (hAlike.set counter name)).mono
    hNames fun _ hName => hName) fun all s' t' _ hAlike' => ?_
  cases all with
  | false => exact ⟨rfl, hAlike'.mono hNames⟩
  | true =>
      have hRestored := hAlike'.restore
        (hAlike.left.cells counter) (hAlike.right.cells counter)
        (hAlike.bindings counter)
      exact (closed X).push _ _ _ hRestored

end Agrees

end Offside.Emit

------------------------------------------------------------
-- Visits
------------------------------------------------------------

namespace Offside

/- Functions in a node are given by prototypes, not by variables. -/
def Node.IsProper
    (node : Node) :
    Prop :=
  ∀ proto body,
    Relation.ReflTransGen Node.Part (.function proto body) node →
      ¬proto.IsVariable

theorem Node.IsProper.part
    {child node : Node}
    (hProper : node.IsProper)
    (hPart : Node.Part child node) :
    child.IsProper :=
  fun proto body hInner => hProper proto body (hInner.tail hPart)

/- Where no function is defined this is so. -/
theorem Node.IsLocal.isProper
    {node : Node}
    (hLocal : node.IsLocal) :
    node.IsProper := by
  intro proto body hInner
  have hInnerLocal : ∀ {inner outer : Node},
      Relation.ReflTransGen Node.Part inner outer →
        outer.IsLocal → inner.IsLocal := by
    intro inner outer hParts
    induction hParts with
    | refl => exact id
    | tail _ hPart ih => exact fun hOuter => ih (hOuter.part hPart)
  cases hInnerLocal hInner hLocal

/- A function with a prototype in whose body none is defined. -/
theorem Node.IsLocal.isProper_function
    {name : Value}
    {type : String}
    {params : List Node}
    {line : Nat}
    {body : Node}
    (hLocal : body.IsLocal) :
    (Node.function (.prototype name type params line) body).IsProper := by
  intro proto inner hInner
  rcases Relation.ReflTransGen.cases_tail hInner with
    hSame | ⟨part, hInner', hPart⟩
  · cases hSame
    rintro ⟨_, _, _, hVariable⟩
    cases hVariable
  · cases hPart
    exact hLocal.isProper proto inner hInner'

namespace Emit

theorem Agrees.noteProto
    {X : String → Prop}
    (name : String)
    {proto : Node}
    (hProto : ¬proto.IsVariable) :
    Agrees X (noteProto name proto) := by
  intro s t hAlike
  refine ⟨rfl, hAlike.change (fun g =>
    { g with
      prototypes :=
        (name, proto) ::
          g.prototypes.filter fun entry => entry.1 ≠ name })
    (fun _ => rfl) ?_⟩
  intro entry hMem
  rcases List.mem_cons.mp hMem with rfl | hMem
  · exact hProto
  · exact hAlike.left.prototypes entry (List.mem_of_mem_filter hMem)

theorem Agrees.setBinding
    {X : String → Prop}
    (hint name : String) :
    Agrees X (setBinding hint (.register (.pointer .float) name)) :=
  fun _ _ hAlike => ⟨rfl, (hAlike.set hint name).mono fun _ => .inl⟩

theorem agrees_covers :
    Covers Node.IsProper fun X _ m => Agrees X m where
  atoms := fun X =>
    (Agrees.closed X).atoms (fun _ => Agrees.address?)
      Agrees.getFunction
  conditional := (Agrees.closed _).conditional
  repetition := fun _ =>
    (Agrees.closed _).repetition (Agrees.closed _)
      fun name _ => Agrees.counting name
  definition := by
    intro X proto body hProper hBody
    have hClosed := Agrees.closed X
    rw [definition_eq]
    refine (hClosed.entering ?_ Agrees.getFunction).bind fun entered =>
      (hClosed.bindArguments Agrees.setBinding _).bind fun _ =>
        (hClosed.taking hBody).bind fun _ =>
          (hClosed.terminate _).bind fun _ => hClosed.pure _
    exact fun name => Agrees.noteProto name (hProper _ _ .refl)
  part := Node.IsProper.part

/-
  A visit depends on the bindings of the names which the node
  uses and on no others.
-/
theorem visit_agrees
    {node : Node}
    (hProper : node.IsProper)
    {X : String → Prop}
    (hUses : ∀ x, node.Uses x → X x) :
    Agrees X (visit node) :=
  agrees_covers.visit hProper hUses

variable {X : String → Prop}
variable {s t : EmitState}

/- The arguments of a function are bound in both runs. -/
theorem bindArguments_alike
    (hAlike : s.Alike X t)
    (pairs : List (String × IR.Operand)) :
    AlikeResults X (fun x => X x ∨ x ∈ pairs.map Prod.fst)
      (bindArguments pairs s) (bindArguments pairs t) := by
  induction pairs generalizing X s t with
  | nil => exact ⟨rfl, hAlike.mono (by simp)⟩
  | cons pair pairs ih =>
      have hClosed := Agrees.closed X
      simp only [bindArguments, allocateHere, bind_assoc, pure_bind]
      refine (hClosed.place _ _ s t hAlike).bind fun name s₁ t₁ _ h₁ =>
        (hClosed.store _ _ s₁ t₁ h₁).bind fun _ s₂ t₂ _ h₂ => ?_
      have hSet := h₂.set pair.1 name
      refine AlikeResults.mono (ih hSet) (fun x => .inl) ?_
      simp only [List.map_cons, List.mem_cons]
      tauto

/-
  A definition depends on no bindings for the parameters of its
  function.
-/
theorem definition_alike
    (hAlike : s.Alike X t)
    {proto : Node}
    (hProto : ¬proto.IsVariable)
    {body : Emit Unit}
    (hBody : ∀ operand f u, entering proto s = .ok (operand, f) u →
      Agrees (fun x => X x ∨ x ∈ (f.params.zip f.arguments).map Prod.fst)
        body) :
    AlikeResults X X (definition proto body s)
      (definition proto body t) := by
  have hClosed := Agrees.closed X
  have hEntering : Agrees X (entering proto) :=
    hClosed.entering (fun name => .noteProto name hProto) .getFunction
  rw [definition_eq]
  refine (hEntering s t hAlike).bind fun entered s₁ t₁ hEntered h₁ => ?_
  refine (bindArguments_alike h₁ _).bind fun _ s₂ t₂ _ h₂ => ?_
  have hInner := Agrees.closed
    (fun x => X x ∨ x ∈ (entered.2.params.zip entered.2.arguments).map
      Prod.fst)
  refine AlikeResults.mono (hInner.bind
    (hInner.taking (hBody _ _ _ hEntered)) (fun _ =>
      hInner.bind (hInner.terminate _) fun _ => hInner.pure _) s₂ t₂ h₂)
    (fun _ => .inl) fun _ => .inl

end Emit

end Offside

------------------------------------------------------------
-- Visits That May Fail
------------------------------------------------------------

namespace Offside

/-
  A variable is taken from outside by the visit of a node: it is
  used in the node, and it is no argument of the function that
  the node defines.
-/
def Node.Takes
    (node : Node)
    (s : EmitState)
    (x : String) :
    Prop :=
  match node with
  | .function proto body =>
      body.Uses x ∧
        ∀ operand f u, Emit.entering proto s = .ok (operand, f) u →
          ¬IR.Names f.arguments x
  | node => node.Uses x

namespace Emit

variable {X : String → Prop}
variable {s t : EmitState}
variable {node : Node}

/-
  A visit depends on the bindings of the names that it takes from
  outside and on no others.
-/
theorem visit_alike
    (hProper : node.IsProper)
    (hTakes : ∀ x, node.Takes s x → X x)
    (hAlike : s.Alike X t) :
    AlikeResults X X (visit node s) (visit node t) := by
  cases node with
  | function proto body =>
      have hBody : ∀ operand f u, entering proto s = .ok (operand, f) u →
          Agrees
            (fun x => X x ∨ x ∈ (f.params.zip f.arguments).map Prod.fst)
            (visit body) := by
        intro operand f u hEnter
        refine visit_agrees (hProper.part (.definition _ _)) fun x hUses => ?_
        rw [f.mem_zip_arguments, or_iff_not_imp_right]
        intro hOther
        refine hTakes x ⟨hUses, fun operand' f' u' hEnter' => ?_⟩
        rw [hEnter] at hEnter'
        cases hEnter'
        exact hOther
      have hDefinition :=
        definition_alike hAlike (hProper proto body .refl) hBody
      unfold visit
      rw [discard_eq]
      exact hDefinition.bind fun _ s' t' _ hAlike' => ⟨rfl, hAlike'⟩
  | _ => exact visit_agrees hProper hTakes s t hAlike

/-
  A visit that may fail: its error, if it has one, and the state
  that it leaves.
-/
def attempt
    (node : Node)
    (s : EmitState) :
    Option EmitError × EmitState :=
  match visit node s with
  | .ok _ s' => (none, s')
  | .error e s' => (some e, s')

theorem attempt_alike
    (hProper : node.IsProper)
    (hTakes : ∀ x, node.Takes s x → X x)
    (hAlike : s.Alike X t) :
    (attempt node t).1 = (attempt node s).1 ∧
      (attempt node s).2.Alike X (attempt node t).2 := by
  have hResults := visit_alike hProper hTakes hAlike
  unfold attempt
  cases hRun : visit node s with
  | ok a s' =>
      cases hRun' : visit node t with
      | ok b t' =>
          rw [hRun, hRun'] at hResults
          exact ⟨rfl, hResults.2⟩
      | error d t' =>
          rw [hRun, hRun'] at hResults
          exact hResults.elim
  | error e s' =>
      cases hRun' : visit node t with
      | ok b t' =>
          rw [hRun, hRun'] at hResults
          exact hResults.elim
      | error d t' =>
          rw [hRun, hRun'] at hResults
          exact ⟨congrArg some hResults.1, hResults.2⟩

/- A state stays regular, whether the visit fails or not. -/
theorem attempt_regular
    (hProper : node.IsProper)
    (hRegular : s.Regular) :
    (attempt node s).2.Regular :=
  (attempt_alike hProper (fun _ _ => trivial)
    (hRegular.alike fun _ => True)).2.left

end Emit

end Offside
