import Mathlib
import Offside.Proofs.Emit.Definition
import Offside.Proofs.Parser.Shape

/-
  Which functions have sound code.  The body of a parsed function
  is a block, whose values are what the function gives back: they
  are not single, and the module has no text, unless the block is
  empty.

  Key definition:
    * `Offside.Node.IsLocalBlock`

  Main statements:
    * `Offside.Emit.function_sound_iff`
    * `Offside.Emit.parsed_function_sound_iff`
-/

------------------------------------------------------------
-- Parsed Functions
------------------------------------------------------------

namespace Offside

/- A block in which no function is defined. -/
def Node.IsLocalBlock
    (node : Node) :
    Prop :=
  ∃ nodes, node = .block nodes ∧ ∀ n ∈ nodes, n.IsLocal

/- Only items define functions, and blocks are their bodies. -/
theorem Precedence.shapes_local
    (table : Precedence) :
    table.Shapes Node.IsLocal Node.IsLocalBlock where
  float := .float
  reference := fun name location => .reference name _ location
  unary := fun _ _ hOperand => .unary _ hOperand
  binary := fun location _ hLhs hRhs => .binary _ location hLhs hRhs
  call := fun callee _ location hArgs => .call callee location hArgs
  branch := by
    rintro cond _ _ location hCond ⟨yes, rfl, hYes⟩ ⟨no, rfl, hNo⟩
    exact .branch location hCond (.block hYes) (.block hNo)
  loop := by
    intro counter first last step body hFirst hLast hStep hBody
    refine .loop counter hFirst hLast hStep (.block ?_)
    simpa using hBody
  declare := fun _ _ _ => .declare _ _ _
  ret := fun _ => .ret _
  block := fun hNodes => ⟨_, rfl, hNodes⟩
  inner := by
    rintro _ ⟨nodes, rfl, hNodes⟩
    exact .block hNodes

end Offside

------------------------------------------------------------
-- Sound Functions
------------------------------------------------------------

namespace Offside.Emit

open EmitState (Emission Reaches)

variable {s s' : EmitState}
variable {name : Value}
variable {type : String}
variable {params nodes : List Node}
variable {line : Nat}

theorem taking_block_nil
    (s : EmitState) :
    taking (visit (.block [])) s = .ok (.many []) s :=
  rfl

/- A function with an empty body gives back zero. -/
theorem empty_function_sound
    (hVisit :
      visit (.function (.prototype name type params line)
        (.block [])) s = .ok () s') :
    ∃ emitted,
      Emission name.shown s emitted s' ∧
      ∀ e ∈ emitted, e.2.op.isSound = true := by
  rcases Steps.map_eq_ok hVisit with ⟨operand, hRun, _⟩
  rcases definition_entered hRun with
    ⟨args, entered, t, value, u, hEntered, hBody, hEnd⟩
  rw [taking_block_nil] at hBody
  cases hBody
  rcases (Reaches.refl hEntered.live).terminate hEnd rfl rfl with
    ⟨last, n, hReaches⟩
  refine ⟨_, hEntered.toEmission.trans hReaches.toEmission, ?_⟩
  intro e hMem
  rcases List.mem_append.mp hMem with hMem | hMem
  · exact hEntered.sound e hMem
  · rw [List.nil_append] at hMem
    rw [List.eq_of_mem_replicate hMem]
    rfl

/- Any other function gives back the values of its body. -/
theorem block_function_unsound
    (hLocal : ∀ node ∈ nodes, node.IsLocal)
    (hNodes : nodes ≠ [])
    (hVisit :
      visit (.function (.prototype name type params line)
        (.block nodes)) s = .ok () s') :
    ∃ emitted,
      Emission name.shown s emitted s' ∧
      ∃ last values,
        (name.shown, ⟨last, .ret (.many values)⟩) ∈ emitted := by
  rcases Steps.map_eq_ok hVisit with ⟨operand, hRun, _⟩
  rcases definition_entered hRun with
    ⟨args, entered, t, value, u, hEntered, hBody, hEnd⟩
  rcases taking_block hBody with ⟨values, rfl, hLength⟩
  have hSome : (IR.Operand.many values).isNothing = false := by
    cases values with
    | nil => exact absurd (List.eq_nil_of_length_eq_zero hLength.symm) hNodes
    | cons value values => rfl
  rw [hSome] at hEnd
  rcases (Reaches.refl hEntered.live).follow
      ((steady_follows.basic.taking
        (structured_follows.visit (.block hLocal)) t).ok _ _ hBody) with
    ⟨visited, hReaches⟩
  rcases hReaches.terminate hEnd rfl rfl with ⟨last, n, hReaches'⟩
  refine ⟨_, hEntered.toEmission.trans hReaches'.toEmission, last,
    values, ?_⟩
  simp

/-
  The instructions of a function are sound exactly when its body
  is an empty block.  In any case they are those that were
  checked, and they stand in the function.
-/
theorem function_sound_iff
    (hLocal : ∀ node ∈ nodes, node.IsLocal)
    (hVisit :
      visit (.function (.prototype name type params line)
        (.block nodes)) s = .ok () s') :
    ∃ emitted,
      s.generator.module.Emits emitted s'.generator.module ∧
      (∀ e ∈ emitted, e.1 = name.shown ∧ e.2.op.isChecked = true) ∧
      ((∀ e ∈ emitted, e.2.op.isSound = true) ↔ nodes = []) ∧
      (s'.generator.module.text?.isSome ↔
        s.generator.module.text?.isSome ∧ nodes = []) := by
  by_cases hNodes : nodes = []
  · subst hNodes
    rcases empty_function_sound hVisit with ⟨emitted, hEmission, hSound⟩
    refine ⟨emitted, hEmission.code, hEmission.instructions,
      iff_of_true hSound rfl, ?_⟩
    rw [hEmission.code.text?_isSome_iff]
    exact and_congr_right fun _ => iff_of_true
      (fun e hMem => IR.Op.operands_of_isSound (hSound e hMem)) rfl
  · rcases block_function_unsound hLocal hNodes hVisit with
      ⟨emitted, hEmission, last, values, hMem⟩
    refine ⟨emitted, hEmission.code, hEmission.instructions,
      iff_of_false (fun hSound => ?_) hNodes, ?_⟩
    · cases hSound _ hMem
    · rw [hEmission.code.text?_isSome_iff]
      refine and_congr_right fun _ =>
        iff_of_false (fun hSingle => ?_) hNodes
      cases hSingle _ hMem

/-
  A function that was parsed has sound code, and leaves a module
  with a text, exactly when its body is empty.
-/
theorem parsed_function_sound_iff
    {p p' : Parser}
    {tokens : TokenList}
    {module module' : String}
    {items : List Node}
    (hParse :
      p.parse tokens module = (.ok (.program module' items), p'))
    {proto body : Node}
    (hFunction : .function proto body ∈ items)
    (hVisit : visit (.function proto body) s = .ok () s') :
    ∃ nodes emitted,
      body = .block nodes ∧
      s.generator.module.Emits emitted s'.generator.module ∧
      (∀ e ∈ emitted, e.2.op.isChecked = true) ∧
      ((∀ e ∈ emitted, e.2.op.isSound = true) ↔ nodes = []) ∧
      (s'.generator.module.text?.isSome ↔
        s.generator.module.text?.isSome ∧ nodes = []) := by
  rcases
      Parser.parse_isItem p.table.shapes_local hParse _ hFunction with
    ⟨_, _, hItem, ⟨name, params, line, rfl, _⟩, nodes, rfl, hLocal⟩ |
      ⟨_, _, _, hItem, _⟩ | hItem
  · cases hItem
    rcases function_sound_iff hLocal hVisit with
      ⟨emitted, hEmits, hChecked, hSound, hText⟩
    exact ⟨nodes, emitted, rfl, hEmits,
      fun e hMem => (hChecked e hMem).2, hSound, hText⟩
  · cases hItem
  · cases hItem

/- The tokens of a function that gives back its argument. -/
def identityTokens :
    List Token :=
  [⟨.kwFunction, .text "fn", ⟨0, 3⟩⟩,
    ⟨.identifier, .text "f", ⟨0, 5⟩⟩,
    ⟨.operator, .text "(", ⟨0, 6⟩⟩,
    ⟨.identifier, .text "a", ⟨0, 7⟩⟩,
    ⟨.operator, .text ")", ⟨0, 8⟩⟩,
    ⟨.operator, .text ":", ⟨1, 0⟩⟩,
    ⟨.indent, .amount (.whole 2), ⟨1, 3⟩⟩,
    ⟨.identifier, .text "a", ⟨1, 4⟩⟩,
    ⟨.endOfText, .text "", ⟨1, 5⟩⟩]

/- The signature of that function, and the function. -/
def identityProto : Node :=
  .prototype (.text "f") Node.floatType
    [.reference (.text "a") Node.floatType ⟨0, 7⟩] 0

def identityBody : Node :=
  .block [.reference (.text "a") Node.floatType ⟨1, 4⟩]

theorem parsed_function_sound_iff_identity :
    ∃ p' s' emitted,
      Parser.new.parse (TokenList.ofTokens identityTokens) "main" =
        (.ok (.program "main" [.function identityProto identityBody]),
          p') ∧
      visit (.function identityProto identityBody) .fresh =
        .ok () s' ∧
      IR.Module.new.Emits emitted s'.generator.module ∧
      ¬(∀ e ∈ emitted, e.2.op.isSound = true) ∧
      s'.generator.module.text? = none := by
  have hParse :
      Parser.new.parse (TokenList.ofTokens identityTokens) "main" =
        (.ok (.program "main" [.function identityProto identityBody]),
          _) :=
    rfl
  rcases
      exists_of_succeeds (visit (.function identityProto identityBody))
        .fresh (fun _ => true) (by decide +kernel) with
    ⟨s', hVisit, _⟩
  rcases
      parsed_function_sound_iff hParse (List.mem_singleton.mpr rfl)
        hVisit with
    ⟨nodes, emitted, hBody, hEmits, _, hSound, hText⟩
  have hNodes : nodes ≠ [] := by
    rintro rfl
    cases hBody
  refine ⟨_, s', emitted, hParse, hVisit, hEmits,
    fun hAll => hNodes (hSound.mp hAll), ?_⟩
  rw [← Option.not_isSome_iff_eq_none, hText]
  exact fun hBoth => hNodes hBoth.2

end Offside.Emit
