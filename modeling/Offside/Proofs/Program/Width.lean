import Mathlib
import Offside.Proofs.Layout.Result
import Offside.Proofs.Program.RoundTrip

/-
  The width of the indentation: which programs are parsed to the
  same tree when a level has another number of blanks than two.

  Key definitions include:
    * `Offside.Parser.tree?`

  Main statements:
    * `Offside.Grammar.steady_of_expression`,
      `Offside.Grammar.allSteady_of_items`: what is parsed to the
      tree it was written from is steady.
    * `Offside.Parser.parse_width_iff`: another width gives
      the same tree if and only if the program is steady.
-/

------------------------------------------------------------
-- Statements and Suites
------------------------------------------------------------

namespace Offside

theorem Suite.nodes_ne_nil
    (suite : Suite) :
    suite.nodes ≠ [] := by
  cases suite <;> simp [nodes]

end Offside

namespace Offside.Grammar

variable {step : Int}

/- A suite is parsed as one from a lower level only. -/
theorem block_suite_result
    (suite : Suite)
    {width level : Int}
    {t : Token}
    {rest : List Token}
    {n : Nat}
    {s : ParseState}
    (hRun :
      block Precedence.default (n + 1)
          (.before (.whole level)
            (suite.tokens step width ++ t :: rest)) =
        .ok (.block suite.nodes) s) :
    level < width ∧
      ∃ s',
        lines Precedence.default n (.whole width)
            (.before (.whole width)
              ((suite.tokens step width).tail ++ t :: rest)) =
          .ok suite.nodes s' := by
  rcases suite.exists_tokens step width with ⟨ts, hTokens⟩
  rw [hTokens] at hRun ⊢
  exact block_result (by simp) suite.nodes_ne_nil hRun

mutual

/-
  A statement that is parsed to its tree is steady, and so is the
  level before it.
-/
theorem steady_of_expression
    (hStep : 0 < step)
    (s : Statement)
    {width level : Int}
    {t : Token}
    {rest : List Token}
    {n : Nat}
    (hAllowed : 5 * (s.tokens step width).length + 1 ≤ n)
    {s' : ParseState}
    (hRun :
      expression Precedence.default n
          (.before (.whole level)
            (s.tokens step width ++ t :: rest)) =
        .ok s.node s') :
    s.Steady step ∧ (s.trail ≠ 0 → level < width + step) := by
  cases s with
  | phrase e => exact ⟨trivial, fun hSome => absurd rfl hSome⟩
  | returned e => exact ⟨trivial, fun hSome => absurd rfl hSome⟩
  | loop x first last step' body =>
      exact ⟨trivial, fun hSome => absurd rfl hSome⟩
  | branch cond yes no =>
      simp only [Statement.tokens, List.length_cons,
        List.length_append] at hAllowed
      obtain ⟨m, rfl⟩ : ∃ m, n = m + 4 := ⟨n - 4, by omega⟩
      simp only [Statement.tokens, List.cons_append,
        List.append_assoc, ParseState.before_cons] at hRun
      rcases
          primary_of_expression
            Keyword.condition.kind_token_ne_operator
            (by rintro ⟨_, _, _, _, hSame⟩; cases hSame) hRun with
        ⟨s₁, hBranch⟩
      rw [primary_branch rfl, Statement.node] at hBranch
      have hCond : ∀ us,
          expression Precedence.default (m + 1)
              (.before (.whole level)
                (cond.tokens ++ Token.operator ":" :: us)) =
            .ok cond.node ⟨Token.operator ":", us, .whole level⟩ :=
        fun us => expression_phrase cond Token.stops_colon (by omega)
      -- The first block has been opened from below.
      rcases Parse.branch_yes (by simp) (hCond _) (by simp) hBranch with
        ⟨s₂, hYes⟩
      rcases block_suite_result yes hYes with
        ⟨hFirst, s₃, hLines⟩
      rcases steady_of_lines hStep yes (by omega) hLines with
        ⟨hYesSteady, _⟩
      -- So it is known where it has ended.
      have hYes : ∀ us,
          block Precedence.default (m + 1)
              (.before (.whole level)
                (yes.tokens step (width + step) ++
                  Token.indentation width :: us)) =
            .ok (.block yes.nodes)
              ⟨Token.indentation width, us, .whole _⟩ :=
        fun us =>
          block_suite hStep yes hYesSteady hFirst
            (Token.endsBlock_indentation (by omega))
            (Token.stops_indentation _ _) (by omega)
      have hNo := Parse.branch_no (by simp) (hCond _) (by simp)
        (hYes _) (by simp) hBranch
      rcases block_suite_result no hNo with ⟨hSecond, s₄, hLines⟩
      rcases steady_of_lines hStep no (by omega) hLines with
        ⟨hNoSteady, _⟩
      exact ⟨⟨hYesSteady, settles_of_levelAfter_lt hSecond, hNoSteady⟩,
        fun _ => hFirst⟩

/- Lines that are parsed to their trees likewise. -/
theorem steady_of_lines
    (hStep : 0 < step)
    (suite : Suite)
    {width level : Int}
    {t : Token}
    {rest : List Token}
    {n : Nat}
    (hAllowed : 5 * (suite.tokens step width).length ≤ n + 1)
    {s' : ParseState}
    (hRun :
      lines Precedence.default n (.whole width)
          (.before (.whole level)
            ((suite.tokens step width).tail ++ t :: rest)) =
        .ok suite.nodes s') :
    suite.Steady step ∧ (suite.trail ≠ 0 → level < width + step) := by
  cases suite with
  | last s =>
      simp only [Suite.tokens, List.length_cons] at hAllowed
      obtain ⟨m, rfl⟩ : ∃ m, n = m + 1 := ⟨n - 1, by omega⟩
      rcases lines_head hRun with ⟨e, s₁, es, hLine, hNodes, _⟩
      cases hNodes
      exact steady_of_expression hStep s (by omega) hLine
  | more s others =>
      simp only [Suite.tokens, List.length_cons,
        List.length_append] at hAllowed
      obtain ⟨m, rfl⟩ : ∃ m, n = m + 1 := ⟨n - 1, by omega⟩
      rcases lines_head hRun with ⟨e, s₁, es, hLine, hNodes, _⟩
      cases hNodes
      rcases others.exists_tokens step width with ⟨ts, hTokens⟩
      rw [Suite.tokens, hTokens, List.tail_cons, List.append_assoc,
        List.cons_append] at hLine
      rcases steady_of_expression hStep s (by omega) hLine with
        ⟨hFirstSteady, hFirst⟩
      -- The first statement has ended where the others start.
      have hKnown : ∀ us,
          expression Precedence.default m
              (.before (.whole level)
                (s.tokens step width ++
                  Token.indentation width :: us)) =
            .ok s.node ⟨Token.indentation width, us, .whole _⟩ :=
        fun us =>
          expression_statement hStep s hFirstSteady hFirst
            (Token.endsBlock_indentation (by omega))
            (Token.stops_indentation _ _) (by omega)
      rw [lines_more hKnown] at hRun
      rcases Steps.map_eq_ok hRun with ⟨nodes, hOthers, hNodes⟩
      cases hNodes
      rcases steady_of_lines hStep others (by omega) hOthers with
        ⟨hOthersSteady, hSecond⟩
      refine ⟨⟨hFirstSteady, hOthersSteady, ?_⟩,
        level_lt_of_laterTrail hFirst hSecond⟩
      intro hSome
      exact settles_of_levelAfter_lt (hSecond hSome)

end

end Offside.Grammar

------------------------------------------------------------
-- Items
------------------------------------------------------------

namespace Offside.Grammar

variable {step : Int}

/- An item that is parsed to its tree is steady, with its level. -/
theorem steady_of_items
    (hStep : 0 < step)
    (item : Item)
    {level : Int}
    {t : Token}
    {ts : List Token}
    {n : Nat}
    (hAllowed : 5 * (item.tokens step).length ≤ n + 5)
    {nodes : List Node}
    {s : ParseState}
    (hRun :
      items Precedence.default (n + 1)
          (.before (.whole level) (item.tokens step ++ t :: ts)) =
        .ok (item.node :: nodes) s) :
    item.Steady step ∧ (item.trail ≠ 0 → level < 0 + step) := by
  cases item with
  | external signature =>
      exact ⟨trivial, fun hSome => absurd rfl hSome⟩
  | function signature body =>
      simp only [Item.tokens, List.length_cons, List.length_append]
        at hAllowed
      obtain ⟨m, rfl⟩ : ∃ m, n = m + 1 := ⟨n - 1, by omega⟩
      simp only [Item.tokens, List.cons_append, List.append_assoc,
        ParseState.before_cons] at hRun
      rw [items_function rfl] at hRun
      rcases Steps.bind_eq_ok hRun with ⟨node, s₁, hItem, hRun⟩
      rcases Steps.bind_eq_ok hRun with ⟨others, s₂, _, hRun⟩
      cases hRun
      rw [Parse.function_signature signature _ (by simp)] at hItem
      rcases Steps.map_eq_ok hItem with ⟨found, hBody, hFound⟩
      cases hFound
      rcases block_suite_result body hBody with ⟨hFirst, s₃, hLines⟩
      rcases steady_of_lines hStep body (by omega) hLines with
        ⟨hSteady, _⟩
      refine ⟨hSteady, fun _ => ?_⟩
      rwa [zero_add]

/-
  Items that are parsed to their trees are steady, and so is the
  level before them.
-/
theorem allSteady_of_items
    (hStep : 0 < step)
    (its : List Item)
    {level : Int}
    {n : Nat}
    (hAllowed :
      5 * (its.flatMap (Item.tokens step)).length + 1 ≤ n)
    {s : ParseState}
    (hRun :
      items Precedence.default n
          (.before (.whole level)
            (its.flatMap (Item.tokens step) ++ [Token.finish])) =
        .ok (its.map Item.node) s) :
    Item.AllSteady step its ∧
      (Item.lastTrail its ≠ 0 → level < 0 + step) := by
  induction its generalizing n level with
  | nil => exact ⟨trivial, fun hSome => absurd rfl hSome⟩
  | cons item its ih =>
      rcases Item.head_tokens step its with
        ⟨t, ts, hNext, hKind, _, hStops⟩
      have hSome : (item.tokens step).length ≠ 0 := by
        cases item <;> simp [Item.tokens]
      simp only [List.flatMap_cons, List.length_append] at hAllowed
      obtain ⟨m, rfl⟩ : ∃ m, n = m + 1 := ⟨n - 1, by omega⟩
      rw [List.flatMap_cons, List.append_assoc, hNext] at hRun
      rcases steady_of_items hStep item (by omega) hRun with
        ⟨hFirstSteady, hFirst⟩
      -- The item has ended where the others start.
      rw [items_cons hStep item hFirstSteady hFirst hKind hStops ts
        (by omega)] at hRun
      rcases Steps.map_eq_ok hRun with ⟨nodes, hOthers, hNodes⟩
      cases hNodes
      rw [← ParseState.before_cons, ← hNext] at hOthers
      rcases ih (by omega) hOthers with ⟨hOthersSteady, hSecond⟩
      refine ⟨⟨hFirstSteady, hOthersSteady, ?_⟩,
        level_lt_of_laterTrail hFirst hSecond⟩
      intro hLater
      exact settles_of_levelAfter_lt (hSecond hLater)

end Offside.Grammar

------------------------------------------------------------
-- Texts
------------------------------------------------------------

namespace Offside.Parser

/-
  The tree of a text without its locations, if the text is lexed
  and parsed without an error.
-/
def tree?
    (p : Parser)
    (scanner : Scanner)
    (text name : String) :
    Option Node :=
  match scanner.lexText text with
  | .error _ => none
  | .ok ts =>
      match (p.parse (TokenList.ofTokens ts) name).1 with
      | .error _ => none
      | .ok node => some node.unlocated

/- It is the tree of a parsed program where the text is lexed. -/
theorem tree?_eq_some_iff
    {p : Parser}
    {scanner : Scanner}
    {text : String}
    {ts : List Token}
    (hLex : scanner.lexText text = .ok ts)
    (name : String)
    (tree : Node) :
    p.tree? scanner text name = some tree ↔
      ∃ node p',
        p.parse (TokenList.ofTokens ts) name = (.ok node, p') ∧
        node.unlocated = tree := by
  rw [tree?, hLex]
  dsimp only
  rcases p.parse (TokenList.ofTokens ts) name with ⟨result, p'⟩
  cases result with
  | error e => simp
  | ok node => simp

/- The text of a program is lexed, whatever the width. -/
theorem exists_lexText_text
    {scanner : Scanner}
    (hBuffer : scanner.input.direct = false)
    (program : Program)
    (spacing : Spacing)
    {width : Nat}
    (hWidth : width ≠ 0) :
    ∃ located,
      scanner.lexText (program.text spacing width) = .ok located ∧
      located.map Token.unlocated =
        program.items.flatMap (Item.tokens width) ++
          [Token.finish] := by
  rw [Scanner.exists_lexText_eq_ok_iff hBuffer, Program.text,
    Row.write, String.toList_ofList,
    ← Program.flatMap_tokens_rows hWidth]
  exact Reading.rows spacing width program.rows

/- The text of a program gives its tree just when it is steady. -/
theorem tree?_text_eq_some_iff
    {scanner : Scanner}
    (hBuffer : scanner.input.direct = false)
    {p : Parser}
    (hTable : p.table = Precedence.default)
    (program : Program)
    (spacing : Spacing)
    {width : Nat}
    (hWidth : width ≠ 0)
    (name : String) :
    p.tree? scanner (program.text spacing width) name =
        some (program.node name) ↔
      program.Steady width := by
  have hStep : (0 : Int) < width := by omega
  rcases exists_lexText_text hBuffer program spacing hWidth with
    ⟨located, hLex, hTokens⟩
  rcases Item.head_tokens width program.items with
    ⟨t, ts, hFirst, _, hKind, _⟩
  have hAllowed := Item.allowance_tokens hFirst
  have hParse := parse_ok_iff hTable (hTokens.trans hFirst) hKind name
    (program.items.map Item.node)
  rw [← hFirst] at hParse
  rw [tree?_eq_some_iff hLex]
  constructor
  · rintro ⟨node, p', hOk, hNode⟩
    rcases (hParse p'.level).mp ⟨node, p', hOk, hNode, rfl⟩ with
      ⟨s, hRun, _⟩
    exact (Grammar.allSteady_of_items hStep program.items hAllowed
      hRun).1
  · intro hSteady
    have hRun := Grammar.items_tokens hStep program.items hSteady
      (fun _ => by rwa [zero_add]) hAllowed
    rcases (hParse _).mpr ⟨_, hRun, rfl⟩ with
      ⟨node, p', hOk, hNode, _⟩
    exact ⟨node, p', hOk, hNode⟩

/-
  With another number of blanks for a level than two, the text of
  a program gives the same tree, up to locations, if and only if
  the program is steady for that number.
-/
theorem parse_width_iff
    (program : Program)
    (spacing : Spacing)
    (width : Nat)
    (hWidth : width ≠ 0)
    (scanner : Scanner)
    (hBuffer : scanner.input.direct = false)
    (p : Parser)
    (hTable : p.table = Precedence.default)
    (name : String) :
    (∃ node,
      p.tree? scanner (program.text spacing 2) name = some node ∧
      p.tree? scanner (program.text spacing width) name =
        some node) ↔
    program.Steady width := by
  have hTwo :
      p.tree? scanner (program.text spacing 2) name =
        some (program.node name) :=
    (tree?_text_eq_some_iff hBuffer hTable program spacing two_ne_zero
      name).mpr (program.steady_of_le_two le_rfl)
  rw [← tree?_text_eq_some_iff hBuffer hTable program spacing hWidth
    name]
  constructor
  · rintro ⟨node, hSame, hWide⟩
    rw [hTwo] at hSame
    cases hSame
    exact hWide
  · intro hWide
    exact ⟨program.node name, hTwo, hWide⟩

/- A function with a condition, and another function. -/
def sampleFunctions : Program where
  items :=
    [.function ⟨sampleName 'f', [sampleName 'a']⟩
        (.last
          (.branch (.named (sampleName 'a'))
            (.last (.phrase (.literal (sampleDigit 1))))
            (.last (.phrase (.literal (sampleDigit 2)))))),
      .function ⟨sampleName 'g', [sampleName 'b']⟩
        (.last (.phrase (.named (sampleName 'b'))))]

/- With three blanks for a level the tree is the same, with four not. -/
theorem parse_width_iff_sample :
    sampleFunctions.text tightSpacing 4 =
      "fn f(a):\n    if a:\n        1\n    else:\n        2\n" ++
        "fn g(b):\n    b\n" ∧
    (∃ node,
      new.tree? (Scanner.ofInput Input.empty)
          (sampleFunctions.text tightSpacing 2) "main" =
        some node ∧
      new.tree? (Scanner.ofInput Input.empty)
          (sampleFunctions.text tightSpacing 3) "main" =
        some node) ∧
    ¬∃ node,
      new.tree? (Scanner.ofInput Input.empty)
          (sampleFunctions.text tightSpacing 2) "main" =
        some node ∧
      new.tree? (Scanner.ofInput Input.empty)
          (sampleFunctions.text tightSpacing 4) "main" =
        some node := by
  refine ⟨by decide +kernel, ?_, ?_⟩
  · rw [parse_width_iff sampleFunctions tightSpacing 3
      three_ne_zero (Scanner.ofInput Input.empty) rfl new rfl "main"]
    simp [sampleFunctions, Program.Steady, Item.AllSteady, Item.Steady,
      Suite.Steady, Statement.Steady, Item.trail, Suite.trail,
      Statement.trail, Settles]
  · rw [parse_width_iff sampleFunctions tightSpacing 4
      four_ne_zero (Scanner.ofInput Input.empty) rfl new rfl "main"]
    simp [sampleFunctions, Program.Steady, Item.AllSteady, Item.Steady,
      Suite.Steady, Statement.Steady, Item.lastTrail, laterTrail,
      Item.trail, Suite.trail, Statement.trail, Settles]

end Offside.Parser
