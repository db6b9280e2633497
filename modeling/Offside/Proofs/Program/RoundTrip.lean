import Mathlib
import Offside.Proofs.Program.Parsing

/-
  The round trip of programs: written, read by a lexer, and
  parsed again.

  Main statements:
    * `Offside.Program.flatMap_tokens_rows`: the rows of a
      program are read as the tokens of its items.
    * `Offside.Parser.parse_ok_iff`: a program is parsed to a tree
      just when its items are.
    * `Offside.Parser.parse_text`: the text of a program is read
      and parsed back to its tree, whatever the spacing.
-/

------------------------------------------------------------
-- Tokens of Rows
------------------------------------------------------------

namespace Offside

/- The tokens of a row that is nested. -/
theorem Row.tokens_nested
    {width : Nat}
    {row : Row}
    (hNested : width * row.depth ≠ 0) :
    row.tokens width =
      Token.indentation (width * row.depth : Nat) ::
        row.pieces.map Piece.token := by
  rw [tokens, if_neg hNested]

/- The tokens of a row that is not. -/
theorem Row.tokens_flat
    {width : Nat}
    {row : Row}
    (hFlat : row.depth = 0) :
    row.tokens width = row.pieces.map Piece.token := by
  rw [tokens, if_pos (by rw [hFlat, Nat.mul_zero])]

variable {width : Nat}

mutual

/- The rows of a statement are read as its tokens. -/
theorem Statement.flatMap_tokens_rows
    (hWidth : width ≠ 0)
    (s : Statement)
    {depth : Nat}
    (hDepth : depth ≠ 0) :
    (s.rows depth).flatMap (Row.tokens width) =
      Token.indentation (width * depth : Nat) ::
        s.tokens width (width * depth : Nat) := by
  have hNested : width * depth ≠ 0 := Nat.mul_ne_zero hWidth hDepth
  cases s with
  | phrase e =>
      simp [Statement.rows, Statement.tokens, Row.tokens_nested,
        hNested, Phrase.tokens, -Nat.cast_mul]
  | returned e =>
      simp [Statement.rows, Statement.tokens, Row.tokens_nested,
        hNested, Phrase.tokens, -Nat.cast_mul]
  | branch cond yes no =>
      have hSucc : depth + 1 ≠ 0 := Nat.succ_ne_zero depth
      have hYes := Suite.flatMap_tokens_rows hWidth yes hSucc
      have hNo := Suite.flatMap_tokens_rows hWidth no hSucc
      have hDeeper :
          ((width * (depth + 1) : Nat) : Int) =
            (width * depth : Nat) + width := by
        push_cast
        ring
      rw [hDeeper] at hYes hNo
      simp [Statement.rows, Statement.tokens, Row.tokens_nested,
        hNested, Phrase.tokens, hYes, hNo, -Nat.cast_mul]
  | loop x first last step body =>
      simp [Statement.rows, Statement.tokens, Row.tokens_nested,
        hNested, Phrase.tokens, -Nat.cast_mul]

/- The rows of a suite likewise. -/
theorem Suite.flatMap_tokens_rows
    (hWidth : width ≠ 0)
    (suite : Suite)
    {depth : Nat}
    (hDepth : depth ≠ 0) :
    (suite.rows depth).flatMap (Row.tokens width) =
      suite.tokens width (width * depth : Nat) := by
  cases suite with
  | last s =>
      have hLast := Statement.flatMap_tokens_rows hWidth s hDepth
      simp only [Suite.rows, Suite.tokens, hLast]
  | more s others =>
      have hFirst := Statement.flatMap_tokens_rows hWidth s hDepth
      have hOthers := Suite.flatMap_tokens_rows hWidth others hDepth
      simp only [Suite.rows, Suite.tokens, List.flatMap_append,
        hFirst, hOthers, List.cons_append]

end

/- The rows of an item. -/
theorem Item.flatMap_tokens_rows
    (hWidth : width ≠ 0)
    (item : Item) :
    item.rows.flatMap (Row.tokens width) = item.tokens width := by
  cases item with
  | external signature =>
      simp [rows, tokens, Row.tokens_flat, Signature.tokens]
  | function signature body =>
      have hBody := Suite.flatMap_tokens_rows hWidth body one_ne_zero
      rw [Nat.mul_one] at hBody
      simp [rows, tokens, Row.tokens_flat, Signature.tokens, hBody]

/- The rows of a program are read as the tokens of its items. -/
theorem Program.flatMap_tokens_rows
    (hWidth : width ≠ 0)
    (program : Program) :
    program.rows.flatMap (Row.tokens width) =
      program.items.flatMap (Item.tokens width) := by
  rw [rows, List.flatMap_assoc]
  congr 1
  funext item
  exact Item.flatMap_tokens_rows hWidth item

end Offside

------------------------------------------------------------
-- From Texts to Trees
------------------------------------------------------------

namespace Offside

/- The parser of a program is that of its items. -/
theorem Parser.program_apply
    (table : Precedence)
    {t : Token}
    (hKind : t.kind ≠ .unset)
    (ts : List Token)
    (name : String) :
    program table name ⟨Token.unset, t :: ts, .whole 0⟩ =
      (.program name <$>
        Grammar.items table (Grammar.allowance ts.length))
        (.before (.whole 0) (t :: ts)) := by
  simp [program, Steps.bind_apply, Steps.map_apply, hKind,
    Grammar.run]

/-
  A program is parsed to a tree, up to locations, when its items
  are parsed from tokens without locations.
-/
theorem Parser.parse_ok_iff
    {p : Parser}
    (hTable : p.table = Precedence.default)
    {located : List Token}
    {t : Token}
    {ts : List Token}
    (hTokens : located.map Token.unlocated = t :: ts)
    (hKind : t.kind ≠ .unset)
    (name : String)
    (nodes : List Node)
    (level : Amount) :
    (∃ node p',
      p.parse (TokenList.ofTokens located) name = (.ok node, p') ∧
      node.unlocated = .program name nodes ∧
      p'.level = level) ↔
    ∃ s,
      Grammar.items Precedence.default (Grammar.allowance ts.length)
          (.before (.whole 0) (t :: ts)) =
        .ok nodes s ∧
      s.level = level := by
  have hItems :=
    (Grammar.orderly_items Precedence.default
      (Grammar.allowance ts.length)).unlocated
      (.before (.whole 0) located)
  rw [ParseState.unlocated_before, hTokens] at hItems
  rcases List.map_eq_cons_iff.mp hTokens with
    ⟨v, vs, rfl, hFirst, hRest⟩
  have hBegun : v.kind ≠ .unset := by
    rw [← hFirst] at hKind
    exact hKind
  have hLength : ts.length = vs.length := by
    rw [← hRest, List.length_map]
  have hProgram := program_apply Precedence.default hBegun vs name
  rw [Steps.map_apply, ← hLength] at hProgram
  let q : Parser :=
    { p.reset with tokens := TokenList.ofTokens (v :: vs) }
  have hParse :
      p.parse (TokenList.ofTokens (v :: vs)) name =
        q.run (program Precedence.default name) := by
    rw [← hTable]
    rfl
  have hState : q.state = ⟨Token.unset, v :: vs, .whole 0⟩ := rfl
  rw [hParse, run, hState, hProgram, hItems]
  cases Grammar.items Precedence.default (Grammar.allowance ts.length)
      (.before (.whole 0) (v :: vs)) with
  | ok found s =>
      constructor
      · rintro ⟨node, p', hSame, hNode, hLevel⟩
        cases hSame
        rw [Node.unlocated, Node.unlocatedAll_eq_map] at hNode
        cases hNode
        exact ⟨s.unlocated, rfl, hLevel⟩
      · rintro ⟨s', hSame, hLevel⟩
        cases hSame
        refine ⟨_, _, rfl, ?_, hLevel⟩
        rw [Node.unlocated, Node.unlocatedAll_eq_map]
  | error e s =>
      constructor
      · rintro ⟨node, p', hSame, _⟩
        cases hSame
      · rintro ⟨s', hSame, _⟩
        cases hSame

/-
  Tokens that are those of a program without their locations
  are parsed to its tree, and the level is the outermost one
  again.
-/
theorem Parser.parse_tokens
    {p : Parser}
    (hTable : p.table = Precedence.default)
    (program : Program)
    {located : List Token}
    (hTokens :
      located.map Token.unlocated =
        program.items.flatMap (Item.tokens 2) ++ [Token.finish])
    (name : String) :
    ∃ node p',
      p.parse (TokenList.ofTokens located) name = (.ok node, p') ∧
      node.unlocated = program.node name ∧
      p'.level = .whole 0 := by
  rcases Item.head_tokens 2 program.items with
    ⟨t, ts, hFirst, _, hKind, _⟩
  have hAllowed := Item.allowance_tokens hFirst
  have hRun := Grammar.items_tokens two_pos program.items
    (program.steady_of_le_two le_rfl) (fun _ => two_pos) hAllowed
  rw [levelAfter_two, hFirst] at hRun
  rw [hFirst] at hTokens
  exact (parse_ok_iff hTable hTokens hKind name _ _).mpr
    ⟨_, hRun, rfl⟩

end Offside

namespace Offside.Parser

/-
  The text of a program, put into the buffer, is read without
  error and parsed to the tree of the program, up to locations;
  the level of indentation is the outermost one again.
-/
theorem parse_text
    (program : Program)
    (spacing : Spacing)
    (scanner : Scanner)
    (hBuffer : scanner.input.direct = false)
    (p : Parser)
    (hTable : p.table = Precedence.default)
    (name : String) :
    ∃ ts scanner' node p',
      Scanner.lex
          { scanner with
            input :=
              scanner.input.loadText (program.text spacing 2) } =
        (.ok ts, scanner') ∧
      p.parse (TokenList.ofTokens ts) name = (.ok node, p') ∧
      node.unlocated = program.node name ∧
      p'.level = .whole 0 := by
  have hReading := Reading.rows spacing 2 program.rows
  rw [Program.flatMap_tokens_rows two_ne_zero] at hReading
  have hUnread :
      (scanner.input.loadText (program.text spacing 2)).unread =
        program.rows.flatMap (Row.chars spacing 2) := by
    rw [Input.unread_loadText hBuffer, Program.text, Row.write,
      String.toList_ofList]
  rw [← hUnread] at hReading
  rcases
      Scanner.lex_of_reading
        (s := { scanner with
          input := scanner.input.loadText (program.text spacing 2) })
        hReading with
    ⟨ts, scanner', hLex, hTokens⟩
  rcases parse_tokens hTable program hTokens name with
    ⟨node, p', hParse, hNode, hLevel⟩
  exact ⟨ts, scanner', node, p', hLex, hParse, hNode, hLevel⟩

/- Blanks only where pieces would run together. -/
def tightSpacing : Spacing where
  gap p q :=
    match q.chars.head? with
    | none => 0
    | some c => if p.continuedBy c then 1 else 0
  apart := by
    rintro p q ⟨c, hHead, hContinued⟩
    rw [Option.mem_def.mp hHead]
    simp [hContinued]

/- A name of one letter. -/
def sampleName
    (c : Char)
    (hStarts : Lexeme.startsWord c = true := by
      exact Eq.refl true)
    (hFree : Kind.ofWord (String.ofList [c]) = .identifier := by
      exact Eq.refl Kind.identifier) :
    Name :=
  ⟨⟨c, [], hStarts, rfl⟩, hFree⟩

/- A literal of one digit. -/
def sampleDigit
    (n : Nat) :
    Literal :=
  ⟨[Fin.ofNat 10 n], none, by simp⟩

/- A program with every kind of item, statement and phrase. -/
def sampleProgram : Program where
  items :=
    [.external ⟨sampleName 'p', [sampleName 'c']⟩,
      .function ⟨sampleName 'f', [sampleName 'x', sampleName 'y']⟩
        (.more
          (.branch
            (.applied .less (.named (sampleName 'x'))
              (.literal ⟨[1], some [5], by decide⟩))
            (.last
              (.loop (sampleName 'i') (.literal (sampleDigit 0))
                (.applied .less (.named (sampleName 'i'))
                  (.named (sampleName 'y')))
                (.literal ⟨[], some [5], by decide⟩)
                (.call (sampleName 'p') [.named (sampleName 'i')])))
            (.last
              (.returned
                (.signed ⟨Operator.minus.symbol, by decide, by decide,
                    by decide⟩
                  (.named (sampleName 'x'))))))
          (.last
            (.phrase
              (.applied .assign (.named (sampleName 'y'))
                (.call (sampleName 'f') [])))))]

theorem parse_text_sample :
    sampleProgram.text tightSpacing 2 =
      "extern p(c)\nfn f(x,y):\n  if(x<1.5):\n    " ++
        "for i=0,(i<y),.5in p(i)\n  else:\n    return-x\n" ++
          "  (y=f())\n" ∧
    ∃ ts scanner' node p',
      Scanner.lex
          { Scanner.ofInput Input.empty with
            input :=
              Input.empty.loadText
                (sampleProgram.text tightSpacing 2) } =
        (.ok ts, scanner') ∧
      new.parse (TokenList.ofTokens ts) "main" = (.ok node, p') ∧
      node.unlocated = sampleProgram.node "main" ∧
      p'.level = .whole 0 :=
  ⟨by decide +kernel,
    parse_text sampleProgram tightSpacing (Scanner.ofInput Input.empty)
      rfl new rfl "main"⟩

end Offside.Parser
