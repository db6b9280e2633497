import Mathlib
import Offside.Proofs.Program.Level

/-
  Parsing programs: the tokens of phrases, statements and items,
  and what the productions make of them.

  Key definitions include:
    * `Offside.Phrase.spelling`
    * `Offside.Statement.tokens`, `Offside.Suite.tokens`

  Main statements:
    * `Offside.Grammar.expression_statement`: from a level below
      its blocks, an expression takes just the tokens of a steady
      statement.
    * `Offside.Grammar.block_suite`: from a lower level, a block
      takes just the tokens of a steady suite.
    * `Offside.Grammar.items_tokens`: steady items are parsed up
      to the end of the text.
-/

------------------------------------------------------------
-- Tokens of Pieces
------------------------------------------------------------

namespace Offside

@[simp] theorem Name.token_piece
    (x : Name) :
    x.piece.token = Token.identifier x.value := by
  simp only [piece, Piece.token, x.free, Token.identifier, value]

@[simp] theorem Keyword.token_piece
    (k : Keyword) :
    k.piece.token = k.token := by
  cases k <;> decide

@[simp] theorem Symbol.token_piece
    (s : Symbol) :
    (Piece.symbol s).token = Token.operator s.text :=
  rfl

@[simp] theorem Symbol.text_opening : opening.text = "(" := by
  decide

@[simp] theorem Symbol.text_closing : closing.text = ")" := by
  decide

@[simp] theorem Symbol.text_comma : comma.text = "," := by
  decide

@[simp] theorem Symbol.text_colon : colon.text = ":" := by
  decide

@[simp] theorem Symbol.text_equals : equals.text = "=" := by
  decide

/- Symbols with different characters have different texts. -/
theorem Symbol.text_ne
    {s : Symbol}
    {c : Char}
    (hChar : s.char ≠ c) :
    s.text ≠ String.ofList [c] := by
  intro hSame
  have hChars := congrArg String.toList hSame
  simp [text] at hChars
  exact hChar hChars

/- No keyword binds what stands before it. -/
theorem Keyword.stops_token
    (k : Keyword) :
    k.token.Stops Precedence.default where
  noCall := by cases k <;> decide
  loose := by cases k <;> decide

theorem Keyword.kind_token_ne_operator
    (k : Keyword) :
    k.token.kind ≠ .operator := by
  cases k <;> decide

/- Nor do a comma and a colon. -/
theorem Token.stops_comma :
    (operator ",").Stops Precedence.default where
  noCall := by decide
  loose := by decide

theorem Token.stops_colon :
    (operator ":").Stops Precedence.default where
  noCall := by decide
  loose := by decide

/- Nor does the end of the text. -/
theorem Token.stops_finish :
    finish.Stops Precedence.default where
  noCall := by decide
  loose := by decide

end Offside

------------------------------------------------------------
-- Phrases
------------------------------------------------------------

namespace Offside.Phrase

/- The tokens of a phrase. -/
def tokens
    (e : Phrase) :
    List Token :=
  e.pieces.map Piece.token

mutual

/- A phrase as an expression in tokens. -/
def spelling :
    Phrase →
    Spelling
  | literal l => .number l.value
  | named x => .name x.value
  | call f args => .call f.value (spellings args)
  | signed sign operand =>
      .prefixed (.text sign.symbol.text) (spelling operand)
  | applied op lhs rhs =>
      .grouped
        (.infixed (.text op.symbol.text) (spelling lhs) (spelling rhs))

/- Several phrases likewise. -/
def spellings :
    List Phrase →
    List Spelling
  | [] => []
  | e :: es => spelling e :: spellings es

end

mutual

/- Both have the same tokens. -/
theorem tokens_spelling :
    ∀ e : Phrase, e.spelling.tokens = e.tokens
  | literal l => rfl
  | named x => by
      simp [spelling, Spelling.tokens, tokens, pieces]
  | call f args => by
      have hArgs := tokensOfArgs_spellings args
      simp [spelling, Spelling.tokens, tokens, pieces, hArgs]
  | signed sign operand => by
      have hOperand := tokens_spelling operand
      simp [spelling, Spelling.tokens, tokens, pieces, hOperand,
        Token.operator]
  | applied op lhs rhs => by
      have hLhs := tokens_spelling lhs
      have hRhs := tokens_spelling rhs
      simp [spelling, Spelling.tokens, tokens, pieces, hLhs, hRhs,
        Token.operator]

theorem tokensOfArgs_spellings :
    ∀ es : List Phrase,
      Spelling.tokensOfArgs (spellings es) =
        (piecesOfArgs es).map Piece.token
  | [] => rfl
  | [e] => tokens_spelling e
  | e :: e' :: es => by
      have hFirst := tokens_spelling e
      have hOthers := tokensOfArgs_spellings (e' :: es)
      rw [spellings] at hOthers
      simp [spellings, Spelling.tokensOfArgs, piecesOfArgs, hFirst,
        hOthers, tokens]

end

mutual

/- Both stand for the same tree. -/
theorem node_spelling :
    ∀ e : Phrase, e.spelling.node = e.node
  | literal l => rfl
  | named x => rfl
  | call f args => by
      simp only [spelling, Spelling.node, node, nodes_spellings args]
  | signed sign operand => by
      simp only [spelling, Spelling.node, node,
        node_spelling operand]
  | applied op lhs rhs => by
      simp only [spelling, Spelling.node, node, node_spelling lhs,
        node_spelling rhs]

theorem nodes_spellings :
    ∀ es : List Phrase, Spelling.nodes (spellings es) = nodes es
  | [] => rfl
  | e :: es => by
      simp only [spellings, Spelling.nodes, nodes, node_spelling e,
        nodes_spellings es]

end

/- A phrase is an operand wherever it stands. -/
theorem isOperand_spelling
    (e : Phrase) :
    e.spelling.IsOperand := by
  cases e <;> simp [spelling, Spelling.IsOperand]

mutual

/- A phrase fits the table of the language wherever it stands. -/
theorem fits_spelling
    (least : Int) :
    ∀ e : Phrase, e.spelling.Fits Precedence.default least
  | literal l => trivial
  | named x => trivial
  | call f args => allFit_spellings args
  | signed sign operand => by
      refine ⟨⟨?_, ?_, ?_⟩, isOperand_spelling operand,
        fits_spelling 0 operand⟩
      · exact fun h => Symbol.text_ne sign.notOpening (Value.text.inj h)
      · exact fun h => Symbol.text_ne sign.notClosing (Value.text.inj h)
      · exact fun h => Symbol.text_ne sign.notComma (Value.text.inj h)
  | applied op lhs rhs => by
      have hBinds :
          0 ≤ Precedence.default.of (.text op.symbol.text) := by
        cases op <;> decide
      exact ⟨hBinds, hBinds, fits_spelling _ lhs,
        fits_spelling _ rhs⟩

theorem allFit_spellings :
    ∀ es : List Phrase,
      Spelling.AllFit Precedence.default (spellings es)
  | [] => trivial
  | e :: es => ⟨fits_spelling 0 e, allFit_spellings es⟩

end

end Offside.Phrase

namespace Offside.Grammar

/- A phrase is parsed up to a token that ends it. -/
theorem expression_phrase
    (e : Phrase)
    {t : Token}
    (hStops : t.Stops Precedence.default)
    {rest : List Token}
    {level : Amount}
    {n : Nat}
    (hAllowed : 5 * e.tokens.length + 1 ≤ n) :
    expression Precedence.default n
        (.before level (e.tokens ++ t :: rest)) =
      .ok e.node ⟨t, rest, level⟩ := by
  rw [← Phrase.tokens_spelling e] at hAllowed ⊢
  rw [← Phrase.node_spelling e]
  exact (Spelling.parsed Precedence.proper_default _).expression
    (Phrase.fits_spelling 0 e) hAllowed hStops.noCall hStops.loose

end Offside.Grammar

------------------------------------------------------------
-- Statements and Suites
------------------------------------------------------------

namespace Offside

mutual

/-
  The tokens of a statement at the indentation `width`, where
  every level is `step` deeper than the one around it.
-/
def Statement.tokens
    (step width : Int) :
    Statement →
    List Token
  | .phrase e => e.tokens
  | .returned e => Keyword.returned.token :: e.tokens
  | .branch cond yes no =>
      Keyword.condition.token :: (cond.tokens ++
        Token.operator ":" :: (yes.tokens step (width + step) ++
          Token.indentation width :: Keyword.otherwise.token ::
            Token.operator ":" :: no.tokens step (width + step)))
  | .loop x first last step' body =>
      Keyword.loop.token :: Token.identifier x.value ::
        Token.operator "=" :: (first.tokens ++
          Token.operator "," :: (last.tokens ++
            Token.operator "," :: (step'.tokens ++
              Keyword.within.token :: body.tokens)))

/- The tokens of a suite, each statement after its indentation. -/
def Suite.tokens
    (step width : Int) :
    Suite →
    List Token
  | .last s => Token.indentation width :: s.tokens step width
  | .more s others =>
      Token.indentation width ::
        (s.tokens step width ++ others.tokens step width)

end

/- The tokens of the first statement of a suite and of the others. -/
theorem Suite.exists_tokens
    (step width : Int)
    (suite : Suite) :
    ∃ ts, suite.tokens step width = Token.indentation width :: ts := by
  cases suite with
  | last s => exact ⟨_, rfl⟩
  | more s others => exact ⟨_, rfl⟩

end Offside

namespace Offside.Grammar

variable {step : Int}

/- The lines of a suite make a block. -/
theorem block_of_suite
    {suite : Suite}
    {width level : Int}
    (hDeeper : level < width + step)
    {t : Token}
    {rest : List Token}
    {n : Nat}
    (hLines :
      lines Precedence.default n (.whole (width + step))
          (.before (.whole (width + step))
            ((suite.tokens step (width + step)).tail ++ t :: rest)) =
        .ok suite.nodes
          ⟨t, rest,
            .whole (levelAfter step (width + step) (width + step)
              suite.trail)⟩) :
    block Precedence.default (n + 1)
        (.before (.whole level)
          (suite.tokens step (width + step) ++ t :: rest)) =
      .ok (.block suite.nodes)
        ⟨t, rest,
          .whole (levelAfter step width level (suite.trail + 1))⟩ := by
  rcases suite.exists_tokens step (width + step) with ⟨ts, hTokens⟩
  rw [hTokens] at hLines ⊢
  rw [← levelAfter_succ]
  exact block_of_lines (by simpa using hDeeper) (by simp) hLines

/- The lines of a suite go on after the first statement. -/
theorem lines_more
    {s : Statement}
    {width level left : Int}
    {n : Nat}
    (hFirst :
      ∀ ts,
        expression Precedence.default n
            (.before (.whole level)
              (s.tokens step width ++ Token.indentation width :: ts)) =
          .ok s.node ⟨Token.indentation width, ts, .whole left⟩)
    (others : Suite)
    (t : Token)
    (rest : List Token) :
    lines Precedence.default (n + 1) (.whole width)
        (.before (.whole level)
          (((Suite.more s others).tokens step width).tail ++ t :: rest)) =
      ((s.node :: ·) <$> lines Precedence.default n (.whole width))
        (.before (.whole left)
          ((others.tokens step width).tail ++ t :: rest)) := by
  rcases others.exists_tokens step width with ⟨ts, hTokens⟩
  have hAll :
      (Suite.more s others).tokens step width =
        Token.indentation width ::
          (s.tokens step width ++ Token.indentation width :: ts) := by
    rw [Suite.tokens, hTokens]
  rw [hAll, hTokens, List.tail_cons, List.tail_cons, List.append_assoc,
    List.cons_append]
  exact lines_next (hFirst _) (by simp)

mutual

/-
  From a level below its blocks, an expression takes just the
  tokens of a steady statement.
-/
theorem expression_statement
    (hStep : 0 < step)
    (s : Statement)
    (hSteady : s.Steady step)
    {width level : Int}
    (hLevel : s.trail ≠ 0 → level < width + step)
    {t : Token}
    (hEnd : t.EndsBlock (width + step))
    (hStops : t.Stops Precedence.default)
    {rest : List Token}
    {n : Nat}
    (hAllowed : 5 * (s.tokens step width).length + 1 ≤ n) :
    expression Precedence.default n
        (.before (.whole level) (s.tokens step width ++ t :: rest)) =
      .ok s.node
        ⟨t, rest, .whole (levelAfter step width level s.trail)⟩ := by
  cases s with
  | phrase e => exact expression_phrase e hStops hAllowed
  | returned e =>
      simp only [Statement.tokens, List.length_cons] at hAllowed
      obtain ⟨m, rfl⟩ : ∃ m, n = m + 3 := ⟨n - 3, by omega⟩
      refine expression_primary_stop
        Keyword.returned.kind_token_ne_operator ?_ hStops.loose
      rw [primary_returned rfl]
      exact Parse.returned_apply (by simp)
        (expression_phrase e hStops (by omega))
  | branch cond yes no =>
      rcases hSteady with ⟨hYesSteady, hSettles, hNoSteady⟩
      simp only [Statement.tokens, List.length_cons,
        List.length_append] at hAllowed
      obtain ⟨m, rfl⟩ : ∃ m, n = m + 4 := ⟨n - 4, by omega⟩
      refine expression_primary_stop
        Keyword.condition.kind_token_ne_operator ?_ hStops.loose
      rw [primary_branch rfl]
      -- Each block is opened from below its indentation.
      have hFirst : level < width + step :=
        hLevel (Nat.succ_ne_zero no.trail)
      have hSecond :
          levelAfter step width level (yes.trail + 1) < width + step :=
        levelAfter_lt hFirst hSettles
      have hInside : width + step < width + step + step := by omega
      have hYes :
          block Precedence.default (m + 1)
              (.before (.whole level)
                (yes.tokens step (width + step) ++
                  Token.indentation width :: Keyword.otherwise.token ::
                    Token.operator ":" ::
                      (no.tokens step (width + step) ++ t :: rest))) =
            .ok (.block yes.nodes)
              ⟨Token.indentation width, Keyword.otherwise.token ::
                Token.operator ":" ::
                  (no.tokens step (width + step) ++ t :: rest),
                .whole (levelAfter step width level (yes.trail + 1))⟩ :=
        block_of_suite hFirst
          (lines_suite hStep yes hYesSteady (fun _ => hInside)
            (Token.endsBlock_indentation (by omega))
            (Token.stops_indentation _ _) (by omega))
      have hNo :
          block Precedence.default (m + 1)
              (.before
                (.whole (levelAfter step width level (yes.trail + 1)))
                (no.tokens step (width + step) ++ t :: rest)) =
            .ok (.block no.nodes)
              ⟨t, rest,
                .whole (levelAfter step width level (no.trail + 1))⟩ :=
        block_of_suite hSecond
          (lines_suite hStep no hNoSteady (fun _ => hInside) hEnd
            hStops (by omega))
      simp only [Statement.tokens, List.cons_append,
        List.append_assoc]
      exact Parse.branch_else (by simp)
        (expression_phrase cond Token.stops_colon (by omega))
        (by simp) hYes (by simp) hNo
  | loop x first last step' body =>
      simp only [Statement.tokens, List.length_cons,
        List.length_append] at hAllowed
      obtain ⟨m, rfl⟩ : ∃ m, n = m + 3 := ⟨n - 3, by omega⟩
      refine expression_primary_stop
        Keyword.loop.kind_token_ne_operator ?_ hStops.loose
      rw [primary_loop rfl]
      simp only [Statement.tokens, List.cons_append,
        List.append_assoc]
      exact Parse.loop_apply (by simp) (by simp) (by simp) (by simp)
        (expression_phrase first Token.stops_comma (by omega))
        (expression_phrase last Token.stops_comma (by omega))
        (expression_phrase step' (Keyword.stops_token .within)
          (by omega))
        (expression_phrase body hStops (by omega))

/- The lines of a suite, after the indentation of the first. -/
theorem lines_suite
    (hStep : 0 < step)
    (suite : Suite)
    (hSteady : suite.Steady step)
    {width level : Int}
    (hLevel : suite.trail ≠ 0 → level < width + step)
    {t : Token}
    (hEnd : t.EndsBlock width)
    (hStops : t.Stops Precedence.default)
    {rest : List Token}
    {n : Nat}
    (hAllowed : 5 * (suite.tokens step width).length ≤ n + 1) :
    lines Precedence.default n (.whole width)
        (.before (.whole level)
          ((suite.tokens step width).tail ++ t :: rest)) =
      .ok suite.nodes
        ⟨t, rest, .whole (levelAfter step width level suite.trail)⟩ := by
  cases suite with
  | last s =>
      simp only [Suite.tokens, List.length_cons] at hAllowed
      obtain ⟨m, rfl⟩ : ∃ m, n = m + 1 := ⟨n - 1, by omega⟩
      exact lines_end
        (expression_statement hStep s hSteady hLevel
          (hEnd.mono (by omega)) hStops (by omega))
        hEnd
  | more s others =>
      rcases hSteady with ⟨hFirstSteady, hOthersSteady, hSettles⟩
      simp only [Suite.tokens, List.length_cons,
        List.length_append] at hAllowed
      obtain ⟨m, rfl⟩ : ∃ m, n = m + 1 := ⟨n - 1, by omega⟩
      have hFirst : ∀ ts,
          expression Precedence.default m
              (.before (.whole level)
                (s.tokens step width ++
                  Token.indentation width :: ts)) =
            .ok s.node ⟨Token.indentation width, ts, .whole _⟩ :=
        fun ts =>
          expression_statement hStep s hFirstSteady
            (fun hSome => hLevel (laterTrail_ne_zero_iff.mpr (.inl hSome)))
            (Token.endsBlock_indentation (by omega))
            (Token.stops_indentation _ _) (by omega)
      have hOthers :
          lines Precedence.default m (.whole width)
              (.before (.whole (levelAfter step width level s.trail))
                ((others.tokens step width).tail ++ t :: rest)) =
            .ok others.nodes ⟨t, rest, .whole _⟩ :=
        lines_suite hStep others hOthersSteady
          (fun hSome =>
            levelAfter_lt
              (hLevel (laterTrail_ne_zero_iff.mpr (.inr hSome)))
              (hSettles hSome))
          hEnd hStops (by omega)
      rw [lines_more hFirst, Steps.map_apply, hOthers,
        levelAfter_levelAfter]
      rfl

end

/-
  From a lower level, a block takes just the tokens of a steady
  suite.
-/
theorem block_suite
    (hStep : 0 < step)
    (suite : Suite)
    (hSteady : suite.Steady step)
    {width level : Int}
    (hDeeper : level < width + step)
    {t : Token}
    (hEnd : t.EndsBlock (width + step))
    (hStops : t.Stops Precedence.default)
    {rest : List Token}
    {n : Nat}
    (hAllowed : 5 * (suite.tokens step (width + step)).length ≤ n) :
    block Precedence.default n
        (.before (.whole level)
          (suite.tokens step (width + step) ++ t :: rest)) =
      .ok (.block suite.nodes)
        ⟨t, rest,
          .whole (levelAfter step width level (suite.trail + 1))⟩ := by
  rcases suite.exists_tokens step (width + step) with ⟨ts, hTokens⟩
  obtain ⟨m, rfl⟩ : ∃ m, n = m + 1 :=
    ⟨n - 1, by rw [hTokens, List.length_cons] at hAllowed; omega⟩
  exact block_of_suite hDeeper
    (lines_suite hStep suite hSteady (fun _ => by omega) hEnd hStops
      hAllowed)

end Offside.Grammar

------------------------------------------------------------
-- Items
------------------------------------------------------------

namespace Offside

/- The tokens of a signature. -/
def Signature.tokens
    (s : Signature) :
    List Token :=
  s.pieces.map Piece.token

/- The tokens of an item. -/
def Item.tokens
    (step : Int) :
    Item →
    List Token
  | external signature =>
      Keyword.external.token :: signature.tokens
  | function signature body =>
      Keyword.function.token :: (signature.tokens ++
        Token.operator ":" :: body.tokens step step)

/- Items start with a token that ends what stands before them. -/
theorem Item.head_tokens
    (step : Int)
    (items : List Item) :
    ∃ t ts,
      items.flatMap (tokens step) ++ [Token.finish] = t :: ts ∧
      t.kind ≠ .indent ∧ t.kind ≠ .unset ∧
      t.Stops Precedence.default := by
  cases items with
  | nil =>
      exact ⟨_, _, rfl, by decide, by decide, Token.stops_finish⟩
  | cons item items =>
      cases item with
      | external signature =>
          exact ⟨_, _, rfl, by decide, by decide,
            Keyword.external.stops_token⟩
      | function signature body =>
          exact ⟨_, _, rfl, by decide, by decide,
            Keyword.function.stops_token⟩

/- The allowance of their tokens suffices for items. -/
theorem Item.allowance_tokens
    {step : Int}
    {items : List Item}
    {t : Token}
    {ts : List Token}
    (hTokens :
      items.flatMap (tokens step) ++ [Token.finish] = t :: ts) :
    5 * (items.flatMap (tokens step)).length + 1 ≤
      Grammar.allowance ts.length := by
  have hLength := congrArg List.length hTokens
  simp only [List.length_append, List.length_cons, List.length_nil]
    at hLength
  rw [Grammar.allowance]
  omega

end Offside

namespace Offside.Parse

/- Parameters are taken up to the closing parenthesis. -/
theorem parametersFrom_pieces
    (params : List Name)
    (s : ParseState)
    (us : List Token) :
    parametersFrom s
        ((Signature.piecesOfParams params).map Piece.token ++
          Token.operator ")" :: us) =
      .ok (params.map Name.node)
        { s with current := Token.operator ")", rest := us } := by
  induction params generalizing s with
  | nil =>
      cases us with
      | nil => rfl
      | cons u us => rfl
  | cons x xs ih =>
      cases xs with
      | nil =>
          simp [Signature.piecesOfParams, parametersFrom,
            Token.identifier, variableOf, Name.node]
      | cons y ys =>
          have hOthers := ih { s with current := Token.operator "," }
          simp [Signature.piecesOfParams, parametersFrom,
            Token.identifier, variableOf, Name.node, hOthers]

/- A signature is taken up to what follows it. -/
theorem externPrototype_signature
    (signature : Signature)
    {us : List Token}
    (hSome : us ≠ [])
    (level : Amount) :
    externPrototype (.before level (signature.tokens ++ us)) =
      .ok signature.node (.before level us) := by
  have hParams := fun s =>
    parametersFrom_pieces signature.params s us
  simp [externPrototype, Signature.tokens, Signature.pieces,
    Steps.bind_apply, Steps.map_apply, expectKind_apply,
    expectOperator_apply, parameters, hParams, Token.identifier,
    Signature.node, Location.origin, advance_before _ _ hSome]

/- An item that is defined elsewhere. -/
theorem external_signature
    (signature : Signature)
    {us : List Token}
    (hSome : us ≠ [])
    (level : Amount)
    (t : Token) :
    external ⟨t, signature.tokens ++ us, level⟩ =
      .ok signature.node (.before level us) := by
  have hTokens : signature.tokens ++ us ≠ [] := by
    simp [hSome]
  rw [external, Steps.bind_apply, advance_before _ _ hTokens]
  exact externPrototype_signature signature hSome level

/- A function takes its signature and leaves the rest to its block. -/
theorem function_signature
    (signature : Signature)
    (block : Parse Node)
    {us : List Token}
    (hSome : us ≠ [])
    (level : Amount)
    (t : Token) :
    function block
        ⟨t, signature.tokens ++ Token.operator ":" :: us, level⟩ =
      (.function signature.node <$> block) (.before level us) := by
  have hTokens : signature.tokens ++ Token.operator ":" :: us ≠ [] := by
    simp
  have hProto :=
    externPrototype_signature signature
      (List.cons_ne_nil (Token.operator ":") us) level
  simp [function, functionPrototype, Steps.bind_apply, Steps.map_apply,
    advance_before _ _ hTokens, hProto, expectOperator_apply,
    advance_before _ _ hSome]

end Offside.Parse

namespace Offside.Grammar

/- Its first token tells what an item is. -/
theorem items_external
    {table : Precedence}
    {n : Nat}
    {s : ParseState}
    (hKind : s.current.kind = .kwExtern) :
    items table (n + 1) s =
      (do
        let item ← Parse.external
        let others ← items table n
        return item :: others : Parse (List Node)) s := by
  simp [items, Parse.items, Steps.bind_apply, hKind,
    Token.isOperator]

theorem items_function
    {table : Precedence}
    {n : Nat}
    {s : ParseState}
    (hKind : s.current.kind = .kwFunction) :
    items table (n + 1) s =
      (do
        let item ← Parse.function (block table n)
        let others ← items table n
        return item :: others : Parse (List Node)) s := by
  simp [items, Parse.items, Steps.bind_apply, hKind,
    Token.isOperator]

variable {step : Int}

/- One item before others. -/
theorem items_cons
    (hStep : 0 < step)
    (item : Item)
    (hSteady : item.Steady step)
    {level : Int}
    (hLevel : item.trail ≠ 0 → level < 0 + step)
    {t : Token}
    (hKind : t.kind ≠ .indent)
    (hStops : t.Stops Precedence.default)
    (ts : List Token)
    {n : Nat}
    (hAllowed : 5 * (item.tokens step).length ≤ n + 5) :
    items Precedence.default (n + 1)
        (.before (.whole level) (item.tokens step ++ t :: ts)) =
      ((item.node :: ·) <$> items Precedence.default n)
        ⟨t, ts, .whole (levelAfter step 0 level item.trail)⟩ := by
  cases item with
  | external signature =>
      have hItem := Parse.external_signature signature
        (List.cons_ne_nil t ts) (.whole level) Keyword.external.token
      rw [Item.tokens, List.cons_append, ParseState.before_cons,
        items_external rfl, Steps.bind_apply, hItem]
      rfl
  | function signature body =>
      simp only [Item.tokens, List.length_cons, List.length_append]
        at hAllowed
      have hBody :
          block Precedence.default n
              (.before (.whole level)
                (body.tokens step (0 + step) ++ t :: ts)) =
            .ok (.block body.nodes) ⟨t, ts, .whole _⟩ :=
        block_suite hStep body hSteady (hLevel (Nat.succ_ne_zero _))
          (Token.endsBlock_of_kind hKind _) hStops
          (by rw [zero_add]; omega)
      rw [zero_add] at hBody
      simp only [Item.tokens, List.cons_append, List.append_assoc]
      rw [ParseState.before_cons, items_function rfl,
        Steps.bind_apply, Parse.function_signature signature _ (by simp),
        Steps.map_apply, hBody]
      rfl

/- Steady items are parsed up to the end of the text. -/
theorem items_tokens
    (hStep : 0 < step)
    (its : List Item)
    (hSteady : Item.AllSteady step its)
    {level : Int}
    (hLevel : Item.lastTrail its ≠ 0 → level < 0 + step)
    {n : Nat}
    (hAllowed :
      5 * (its.flatMap (Item.tokens step)).length + 1 ≤ n) :
    items Precedence.default n
        (.before (.whole level)
          (its.flatMap (Item.tokens step) ++ [Token.finish])) =
      .ok (its.map Item.node)
        ⟨Token.finish, [],
          .whole (levelAfter step 0 level (Item.lastTrail its))⟩ := by
  obtain ⟨m, rfl⟩ : ∃ m, n = m + 1 := ⟨n - 1, by omega⟩
  induction its generalizing m level with
  | nil => rfl
  | cons item its ih =>
      rcases hSteady with ⟨hFirstSteady, hOthersSteady, hSettles⟩
      rcases Item.head_tokens step its with
        ⟨t, ts, hNext, hKind, _, hStops⟩
      have hSome : (item.tokens step).length ≠ 0 := by
        cases item <;> simp [Item.tokens]
      simp only [List.flatMap_cons, List.length_append] at hAllowed
      obtain ⟨k, rfl⟩ : ∃ k, m = k + 1 := ⟨m - 1, by omega⟩
      have hFirst := items_cons hStep item hFirstSteady
        (fun hSome => hLevel (laterTrail_ne_zero_iff.mpr (.inl hSome)))
        hKind hStops ts (n := k + 1) (by omega)
      have hOthers := ih hOthersSteady
        (fun hSome =>
          levelAfter_lt
            (hLevel (laterTrail_ne_zero_iff.mpr (.inr hSome)))
            (hSettles hSome))
        k (by omega)
      rw [hNext, ParseState.before_cons, levelAfter_levelAfter]
        at hOthers
      rw [List.flatMap_cons, List.append_assoc, hNext, hFirst,
        Steps.map_apply, hOthers]
      rfl

end Offside.Grammar
