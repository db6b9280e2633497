import Mathlib
import Offside.Proofs.Layout.Lone
import Offside.Proofs.Parser.Continue
import Offside.Proofs.Program.RoundTrip

/-
  Programs one after the other: the tokens of two programs are
  parsed to the nodes of the first and then those of the second.

  Main statements:
    * `Offside.Reading.inner`: which tokens a text is read as.
    * `Offside.Parser.parse_items_iff`: a program is parsed just
      when its items are.
    * `Offside.Parser.parse_append`: two programs that are parsed
      by themselves are parsed together, if the first leaves no
      level open and the second starts with a token that
      continues nothing.
-/

------------------------------------------------------------
-- Tokens of a Text
------------------------------------------------------------

namespace Offside

/- A value that does not bind in the table of the language. -/
theorem Precedence.default_of_eq
    {value : Value}
    (hLoose : Precedence.default.of value < 0) :
    Precedence.default.of value = -1 := by
  cases value with
  | amount a => rfl
  | text operator =>
      simp only [of] at hLoose ⊢
      cases hLookup : Precedence.default.entries.lookup operator with
      | none => rfl
      | some precedence =>
          have hEntries :
              ∀ entry ∈ Precedence.default.entries, 0 ≤ entry.2 := by
            decide
          rcases List.lookup_eq_some_iff.mp hLookup with
            ⟨before, after, hSplit, _⟩
          have hMem := hEntries (operator, precedence)
            (by rw [hSplit]; simp)
          simp only [hLookup, Option.getD_some] at hLoose
          omega

/- A number read without a sign is not below zero. -/
theorem Binary64.ofRatio_nonneg
    (num den : Nat) :
    (Amount.real (ofRatio false num den)).same (.whole 0) = true ∨
      (Amount.whole 0).less (.real (ofRatio false num den)) = true := by
  unfold ofRatio
  split
  · rename_i significand exponent _
    simp [Amount.same, Amount.less, Amount.place?, place?, Place.same,
      Place.less]
    omega
  · exact .inr rfl

/- A token that a text can be read as before its end. -/
structure Token.Read
    (t : Token) :
    Prop extends Token.Inner t where
  begun : t.kind ≠ .unset
  loose : t.kind ≠ .operator → Precedence.default.of t.value = -1

/- A lexeme before the end of a text stands for such a token. -/
theorem Lexeme.read_content
    {lineStart : Bool}
    {text : List Char}
    {kind : Kind}
    {value : Value}
    (hContent : (scan lineStart text).content = .ok (kind, value))
    (hKind : kind ≠ .endOfText) :
    Token.Read { kind := kind, value := value } := by
  have hWords : ∀ word, Kind.ofWord word ≠ .unset := by
    intro word
    have hKeywords : ∀ entry ∈ Kind.keywords, entry.2 ≠ .unset := by
      decide
    rcases Kind.ofWord_cases word with hKeyword | ⟨hName, _⟩
    · exact hKeywords _ hKeyword
    · rw [hName]
      decide
  unfold content at hContent
  cases hShape : (scan lineStart text).shape with
  | indent width =>
      rw [hShape] at hContent
      cases hContent
      refine ⟨⟨hKind, ?_⟩, by simp, fun _ => rfl⟩
      rintro a ⟨rfl⟩
      simp [Amount.same, Amount.less, Amount.place?,
        Binary64.Place.same, Binary64.Place.less]
      omega
  | word =>
      rw [hShape] at hContent
      rcases scan_word hShape with ⟨c, cs, hChars, hWord⟩
      rw [hChars] at hContent
      cases hContent
      exact ⟨⟨hKind, fun _ hAmount => by cases hAmount⟩, hWords _,
        fun _ => Precedence.default_of_eq
          (Precedence.default_of_word hWord)⟩
  | number =>
      rw [hShape] at hContent
      dsimp only at hContent
      split at hContent
      · rename_i d _
        cases hContent
        refine ⟨⟨hKind, ?_⟩, by simp, fun _ => rfl⟩
        rintro a ⟨rfl⟩
        unfold Decimal.toBinary64
        split
        all_goals exact Binary64.ofRatio_nonneg _ _
      · cases hContent
  | symbol =>
      rw [hShape] at hContent
      cases hContent
      exact ⟨⟨hKind, fun _ hAmount => by cases hAmount⟩, by simp,
        fun hOther => absurd rfl hOther⟩
  | finish =>
      rw [hShape] at hContent
      cases hContent
      exact absurd rfl hKind

/- A text is read as such tokens and the end. -/
theorem Reading.inner
    {lineStart : Bool}
    {text : List Char}
    {ts : List Token}
    (hReading : Reading lineStart text ts) :
    ∃ us, ts = us ++ [Token.finish] ∧ ∀ t ∈ us, t.Read := by
  induction hReading with
  | finish hShape => exact ⟨[], rfl, fun t hMem => by cases hMem⟩
  | cons hContent hKind hRest ih =>
      rcases ih with ⟨us, rfl, hRead⟩
      refine ⟨_ :: us, rfl, ?_⟩
      intro t hMem
      rcases List.mem_cons.mp hMem with rfl | hMem
      · exact Lexeme.read_content hContent hKind
      · exact hRead t hMem

/- The same of the tokens with their locations. -/
theorem Scanner.read_of_lexText
    {s : Scanner}
    (hBuffer : s.input.direct = false)
    {text : String}
    {ts : List Token}
    {e : Token}
    (hLex : s.lexText text = .ok (ts ++ [e])) :
    e.unlocated = Token.finish ∧ ∀ t ∈ ts, t.Read := by
  have hReading :=
    (exists_lexText_eq_ok_iff hBuffer text _).mp ⟨_, hLex, rfl⟩
  rcases hReading.inner with ⟨us, hSame, hRead⟩
  rw [List.map_append] at hSame
  rcases List.append_inj' hSame rfl with ⟨hInit, hLast⟩
  refine ⟨List.singleton_inj.mp hLast, fun t hMem => ?_⟩
  have hUnlocated := hRead t.unlocated
    (hInit ▸ List.mem_map_of_mem hMem)
  exact ⟨⟨hUnlocated.kind, hUnlocated.amount⟩, hUnlocated.begun,
    hUnlocated.loose⟩

/-
  Of the tokens of a text, those that are no indentation, no
  `else` and no operator but a semicolon can stand at the end of
  another text.
-/
theorem Token.Read.parts
    {t e : Token}
    (hRead : t.Read)
    (hEnd : e.unlocated = Token.finish)
    (hIndent : t.kind ≠ .indent)
    (hElse : t.kind ≠ .kwElse)
    (hOperator : t.kind = .operator → t.value = .text ";") :
    Token.Parts Precedence.default e t where
  finish := congrArg Token.kind hEnd
  looseEnd := by
    have hValue : e.value = .text "" := congrArg Token.value hEnd
    rw [hValue]
    decide
  loose := by
    by_cases hKind : t.kind = .operator
    · rw [hOperator hKind]
      decide
    · exact hRead.loose hKind
  indent := hIndent
  noElse := hElse
  operator := by
    intro s hOther _
    by_cases hKind : t.kind = .operator
    · simp [Token.isOperator, hOperator hKind, hOther.symm]
    · simp [Token.isOperator, hKind]

/- So can the end of another text. -/
theorem Token.parts_finish
    {e e' : Token}
    (hEnd : e.unlocated = Token.finish)
    (hEnd' : e'.unlocated = Token.finish) :
    Token.Parts Precedence.default e e' := by
  have hKind : e'.kind = .endOfText := congrArg Token.kind hEnd'
  have hValue : e.value = .text "" := congrArg Token.value hEnd
  have hValue' : e'.value = .text "" := congrArg Token.value hEnd'
  refine ⟨congrArg Token.kind hEnd, ?_, ?_, ?_, ?_, ?_⟩
  · rw [hValue]
    decide
  · rw [hValue']
    decide
  · rw [hKind]
    decide
  · rw [hKind]
    decide
  · intro s _ _
    simp [Token.isOperator, hKind]

end Offside

------------------------------------------------------------
-- Programs and Items
------------------------------------------------------------

namespace Offside.Parser

/- The run of a parser that starts with some tokens. -/
theorem parse_items_iff
    {p : Parser}
    (hTable : p.table = Precedence.default)
    {ts : List Token}
    (hSome : ts ≠ [])
    (hBegun : ∀ t ∈ ts, t.kind ≠ .unset)
    (name : String)
    (node : Node)
    (level : Amount) :
    (∃ p',
      p.parse (TokenList.ofTokens ts) name = (.ok node, p') ∧
      p'.level = level) ↔
    ∃ nodes s,
      Grammar.items Precedence.default
          (Grammar.allowance (ts.length - 1)) (.before (.whole 0) ts) =
        .ok nodes s ∧
      node = .program name nodes ∧
      s.level = level := by
  cases ts with
  | nil => exact absurd rfl hSome
  | cons t ts =>
      let q : Parser :=
        { p.reset with tokens := TokenList.ofTokens (t :: ts) }
      have hProgram := program_apply Precedence.default
        (hBegun t List.mem_cons_self) ts name
      rw [Steps.map_apply] at hProgram
      have hParse :
          p.parse (TokenList.ofTokens (t :: ts)) name =
            q.run (program Precedence.default name) := by
        rw [← hTable]
        rfl
      have hState : q.state = ⟨Token.unset, t :: ts, .whole 0⟩ := rfl
      rw [hParse, run, hState, hProgram, List.length_cons,
        Nat.add_sub_cancel]
      cases Grammar.items Precedence.default
          (Grammar.allowance ts.length) (.before (.whole 0) (t :: ts)) with
      | ok found s =>
          constructor
          · rintro ⟨p', hSame, hLevel⟩
            cases hSame
            exact ⟨found, s, rfl, rfl, hLevel⟩
          · rintro ⟨nodes, s', hSame, rfl, hLevel⟩
            cases hSame
            exact ⟨_, rfl, hLevel⟩
      | error e s =>
          constructor
          · rintro ⟨p', hSame, _⟩
            cases hSame
          · rintro ⟨nodes, s', hSame, _⟩
            cases hSame

end Offside.Parser

------------------------------------------------------------
-- Two Programs
------------------------------------------------------------

namespace Offside.Grammar

/- The end of a text is the end of its items. -/
theorem items_finish
    (table : Precedence)
    (n : Nat)
    {e : Token}
    (hEnd : e.kind = .endOfText)
    (ts : List Token)
    (level : Amount) :
    items table (n + 1) ⟨e, ts, level⟩ = .ok [] ⟨e, ts, level⟩ := by
  rw [items, Parse.items, Steps.bind_ok (Parse.current_apply _),
    if_pos hEnd]
  rfl

/- No expression starts with `else`. -/
theorem expression_else
    (table : Precedence)
    (n : Nat)
    {t : Token}
    (hElse : t.kind = .kwElse)
    (ts : List Token)
    (level : Amount)
    (node : Node)
    (u : ParseState) :
    expression table n ⟨t, ts, level⟩ ≠ .ok node u := by
  intro hRun
  match n with
  | 0 => cases hRun
  | 1 => cases hRun
  | 2 =>
      rcases Steps.bind_eq_ok hRun with ⟨lhs, v, hUnary, _⟩
      rw [unary, Parse.unary, Steps.bind_ok (Parse.current_apply _),
        if_pos (.inl (by simp [hElse]))] at hUnary
      cases hUnary
  | n + 3 =>
      rcases Steps.bind_eq_ok hRun with ⟨lhs, v, hUnary, _⟩
      rw [unary, Parse.unary, Steps.bind_ok (Parse.current_apply _),
        if_pos (.inl (by simp [hElse])), primary, Parse.primary,
        Steps.bind_ok (Parse.current_apply _), hElse] at hUnary
      exact Parse.Follows.unknown_ne_ok _ _ _ hUnary

/- No item starts with `else`. -/
theorem items_else
    (table : Precedence)
    (n : Nat)
    {t : Token}
    (hElse : t.kind = .kwElse)
    (ts : List Token)
    (level : Amount)
    (nodes : List Node)
    (u : ParseState) :
    items table n ⟨t, ts, level⟩ ≠ .ok nodes u := by
  intro hRun
  cases n with
  | zero => cases hRun
  | succ n =>
      rw [items, Parse.items, Steps.bind_ok (Parse.current_apply _),
        if_neg (by simp [hElse]),
        if_neg (by simp [Token.isOperator, hElse])] at hRun
      rcases Steps.bind_eq_ok hRun with ⟨node, v, hItem, _⟩
      simp only [hElse] at hItem
      exact expression_else table n hElse ts level node v hItem

/-
  Items are parsed from another level of zero as they are from
  the outermost one, also with a larger allowance.
-/
theorem items_relevel
    {n : Nat}
    {ts : List Token}
    (hRead : ∀ t ∈ ts, t.Read)
    {e e' : Token}
    (hEnd : e.unlocated = Token.finish)
    (hEnd' : e'.unlocated = Token.finish)
    {nodes : List Node}
    {v : ParseState}
    (hRun :
      items Precedence.default n (.before (.whole 0) (ts ++ [e])) =
        .ok nodes v)
    {m : Nat}
    (hAllowed : n ≤ m)
    (hLeft : 1 + ts.length ≤ m)
    {level : Amount}
    (hZero : level.IsZero) :
    ∃ u,
      items Precedence.default m (.before level (ts ++ [e'])) =
        .ok nodes u := by
  have hContinues :
      ParseState.Continues Amount.Alike e e' []
        (.before (.whole 0) (ts ++ [e])) (.before level (ts ++ [e'])) :=
    ParseState.continues_before (fun t hMem => (hRead t hMem).toInner)
      (.inr ⟨rfl, hZero⟩)
  have hKind : e'.kind = .endOfText := congrArg Token.kind hEnd'
  have hOthers : ∀ m level, 1 ≤ m → v.level.Alike level →
      ∃ u, items Precedence.default m ⟨e', [], level⟩ = .ok [] u := by
    intro m level hPos _
    rcases Nat.exists_eq_add_of_le' hPos with ⟨k, rfl⟩
    exact ⟨_, items_finish _ k hKind [] level⟩
  have hLength :
      1 + (ParseState.before (.whole 0) (ts ++ [e])).rest.length ≤ m := by
    cases ts <;> simp at hLeft ⊢ <;> omega
  rcases
      items_continues (Token.parts_finish hEnd hEnd') hContinues hRun
        hOthers hAllowed hLength with
    ⟨u, hItems⟩
  rw [List.append_nil] at hItems
  exact ⟨u, hItems⟩

/-
  The items of two texts one after the other, where the first
  token of the second continues nothing in the first.
-/
theorem items_append
    {ts us : List Token}
    (hRead : ∀ t ∈ ts, t.Read)
    (hRead' : ∀ t ∈ us, t.Read)
    {e e' finish : Token}
    (hEnd : e.unlocated = Token.finish)
    (hEnd' : e'.unlocated = Token.finish)
    (hFinish : finish.unlocated = Token.finish)
    (hFirst : ∀ t ∈ us.head?,
      t.kind ≠ .indent ∧ (t.kind = .operator → t.value = .text ";"))
    {nodes nodes' : List Node}
    {v v' : ParseState}
    (hRun :
      items Precedence.default (allowance ts.length)
          (.before (.whole 0) (ts ++ [e])) =
        .ok nodes v)
    (hZero : v.level.IsZero)
    (hRun' :
      items Precedence.default (allowance us.length)
          (.before (.whole 0) (us ++ [e'])) =
        .ok nodes' v') :
    ∃ u,
      items Precedence.default (allowance (ts ++ us).length)
          (.before (.whole 0) (ts ++ us ++ [finish])) =
        .ok (nodes ++ nodes') u := by
  have hStart :
      ∃ t rest, us ++ [finish] = t :: rest ∧
        Token.Parts Precedence.default e t := by
    cases us with
    | nil => exact ⟨finish, [], rfl, Token.parts_finish hEnd hFinish⟩
    | cons u us =>
        rcases hFirst u rfl with ⟨hIndent, hOperator⟩
        refine ⟨u, us ++ [finish], rfl,
          (hRead' u List.mem_cons_self).parts hEnd hIndent ?_ hOperator⟩
        intro hElse
        exact items_else _ _ hElse _ _ _ _ hRun'
  rcases hStart with ⟨t, rest, hCons, hParts⟩
  have hOthers : ∀ m level, allowance us.length ≤ m →
      v.level.Alike level →
      ∃ u, items Precedence.default m ⟨t, rest, level⟩ =
        .ok nodes' u := by
    intro m level hAllowed hAlike
    have hLeft : 1 + us.length ≤ m := by
      unfold allowance at hAllowed
      omega
    have hRelevel := items_relevel hRead' hEnd' hFinish hRun' hAllowed
      hLeft (hAlike.isZero hZero)
    rw [hCons] at hRelevel
    exact hRelevel
  have hContinues :
      ParseState.Continues Amount.Alike e t rest
        (.before (.whole 0) (ts ++ [e]))
        (.before (.whole 0) (ts ++ t :: rest)) :=
    ParseState.continues_before (fun t hMem => (hRead t hMem).toInner)
      (.inl rfl)
  have hAllowed :
      allowance ts.length ≤ allowance (ts ++ us).length := by
    simp only [allowance, List.length_append]
    omega
  have hLeft :
      allowance us.length +
          (ParseState.before (.whole 0) (ts ++ [e])).rest.length ≤
        allowance (ts ++ us).length := by
    cases ts <;> simp [allowance]
    all_goals omega
  rw [List.append_assoc, hCons]
  exact items_continues hParts hContinues hRun hOthers hAllowed hLeft

end Offside.Grammar

namespace Offside.Parser

/-
  Two texts are read and parsed, each by itself; the first leaves
  the level of indentation at zero, and the first token of the
  second is neither an indentation nor an operator other than a
  semicolon.  Then the tokens of the first, those of the second
  and an end are parsed to the nodes of the first followed by
  those of the second.
-/
theorem parse_append
    (scanner : Scanner)
    (hBuffer : scanner.input.direct = false)
    (text text' : String)
    (ts us : List Token)
    (e e' finish : Token)
    (hLex : scanner.lexText text = .ok (ts ++ [e]))
    (hLex' : scanner.lexText text' = .ok (us ++ [e']))
    (hFinish : finish.unlocated = Token.finish)
    (p q q' : Parser)
    (hTable : p.table = Precedence.default)
    (name : String)
    (nodes nodes' : List Node)
    (hParse :
      p.parse (TokenList.ofTokens (ts ++ [e])) name =
        (.ok (.program name nodes), q))
    (hLevel : q.level.same (.whole 0) = true)
    (hParse' :
      p.parse (TokenList.ofTokens (us ++ [e'])) name =
        (.ok (.program name nodes'), q'))
    (hFirst : ∀ t ∈ us.head?,
      t.kind ≠ .indent ∧ (t.kind = .operator → t.value = .text ";")) :
    ∃ p',
      p.parse (TokenList.ofTokens (ts ++ us ++ [finish])) name =
        (.ok (.program name (nodes ++ nodes')), p') := by
  rcases Scanner.read_of_lexText hBuffer hLex with ⟨hEnd, hRead⟩
  rcases Scanner.read_of_lexText hBuffer hLex' with ⟨hEnd', hRead'⟩
  have hBegun : ∀ {vs : List Token} {t : Token},
      (∀ v ∈ vs, v.Read) → t.unlocated = Token.finish →
      ∀ v ∈ vs ++ [t], v.kind ≠ .unset := by
    intro vs t hAll hLast v hMem
    rcases List.mem_append.mp hMem with hInit | hSingle
    · exact (hAll v hInit).begun
    · have hKind : v.unlocated.kind = .endOfText := by
        rw [List.mem_singleton.mp hSingle, hLast]
        rfl
      rw [← Token.kind_unlocated, hKind]
      decide
  -- Each parse by itself is a run of the items.
  rcases
      (parse_items_iff hTable (by simp) (hBegun hRead hEnd) name
        (.program name nodes) q.level).mp ⟨q, hParse, rfl⟩ with
    ⟨found, s, hItems, hNodes, hOuter⟩
  rcases
      (parse_items_iff hTable (by simp) (hBegun hRead' hEnd') name
        (.program name nodes') q'.level).mp ⟨q', hParse', rfl⟩ with
    ⟨found', s', hItems', hNodes', _⟩
  cases hNodes
  cases hNodes'
  rw [← hOuter] at hLevel
  rw [List.length_append, List.length_singleton,
    Nat.add_sub_cancel] at hItems hItems'
  rcases
      Grammar.items_append hRead hRead' hEnd hEnd' hFinish hFirst hItems
        hLevel hItems' with
    ⟨u, hTogether⟩
  have hBegunBoth : ∀ t ∈ ts ++ us ++ [finish], t.kind ≠ .unset := by
    refine hBegun ?_ hFinish
    intro v hMem
    exact (List.mem_append.mp hMem).elim (hRead v) (hRead' v)
  rcases
      (parse_items_iff hTable (by simp) hBegunBoth name
        (.program name (nodes ++ nodes')) u.level).mpr
        ⟨_, u, by simpa using hTogether, rfl, rfl⟩ with
    ⟨p', hBoth, _⟩
  exact ⟨p', hBoth⟩

/- The tokens of `fn f(x):` and a line `x`. -/
def sampleFirst :
    List Token :=
  [⟨.kwFunction, .text "fn", ⟨0, 3⟩⟩,
    ⟨.identifier, .text "f", ⟨0, 5⟩⟩,
    ⟨.operator, .text "(", ⟨0, 6⟩⟩,
    ⟨.identifier, .text "x", ⟨0, 7⟩⟩,
    ⟨.operator, .text ")", ⟨0, 8⟩⟩,
    ⟨.operator, .text ":", ⟨1, 0⟩⟩,
    ⟨.indent, .amount (.whole 2), ⟨1, 3⟩⟩,
    ⟨.identifier, .text "x", ⟨1, 4⟩⟩]

/- The tokens of `; x < y`. -/
def sampleSecond :
    List Token :=
  [⟨.operator, .text ";", ⟨0, 2⟩⟩,
    ⟨.identifier, .text "x", ⟨0, 4⟩⟩,
    ⟨.operator, .text "<", ⟨0, 6⟩⟩,
    ⟨.identifier, .text "y", ⟨0, 8⟩⟩]

theorem parse_append_sample :
    ∃ e e' q q' node node' p',
      (Scanner.ofInput Input.empty).lexText "fn f(x):\n  x" =
        .ok (sampleFirst ++ [e]) ∧
      (Scanner.ofInput Input.empty).lexText "; x < y" =
        .ok (sampleSecond ++ [e']) ∧
      new.parse (TokenList.ofTokens (sampleFirst ++ [e])) "main" =
        (.ok (.program "main" [node]), q) ∧
      q.level.same (.whole 0) = true ∧
      new.parse (TokenList.ofTokens (sampleSecond ++ [e'])) "main" =
        (.ok (.program "main" [node']), q') ∧
      new.parse
          (TokenList.ofTokens (sampleFirst ++ sampleSecond ++ [e']))
          "main" =
        (.ok (.program "main" [node, node']), p') := by
  have hLex :
      (Scanner.ofInput Input.empty).lexText "fn f(x):\n  x" =
        .ok (sampleFirst ++ [⟨.endOfText, .text "", ⟨1, 5⟩⟩]) := by
    decide +kernel
  have hLex' :
      (Scanner.ofInput Input.empty).lexText "; x < y" =
        .ok (sampleSecond ++ [⟨.endOfText, .text "", ⟨0, 9⟩⟩]) := by
    decide +kernel
  have hFirst : ∀ t ∈ sampleSecond.head?,
      t.kind ≠ .indent ∧ (t.kind = .operator → t.value = .text ";") := by
    decide
  have hFinish :
      Token.unlocated ⟨.endOfText, .text "", ⟨0, 9⟩⟩ = Token.finish := by
    decide
  rcases
      parse_append (Scanner.ofInput Input.empty) rfl _ _ _ _ _ _ _ hLex
        hLex' hFinish new _ _ rfl "main" _ _ rfl rfl rfl hFirst with
    ⟨p', hBoth⟩
  exact ⟨_, _, _, _, _, _, p', hLex, hLex', rfl, rfl, rfl, hBoth⟩

end Offside.Parser
