import Mathlib
import Offside.Proofs.Program.Failures

/-
  Signatures: a name and the names of its parameters, as tokens
  and as what is parsed from them.

  Key definitions include:
    * `Offside.Token.Listed`
    * `Offside.Token.Parameters`
    * `Offside.Token.HasSignature`
    * `Offside.TokenList.afterTaking`

  Main statement:
    * `Offside.Parser.parse_prototype_iff`: prototypes are parsed
      from signatures only, from all of them, and to the names and
      the place they tell; otherwise an expected token is missing.
-/

------------------------------------------------------------
-- Signatures
------------------------------------------------------------

namespace Offside.Token

/- Tokens that are names, with a comma between any two of them. -/
inductive Listed :
    List Token →
    List Token →
    Prop where
  | last
      {t : Token}
      (hName : t.kind = .identifier) :
      Listed [t] [t]
  | cons
      {t comma : Token}
      {names ts : List Token}
      (hName : t.kind = .identifier)
      (hComma : comma.isOperator "," = true)
      (hMore : Listed names ts) :
      Listed (t :: names) (t :: comma :: ts)

/- No names, or listed names with or without a comma after them. -/
inductive Parameters :
    List Token →
    List Token →
    Prop where
  | none :
      Parameters [] []
  | listed
      {names ts : List Token}
      (hListed : Listed names ts) :
      Parameters names ts
  | trailing
      {names ts : List Token}
      {comma : Token}
      (hListed : Listed names ts)
      (hComma : comma.isOperator "," = true) :
      Parameters names (ts ++ [comma])

/- A name with parameters in parentheses, and the tokens after it. -/
def HasSignature
    (ts : List Token)
    (name : Token)
    (names after : List Token) :
    Prop :=
  ∃ opening inner closing,
    ts = name :: opening :: (inner ++ closing :: after) ∧
    name.kind = .identifier ∧
    opening.isOperator "(" = true ∧
    Parameters names inner ∧
    closing.isOperator ")" = true

/- One more name with a comma stands before parameters. -/
theorem Parameters.cons
    {t comma : Token}
    {names ts : List Token}
    (hName : t.kind = .identifier)
    (hComma : comma.isOperator "," = true)
    (hMore : Parameters names ts) :
    Parameters (t :: names) (t :: comma :: ts) := by
  cases hMore with
  | none => exact .trailing (.last hName) hComma
  | listed hListed => exact .listed (.cons hName hComma hListed)
  | trailing hListed hLast =>
      exact .trailing (.cons hName hComma hListed) hLast

theorem isOperator_ne
    {t : Token}
    {operator other : String}
    (hOperator : t.isOperator operator = true)
    (hOther : operator ≠ other) :
    t.isOperator other = false := by
  simp only [isOperator, Bool.and_eq_true, decide_eq_true_eq] at hOperator
  simp [isOperator, hOperator.2, hOther]

theorem kind_of_isOperator
    {t : Token}
    {operator : String}
    (hOperator : t.isOperator operator = true) :
    t.kind = .operator := by
  simp only [isOperator, Bool.and_eq_true, decide_eq_true_eq] at hOperator
  exact hOperator.1

end Offside.Token

------------------------------------------------------------
-- Parameters
------------------------------------------------------------

namespace Offside.Parse

open Token (Parameters)

/-
  Names are taken up to a token that is neither a name nor a
  comma.
-/
theorem parametersFrom_of_parameters
    {names inner : List Token}
    (hInner : Parameters names inner)
    {stop : Token}
    (hOperator : stop.isOperator "," = false)
    (hKind : stop.kind ≠ .identifier)
    (after : List Token)
    (s : ParseState) :
    parametersFrom s (inner ++ stop :: after) =
      .ok (names.map variableOf) ⟨stop, after, s.level⟩ := by
  have hNone : ∀ s : ParseState, parametersFrom s (stop :: after) =
      .ok [] ⟨stop, after, s.level⟩ := by
    intro s
    cases after <;> simp [parametersFrom, hKind]
  cases hInner with
  | none => exact hNone s
  | listed hListed =>
      induction hListed generalizing s with
      | last hName => simp [parametersFrom, hName, hOperator]
      | cons hName hComma hMore ih =>
          simp [parametersFrom, hName, hComma, ih]
  | trailing hListed hLast =>
      induction hListed generalizing s with
      | last hName => simp [parametersFrom, hName, hLast, hNone]
      | cons hName hComma hMore ih =>
          simp only [List.append_assoc, List.cons_append,
            List.nil_append] at ih ⊢
          simp [parametersFrom, hName, hComma, ih]

/- What is taken are parameters, if a parenthesis closes them. -/
theorem parameters_of_parametersFrom
    {s s' : ParseState}
    {ts : List Token}
    {args : List Node}
    (hRun : parametersFrom s ts = .ok args s')
    (hClosing : s'.current.isOperator ")" = true) :
    ∃ names inner,
      ts = inner ++ s'.current :: s'.rest ∧
      Parameters names inner ∧
      args = names.map variableOf ∧
      s'.level = s.level := by
  fun_induction parametersFrom s ts generalizing args s' with
  | case1 | case2 | case5 => cases hRun
  | case3 s t hKind | case7 s t u ts hKind =>
      cases hRun
      exact ⟨[], [], rfl, .none, rfl, rfl⟩
  | case4 s t u ts hName hComma nodes t' hMore ih =>
      cases hRun
      rcases ih hMore hClosing with
        ⟨names, inner, rfl, hInner, rfl, hLevel⟩
      exact ⟨t :: names, t :: u :: inner, rfl,
        hInner.cons hName hComma, rfl, hLevel⟩
  | case6 s t u ts hName hComma =>
      cases hRun
      exact ⟨[t], [t], rfl, .listed (.last hName), rfl, rfl⟩

/- In a text, tokens other than names and commas come in the end. -/
theorem exists_parametersFrom
    (s : ParseState)
    {ts : List Token}
    {e : Token}
    (hLast : ts.getLast? = some e)
    (hEnd : e.kind = .endOfText) :
    ∃ args s', parametersFrom s ts = .ok args s' := by
  fun_induction parametersFrom s ts with
  | case1 => cases hLast
  | case2 s t hName =>
      simp only [List.getLast?_singleton, Option.some.injEq] at hLast
      rw [hLast, hEnd] at hName
      cases hName
  | case5 s t u ts hName hComma e' t' hMore ih =>
      have hMoreLast : ts.getLast? = some e := by
        cases ts with
        | nil =>
            simp only [List.getLast?_cons_cons, List.getLast?_singleton,
              Option.some.injEq] at hLast
            rw [← hLast, Token.kind_of_isOperator hComma] at hEnd
            cases hEnd
        | cons v vs => exact hLast
      rcases ih hMoreLast with ⟨args, s', hOk⟩
      rw [hMore] at hOk
      cases hOk
  | case3 | case4 | case6 | case7 => exact ⟨_, _, rfl⟩

end Offside.Parse

------------------------------------------------------------
-- Prototypes
------------------------------------------------------------

namespace Offside.Parse

open Token (Parameters HasSignature)

/- The prototype that a signature stands for. -/
def prototypeOf
    (name : Token)
    (names : List Token) :
    Node :=
  .prototype name.value Node.floatType (names.map variableOf)
    name.location.line

theorem externPrototype_of_signature
    {s : ParseState}
    {name t : Token}
    {names ts : List Token}
    (hSignature : HasSignature s.tokens name names (t :: ts)) :
    externPrototype s = .ok (prototypeOf name names) ⟨t, ts, s.level⟩ := by
  rcases s with ⟨current, rest, level⟩
  rcases hSignature with
    ⟨opening, inner, closing, hTokens, hName, hOpening, hInner, hClosing⟩
  simp only [ParseState.tokens, List.cons.injEq] at hTokens
  rcases hTokens with ⟨rfl, rfl⟩
  have hParameters := parametersFrom_of_parameters hInner
    (Token.isOperator_ne hClosing (by decide))
    (by rw [Token.kind_of_isOperator hClosing]; decide) (t :: ts)
    ⟨opening, inner ++ closing :: t :: ts, level⟩
  simp [externPrototype, parameters, prototypeOf, Steps.bind_apply,
    Steps.map_apply, expectKind_apply, expectOperator_apply, hName,
    hOpening, hClosing, hParameters]

/- A text begins with a signature, or an expected token is missing. -/
theorem signature_or_expected
    {s : ParseState}
    {e : Token}
    (hLast : s.tokens.getLast? = some e)
    (hEnd : e.kind = .endOfText) :
    (∃ name names t ts, HasSignature s.tokens name names (t :: ts)) ∨
      ∃ what s', externPrototype s = .error (.expected what) s' := by
  rcases s with ⟨name, rest, level⟩
  -- What is not the end of the text has a token after it.
  have hNext : ∀ {t : Token} {ts : List Token},
      (t :: ts).getLast? = some e → t.kind ≠ .endOfText →
        ∃ u us, ts = u :: us ∧ (u :: us).getLast? = some e := by
    intro t ts hLast hOther
    cases ts with
    | nil =>
        rw [List.getLast?_singleton, Option.some.injEq] at hLast
        exact absurd (hLast ▸ hEnd) hOther
    | cons u us => exact ⟨u, us, rfl, hLast⟩
  by_cases hName : name.kind = .identifier
  case neg =>
    exact .inr ⟨.functionName, ⟨name, rest, level⟩, by
      simp [externPrototype, expectKind, Steps.bind_apply, hName]⟩
  rcases hNext hLast (by rw [hName]; decide) with
    ⟨opening, ts, rfl, hLast₁⟩
  by_cases hOpening : opening.isOperator "(" = true
  case neg =>
    exact .inr ⟨.openParameters, ⟨opening, ts, level⟩, by
      simp [externPrototype, expectKind_apply, expectOperator,
        Steps.bind_apply, hName, hOpening]⟩
  rcases hNext hLast₁
      (by rw [Token.kind_of_isOperator hOpening]; decide) with
    ⟨u, us, rfl, hLast₂⟩
  rcases exists_parametersFrom ⟨opening, u :: us, level⟩ hLast₂ hEnd with
    ⟨args, ⟨closing, after, level'⟩, hParameters⟩
  by_cases hClosing : closing.isOperator ")" = true
  case neg =>
    exact .inr ⟨.closeParameters, ⟨closing, after, level'⟩, by
      simp [externPrototype, parameters, expectKind_apply,
        expectOperator, Steps.bind_apply, hName, hOpening, hParameters,
        hClosing]⟩
  rcases parameters_of_parametersFrom hParameters hClosing with
    ⟨names, inner, hTokens, hInner, rfl, _⟩
  have hLast₃ : (closing :: after).getLast? = some e := by
    rw [hTokens, List.getLast?_append_cons] at hLast₂
    exact hLast₂
  rcases hNext hLast₃
      (by rw [Token.kind_of_isOperator hClosing]; decide) with
    ⟨t, ts, rfl, _⟩
  exact .inl ⟨name, names, t, ts, opening, inner, closing,
    by simp [ParseState.tokens, hTokens], hName, hOpening, hInner, hClosing⟩

/-
  The prototypes of a text: with or without a colon after it, a
  signature is parsed, and nothing else is.
-/
theorem externPrototype_eq_ok_iff
    {s : ParseState}
    {e : Token}
    (hLast : s.tokens.getLast? = some e)
    (hEnd : e.kind = .endOfText)
    (proto : Node)
    (s' : ParseState) :
    externPrototype s = .ok proto s' ↔
      ∃ name names t ts,
        HasSignature s.tokens name names (t :: ts) ∧
        proto = prototypeOf name names ∧
        s' = ⟨t, ts, s.level⟩ := by
  constructor
  · intro hRun
    rcases signature_or_expected hLast hEnd with
      ⟨name, names, t, ts, hSignature⟩ | ⟨what, u, hFail⟩
    · rw [externPrototype_of_signature hSignature] at hRun
      cases hRun
      exact ⟨name, names, t, ts, hSignature, rfl, rfl⟩
    · rw [hFail] at hRun
      cases hRun
  · rintro ⟨name, names, t, ts, hSignature, rfl, rfl⟩
    exact externPrototype_of_signature hSignature

/- The same with a colon after the signature. -/
theorem functionPrototype_eq_ok_iff
    {s : ParseState}
    {e : Token}
    (hLast : s.tokens.getLast? = some e)
    (hEnd : e.kind = .endOfText)
    (proto : Node)
    (s' : ParseState) :
    functionPrototype s = .ok proto s' ↔
      ∃ name names colon t ts,
        HasSignature s.tokens name names (colon :: t :: ts) ∧
        colon.isOperator ":" = true ∧
        proto = prototypeOf name names ∧
        s' = ⟨t, ts, s.level⟩ := by
  constructor
  · intro hRun
    rcases Steps.bind_eq_ok hRun with ⟨node, u, hExtern, hColon⟩
    rcases (externPrototype_eq_ok_iff hLast hEnd _ _).mp hExtern with
      ⟨name, names, colon, us, hSignature, rfl, rfl⟩
    rcases Steps.bind_eq_ok hColon with ⟨_, v, hExpect, hRest⟩
    rcases expectOperator_eq_ok hExpect with ⟨hOperator, rfl⟩
    cases us with
    | nil => cases hRest
    | cons t ts =>
        cases hRest
        exact ⟨name, names, colon, t, ts, hSignature, hOperator, rfl, rfl⟩
  · rintro ⟨name, names, colon, t, ts, hSignature, hColon, rfl, rfl⟩
    simp [functionPrototype, Steps.bind_apply, Steps.map_apply,
      externPrototype_of_signature hSignature, expectOperator_apply, hColon]

/- A prototype that is not parsed lacks a token that was expected. -/
theorem prototype_eq_error
    {s : ParseState}
    {e : Token}
    (hLast : s.tokens.getLast? = some e)
    (hEnd : e.kind = .endOfText)
    {proto : Parse Node}
    (hProto : proto = externPrototype ∨ proto = functionPrototype)
    {error : ParseError}
    {s' : ParseState}
    (hRun : proto s = .error error s') :
    ∃ what, error = .expected what := by
  have hExtern : ∀ {error s'}, externPrototype s = .error error s' →
      ∃ what, error = .expected what := by
    intro error s' hRun
    rcases signature_or_expected hLast hEnd with
      ⟨name, names, t, ts, hSignature⟩ | ⟨what, u, hFail⟩
    · rw [externPrototype_of_signature hSignature] at hRun
      cases hRun
    · rw [hFail] at hRun
      cases hRun
      exact ⟨what, rfl⟩
  rcases hProto with rfl | rfl
  · exact hExtern hRun
  rcases Steps.bind_eq_error hRun with hFail | ⟨node, u, hOk, hColon⟩
  · exact hExtern hFail
  rcases (externPrototype_eq_ok_iff hLast hEnd _ _).mp hOk with
    ⟨name, names, colon, us, hSignature, rfl, rfl⟩
  by_cases hOperator : colon.isOperator ":" = true
  case neg =>
    refine ⟨.functionColon, ?_⟩
    simp only [expectOperator, Steps.bind_apply, atOperator_apply,
      hOperator] at hColon
    cases hColon
    rfl
  -- A colon is not the end of the text.
  rcases hSignature with ⟨opening, inner, closing, hTokens, -⟩
  rw [hTokens, ← List.cons_append, ← List.cons_append,
    List.getLast?_append_cons] at hLast
  cases us with
  | nil =>
      rw [List.getLast?_cons_cons, List.getLast?_singleton,
        Option.some.injEq] at hLast
      rw [← hLast, Token.kind_of_isOperator hOperator] at hEnd
      cases hEnd
  | cons t ts =>
      simp [Steps.bind_apply, Steps.map_apply, expectOperator_apply,
        hOperator] at hColon

end Offside.Parse

------------------------------------------------------------
-- Prototypes in a Text
------------------------------------------------------------

namespace Offside

namespace TokenList

/- The list after that many tokens were taken, or all of them. -/
def afterTaking
    (tokens : List Token)
    (n : Nat) :
    TokenList :=
  (fun l => l.advance.2)^[n] (ofTokens tokens)

/- Taking a token leaves the last one in its place. -/
theorem getLast?_advance
    (l : TokenList) :
    (l.advance.2.current :: l.advance.2.rest).getLast? =
      (l.current :: l.rest).getLast? := by
  cases hRest : l.rest with
  | nil => simp [advance, get, hRest]
  | cons t ts =>
      have hMore : l.tokens.drop (l.position + 1) = ts := by
        rw [← List.tail_drop]
        exact congrArg List.tail hRest
      have hAdvance : l.advance.2 =
          { l with position := l.position + 1, current := t } := by
        simp [advance, get, hRest]
      rw [hAdvance, List.getLast?_cons_cons]
      exact congrArg (fun us => (t :: us).getLast?) hMore

theorem getLast?_afterTaking
    {tokens : List Token}
    (hSome : tokens ≠ [])
    (n : Nat) :
    ((afterTaking tokens n).current ::
        (afterTaking tokens n).rest).getLast? =
      tokens.getLast? := by
  induction n with
  | zero =>
      rcases List.exists_cons_of_ne_nil hSome with ⟨t, ts, rfl⟩
      rfl
  | succ n ih =>
      rw [afterTaking, Function.iterate_succ_apply', getLast?_advance]
      exact ih

end TokenList

namespace Parser

open Parse (prototypeOf)
open Token (HasSignature)

theorem suffix_of_hasSignature
    {p : Parser}
    {name : Token}
    {names after : List Token}
    (hSignature : HasSignature p.state.tokens name names after) :
    after <:+ p.tokens.tokens := by
  rcases hSignature with ⟨opening, inner, closing, hTokens, -⟩
  have hRest : p.tokens.rest = opening :: (inner ++ closing :: after) :=
    (List.cons.inj hTokens).2
  have hAfter : after <:+ p.tokens.rest :=
    ⟨opening :: (inner ++ [closing]), by simp [hRest]⟩
  exact hAfter.trans (List.drop_suffix _ _)

theorem run_eq_error_iff
    {α : Type}
    {p p' : Parser}
    {step : Parse α}
    {e : ParseError} :
    p.run step = (.error e, p') ↔
      ∃ s, step p.state = .error e s ∧ p' = p.resume s := by
  unfold run
  cases step p.state with
  | ok b s => simp
  | error e' s => simp [eq_comm]

/-
  Prototypes in the tokens of a text, wherever the parser is.  It
  parses a prototype if and only if a signature begins at the
  current token, with a colon after it for a function.  The
  prototype has the name and the parameters of the signature, and
  the parser stops at the token after it.  Otherwise it reports
  which token it expected.
-/
theorem parse_prototype_iff
    (s : Scanner)
    (hBuffer : s.input.direct = false)
    (text : String)
    (tokens : List Token)
    (hLex : s.lexText text = .ok tokens)
    (p : Parser)
    (n : Nat)
    (hCursor : p.tokens = TokenList.afterTaking tokens n) :
    (∀ proto p',
      p.parseForm .externPrototype = (.ok proto, p') ↔
        ∃ name names t ts,
          HasSignature p.state.tokens name names (t :: ts) ∧
          proto = prototypeOf name names ∧
          p' = p.resume ⟨t, ts, p.level⟩ ∧
          p'.tokens.rest = ts) ∧
    (∀ proto p',
      p.parseForm .functionPrototype = (.ok proto, p') ↔
        ∃ name names colon t ts,
          HasSignature p.state.tokens name names (colon :: t :: ts) ∧
          colon.isOperator ":" = true ∧
          proto = prototypeOf name names ∧
          p' = p.resume ⟨t, ts, p.level⟩ ∧
          p'.tokens.rest = ts) ∧
    ∀ form, form = .externPrototype ∨ form = .functionPrototype →
      ∀ error p', p.parseForm form = (.error error, p') →
        ∃ what, error = .expected what := by
  rcases Scanner.exists_of_lexText hBuffer hLex with ⟨us, e, rfl, hEnd, _⟩
  have hKind : e.kind = .endOfText := congrArg Token.kind hEnd
  have hLast : p.state.tokens.getLast? = some e := by
    have hTaken := TokenList.getLast?_afterTaking
      (List.append_ne_nil_of_right_ne_nil us (List.cons_ne_nil e [])) n
    rw [← hCursor, List.getLast?_append_cons] at hTaken
    exact hTaken
  have hExtern := Parse.externPrototype_eq_ok_iff hLast hKind
  have hFunction := Parse.functionPrototype_eq_ok_iff hLast hKind
  refine ⟨fun proto p' => run_eq_ok_iff.trans ?_,
    fun proto p' => run_eq_ok_iff.trans ?_, ?_⟩
  · constructor
    · rintro ⟨s', hRun, rfl⟩
      rcases (hExtern _ _).mp hRun with
        ⟨name, names, t, ts, hSignature, rfl, rfl⟩
      have hSuffix := suffix_of_hasSignature hSignature
      exact ⟨name, names, t, ts, hSignature, rfl, rfl,
        rest_resume ((List.suffix_cons t ts).trans hSuffix)⟩
    · rintro ⟨name, names, t, ts, hSignature, rfl, rfl, _⟩
      exact ⟨_, (hExtern _ _).mpr
        ⟨name, names, t, ts, hSignature, rfl, rfl⟩, rfl⟩
  · constructor
    · rintro ⟨s', hRun, rfl⟩
      rcases (hFunction _ _).mp hRun with
        ⟨name, names, colon, t, ts, hSignature, hColon, rfl, rfl⟩
      have hSuffix := suffix_of_hasSignature hSignature
      refine ⟨name, names, colon, t, ts, hSignature, hColon, rfl, rfl,
        rest_resume (List.IsSuffix.trans ?_ hSuffix)⟩
      exact ⟨[colon, t], rfl⟩
    · rintro ⟨name, names, colon, t, ts, hSignature, hColon, rfl, rfl, _⟩
      exact ⟨_, (hFunction _ _).mpr
        ⟨name, names, colon, t, ts, hSignature, hColon, rfl, rfl⟩, rfl⟩
  · intro form hForm error p' hParse
    rcases run_eq_error_iff.mp hParse with ⟨s', hRun, _⟩
    refine Parse.prototype_eq_error hLast hKind ?_ hRun
    rcases hForm with rfl | rfl
    · exact .inl rfl
    · exact .inr rfl

/- The tokens of `fn f(a, b,): c`. -/
def trailingTokens :
    List Token :=
  [⟨.kwFunction, .text "fn", ⟨0, 3⟩⟩,
    ⟨.identifier, .text "f", ⟨0, 5⟩⟩,
    ⟨.operator, .text "(", ⟨0, 6⟩⟩,
    ⟨.identifier, .text "a", ⟨0, 7⟩⟩,
    ⟨.operator, .text ",", ⟨0, 8⟩⟩,
    ⟨.identifier, .text "b", ⟨0, 10⟩⟩,
    ⟨.operator, .text ",", ⟨0, 11⟩⟩,
    ⟨.operator, .text ")", ⟨0, 12⟩⟩,
    ⟨.operator, .text ":", ⟨0, 13⟩⟩,
    ⟨.identifier, .text "c", ⟨0, 15⟩⟩,
    ⟨.endOfText, .text "", ⟨0, 16⟩⟩]

/- A parser at a token of them. -/
def beforeTrailing
    (n : Nat) :
    Parser :=
  ofTokens (TokenList.afterTaking trailingTokens n)

theorem parse_prototype_iff_trailing :
    (Scanner.ofInput Input.empty).lexText "fn f(a, b,): c" =
      .ok trailingTokens ∧
    (∃ p',
      (beforeTrailing 2).parseForm .functionPrototype =
        (.ok (.prototype (.text "f") Node.floatType
          [.reference (.text "a") Node.floatType ⟨0, 7⟩,
            .reference (.text "b") Node.floatType ⟨0, 10⟩] 0), p') ∧
      p'.tokens.current = ⟨.identifier, .text "c", ⟨0, 15⟩⟩ ∧
      p'.tokens.rest = [⟨.endOfText, .text "", ⟨0, 16⟩⟩]) ∧
    ∃ what p',
      (beforeTrailing 1).parseForm .externPrototype =
        (.error (.expected what), p') := by
  have hLex : (Scanner.ofInput Input.empty).lexText "fn f(a, b,): c" =
      .ok trailingTokens := by
    decide +kernel
  have hAt := fun n => parse_prototype_iff (Scanner.ofInput Input.empty)
    rfl _ _ hLex (beforeTrailing n) n rfl
  have hInner : Token.Parameters
      [⟨.identifier, .text "a", ⟨0, 7⟩⟩,
        ⟨.identifier, .text "b", ⟨0, 10⟩⟩]
      ([⟨.identifier, .text "a", ⟨0, 7⟩⟩,
        ⟨.operator, .text ",", ⟨0, 8⟩⟩,
        ⟨.identifier, .text "b", ⟨0, 10⟩⟩] ++
        [⟨.operator, .text ",", ⟨0, 11⟩⟩]) :=
    .trailing (.cons rfl rfl (.last rfl)) rfl
  have hSignature : HasSignature (beforeTrailing 2).state.tokens
      ⟨.identifier, .text "f", ⟨0, 5⟩⟩
      [⟨.identifier, .text "a", ⟨0, 7⟩⟩,
        ⟨.identifier, .text "b", ⟨0, 10⟩⟩]
      [⟨.operator, .text ":", ⟨0, 13⟩⟩,
        ⟨.identifier, .text "c", ⟨0, 15⟩⟩,
        ⟨.endOfText, .text "", ⟨0, 16⟩⟩] :=
    ⟨_, _, _, rfl, rfl, rfl, hInner, rfl⟩
  refine ⟨hLex, ⟨_, ((hAt 2).2.1 _ _).mpr
    ⟨_, _, _, _, _, hSignature, rfl, rfl, rfl, rfl⟩, rfl, rfl⟩, ?_⟩
  rcases (hAt 1).2.2 .externPrototype (.inl rfl) _ _ rfl with
    ⟨what, hWhat⟩
  cases hWhat
  exact ⟨_, _, rfl⟩

end Parser

end Offside
