import Mathlib
import Offside.Proofs.Parser.Ending
import Offside.Proofs.Parser.Termination
import Offside.Proofs.Program.Concatenation

/-
  How the parsing of a text can fail: with an error of the
  parser's own, past the last token, or in the comparison of a
  text with a level of indentation.

  Key definitions include:
    * `Offside.ParseError.isOwn`
    * `Offside.Parser.SeeksExpression`
    * `Offside.Parser.SeeksBlock`

  Main statement:
    * `Offside.Parser.parse_failures`: a parser runs past the last
      token if and only if an expression or a block is sought at
      the end of the text, and compares a text if and only if a
      block is sought at it.
-/

------------------------------------------------------------
-- Tokens of a Text
------------------------------------------------------------

namespace Offside

/- No word is read as a number. -/
theorem Kind.ofWord_ne_floatLiteral
    (word : String) :
    ofWord word ≠ .floatLiteral := by
  have hKeywords : ∀ entry ∈ keywords, entry.2 ≠ .floatLiteral := by
    decide
  rcases ofWord_cases word with hKeyword | ⟨hName, _⟩
  · exact hKeywords _ hKeyword
  · rw [hName]
    decide

/- Indentations and numbers, and no others, are read with an amount. -/
theorem Lexeme.apt_content
    {lineStart : Bool}
    {text : List Char}
    {kind : Kind}
    {value : Value}
    (hContent : (scan lineStart text).content = .ok (kind, value)) :
    Token.Apt { kind := kind, value := value } := by
  unfold Token.Apt
  unfold content at hContent
  cases hShape : (scan lineStart text).shape with
  | indent width =>
      rw [hShape] at hContent
      cases hContent
      simp
  | number =>
      rw [hShape] at hContent
      dsimp only at hContent
      split at hContent
      · cases hContent
        simp
      · cases hContent
  | word =>
      rw [hShape] at hContent
      simp only [Except.ok.injEq, Prod.mk.injEq] at hContent
      rw [← hContent.1, ← hContent.2]
      simp [(Kind.ofWord_ne _).2, Kind.ofWord_ne_floatLiteral]
  | symbol =>
      rw [hShape] at hContent
      cases hContent
      simp
  | finish =>
      rw [hShape] at hContent
      cases hContent
      simp

theorem Reading.apt
    {lineStart : Bool}
    {text : List Char}
    {ts : List Token}
    (hReading : Reading lineStart text ts) :
    ∀ t ∈ ts, t.Apt := by
  induction hReading with
  | finish hShape =>
      intro t hMem
      rw [List.mem_singleton.mp hMem]
      simp [Token.Apt, Token.finish]
  | cons hContent hKind hRest ih =>
      exact List.forall_mem_cons.mpr ⟨Lexeme.apt_content hContent, ih⟩

/- The tokens of a text: apt ones that have begun, and the end. -/
theorem Scanner.exists_of_lexText
    {s : Scanner}
    (hBuffer : s.input.direct = false)
    {text : String}
    {tokens : List Token}
    (hLex : s.lexText text = .ok tokens) :
    ∃ ts e, tokens = ts ++ [e] ∧ e.unlocated = Token.finish ∧
      ∀ t ∈ ts, t.Read ∧ t.Apt := by
  have hReading :=
    (exists_lexText_eq_ok_iff hBuffer text _).mp ⟨_, hLex, rfl⟩
  rcases hReading.inner with ⟨us, hSame, _⟩
  rcases List.map_eq_append_iff.mp hSame with ⟨ts, last, rfl, _, hLast⟩
  rcases List.map_eq_singleton_iff.mp hLast with ⟨e, rfl, _⟩
  rcases read_of_lexText hBuffer hLex with ⟨hEnd, hRead⟩
  refine ⟨ts, e, rfl, hEnd, fun t hMem => ⟨hRead t hMem, ?_⟩⟩
  exact hReading.apt t.unlocated
    (List.mem_map_of_mem (List.mem_append_left [e] hMem))

/- A text begins with its first token. -/
theorem Scanner.begun_of_lexText
    {s : Scanner}
    (hBuffer : s.input.direct = false)
    {text : String}
    {tokens : List Token}
    (hLex : s.lexText text = .ok tokens) :
    ∀ t ∈ tokens, t.kind ≠ .unset := by
  rcases exists_of_lexText hBuffer hLex with
    ⟨ts, e, rfl, hFinish, hTokens⟩
  intro t hMem
  rcases List.mem_append.mp hMem with hMem | hMem
  · exact (hTokens t hMem).1.begun
  · have hKind : e.kind = .endOfText := congrArg Token.kind hFinish
    rw [List.mem_singleton.mp hMem, hKind]
    nofun

end Offside

------------------------------------------------------------
-- Items and the End
------------------------------------------------------------

namespace Offside

theorem ParseState.followedBy_before
    {ts : List Token}
    (hSome : ts ≠ [])
    (level : Amount)
    (more : List Token) :
    (before level ts).followedBy more = before level (ts ++ more) := by
  cases ts with
  | nil => exact absurd rfl hSome
  | cons t ts => rfl

namespace Grammar

open Parse (Heeds Swap)

variable {table : Precedence}
variable {e : Token}
variable {ts : List Token}
variable {n : Nat}
variable {level : Amount}

/-
  The tokens are not enough if and only if, with one end more, it
  is the first of the two that is taken and found to be wrong.
-/
theorem items_past_iff
    (hEnd : e.IsEnd table)
    (hInner : ∀ t ∈ ts, t.kind ≠ .endOfText) :
    (∃ s, items table n (.before level (ts ++ [e])) =
      .error .endOfTokens s) ↔
    ∃ error s,
      items table n (.before level (ts ++ [e, e])) = .error error s ∧
      s.rest = [] ∧
      (error = .unknownToken e.name ∨
        ∃ found, error = .incomparable ">" found) := by
  have hLocal := isLocal_items table n
  have hLonger : (ParseState.before level (ts ++ [e])).followedBy [e] =
      .before level (ts ++ [e, e]) := by
    rw [ParseState.followedBy_before (by simp), List.append_assoc]
    rfl
  constructor
  · rintro ⟨s, hShort⟩
    have hTaken := hLocal.past (List.cons_ne_nil e []) hShort
    have hOpen : ParseState.Open e (.before level (ts ++ [e, e])) :=
      ⟨ts, hInner, ParseState.tokens_before (by simp)⟩
    have hStays := (items_heeds hEnd ⟨e, e, e, e, hEnd.text⟩ n _).stays
      _ rfl hOpen
    rw [hLonger] at hTaken
    have hNever : ∀ t : ParseState, t.rest.length < 1 → ¬t.Open e := by
      intro t hNone hLater
      rcases hLater.exists_rest with ⟨u, us, hRest⟩
      simp [hRest] at hNone
    cases hRun : items table n (.before level (ts ++ [e, e])) with
    | ok nodes t =>
        rw [hRun] at hTaken hStays
        exact absurd hStays (hNever t hTaken)
    | error error t =>
        rw [hRun] at hTaken hStays
        rcases hStays with hLater | ⟨hRest, hError⟩
        · exact absurd hLater (hNever t hTaken)
        · exact ⟨error, t, rfl, hRest, hError⟩
  · rintro ⟨error, t, hRun, hRest, hError⟩
    rw [← hLonger] at hRun
    cases hShort : items table n (.before level (ts ++ [e])) with
    | ok nodes s =>
        rw [hLocal.ok [e] hShort] at hRun
        cases hRun
    | error error' s =>
        by_cases hPast : error' = .endOfTokens
        · exact ⟨s, by rw [hPast]⟩
        · rw [hLocal.error [e] hPast hShort] at hRun
          cases hRun
          simp [ParseState.followedBy] at hRest

/- A state with two tokens ahead ends with two others than the first. -/
theorem exists_of_long
    (hLong : ¬(ParseState.before level ts).rest.length ≤ 1) :
    ∃ before x y, before ≠ [] ∧ ts = before ++ [x, y] := by
  have hCount : (ParseState.before level ts).rest.length =
      ts.length - 1 := by
    cases ts <;> rfl
  rw [hCount] at hLong
  have hLast : (ts.drop (ts.length - 2)).length = 2 := by
    rw [List.length_drop]
    omega
  rcases List.length_eq_two.mp hLast with ⟨x, y, hTwo⟩
  refine ⟨ts.take (ts.length - 2), x, y, ?_, ?_⟩
  · apply List.ne_nil_of_length_pos
    rw [List.length_take]
    omega
  · rw [← hTwo, List.take_append_drop]

/-
  A comparison that fails is that of a text where a block is
  sought: it would have failed in the same way at the end.
-/
theorem items_incomparable
    (hEnd : e.IsEnd table)
    {s : ParseState}
    {sign : String}
    {found : Amount}
    (hApt : ∀ t ∈ ts, t.Apt)
    (hSome : ts ≠ [])
    (hRun : items table n (.before level ts) =
      .error (.incomparable sign found) s) :
    sign = ">" ∧
    ∃ before t after w s',
      ts = before ++ t :: after ∧ after ≠ [] ∧ t.value = .text w ∧
      items table n (.before level (before ++ [e, e])) =
        .error (.incomparable ">" found) s' ∧
      s'.rest = [] := by
  have hSuffix := (orderly_items table n).suffix (.before level ts)
  rw [hRun, ParseState.tokens_before hSome] at hSuffix
  rcases hSuffix with ⟨taken, hTokens⟩
  -- The run depends on the tokens up to the current one only.
  let front := taken ++ [s.current]
  have hFront : front ++ s.rest = ts := by
    rw [← hTokens]
    simp [front, Parse.stateOf, ParseState.tokens]
  have hFrontSome : front ≠ [] := by simp [front]
  rw [← hFront, ← ParseState.followedBy_before hFrontSome] at hRun
  rcases (isLocal_items table n).error_of_followed hRun le_rfl (by simp) with
    ⟨u, hState, hSame⟩
  have hRest : u.rest = [] := by
    have hCount := congrArg (fun t : ParseState => t.rest.length) hState
    simp only [ParseState.followedBy, List.length_append] at hCount
    exact List.length_eq_zero_iff.mp (by omega)
  have hShort := hSame []
  simp only [ParseState.followedBy, List.append_nil] at hShort
  have hFrontApt : (ParseState.before level front).Apt := by
    intro t hMem
    rw [ParseState.tokens_before hFrontSome] at hMem
    exact hApt t (hFront ▸ List.mem_append_left _ hMem)
  have hHeeds := fun swap : Swap =>
    items_heeds hEnd swap n (ParseState.before level front).current
  by_cases hFew : (ParseState.before level front).rest.length ≤ 1
  · have hQuiet := (hHeeds ⟨e, e, e, e, hEnd.text⟩).quiet _ rfl hFrontApt
      hFew
    exact absurd hShort (hQuiet _ _ _)
  · rcases exists_of_long hFew with ⟨before, x, y, hBefore, hSplit⟩
    have hEcho := (items_heeds hEnd ⟨x, y, e, e, hEnd.text⟩ n _).echo
      (.before level before) rfl
    rw [ParseState.followedBy_before hBefore,
      ParseState.followedBy_before hBefore] at hEcho
    rw [hSplit] at hShort hFrontApt
    rcases hEcho hFrontApt _ _ _ hShort hRest with
      ⟨hSign, ⟨w, hText⟩, s', hRun', hRest'⟩
    subst hSign
    refine ⟨rfl, before, x, y :: s.rest, w, s', ?_, by simp, hText, hRun',
      hRest'⟩
    rw [← hFront, hSplit]
    simp

/-
  Where a block is sought, the comparison of any text fails, and
  what comes after the next token does not matter.
-/
theorem items_of_block_sought
    (hEnd : e.IsEnd table)
    {before after : List Token}
    {t : Token}
    {w : String}
    {found : Amount}
    {s : ParseState}
    (hApt : ∀ t ∈ before, t.Apt)
    (hRun : items table n (.before level (before ++ [e, e])) =
      .error (.incomparable ">" found) s)
    (hRest : s.rest = [])
    (hText : t.value = .text w)
    (hAfter : after ≠ []) :
    ∃ s', items table n (.before level (before ++ t :: after)) =
      .error (.incomparable ">" found) s' := by
  rcases List.exists_cons_of_ne_nil hAfter with ⟨y, others, rfl⟩
  have hBefore : before ≠ [] := by
    rintro rfl
    cases n with
    | zero => cases hRun
    | succ n =>
        rw [List.nil_append, ParseState.before_cons,
          items_finish table n hEnd.kind] at hRun
        cases hRun
  have hAll : ParseState.Apt (.before level (before ++ [e, e])) := by
    intro u hMem
    rw [ParseState.tokens_before (by simp)] at hMem
    rcases List.mem_append.mp hMem with hMem | hMem
    · exact hApt u hMem
    · have hSame : u = e := by simpa using hMem
      exact hSame ▸ hEnd.apt
  have hEcho := (items_heeds hEnd ⟨e, e, t, y, w, hText⟩ n _).echo
    (.before level before) rfl
  rw [ParseState.followedBy_before hBefore,
    ParseState.followedBy_before hBefore] at hEcho
  rcases hEcho hAll _ _ _ hRun hRest with ⟨_, _, s', hRun', _⟩
  have hLonger := (isLocal_items table n).error others (by simp) hRun'
  rw [ParseState.followedBy_before (by simp)] at hLonger
  exact ⟨_, by simpa using hLonger⟩

end Grammar

end Offside

------------------------------------------------------------
-- Programs
------------------------------------------------------------

namespace Offside

/- The errors that a check of the parser reports. -/
def ParseError.isOwn :
    ParseError →
    Bool
  | endOfTokens | incomparable _ _ | tooDeep => false
  | noNewBlock | deeperIndentation | unknownToken _ | missingColon _ _
  | expected _ => true

theorem ParseError.ok_or_isOwn_iff
    {α : Type}
    (r : Except ParseError α) :
    ((∃ a, r = .ok a) ∨
        ∃ error, error.isOwn = true ∧ r = .error error) ↔
      r ≠ .error .endOfTokens ∧
      (∀ sign, ¬∃ level, r = .error (.incomparable sign level)) ∧
      r ≠ .error .tooDeep := by
  cases r with
  | ok a => simp
  | error error => cases error <;> simp [isOwn]

namespace Parser

/-
  With two ends after the tokens `ts` the parser fails with this
  error, after it has taken both.
-/
def StopsAtEnd
    (p : Parser)
    (name : String)
    (e : Token)
    (ts : List Token)
    (error : ParseError) :
    Prop :=
  ∃ p',
    p.parse (TokenList.ofTokens (ts ++ [e, e])) name = (.error error, p') ∧
    p'.tokens.position = ts.length + 2

/- After these tokens there has to be an expression. -/
def SeeksExpression
    (p : Parser)
    (name : String)
    (e : Token)
    (ts : List Token) :
    Prop :=
  p.StopsAtEnd name e ts (.unknownToken e.name)

/- After these tokens there has to be a block. -/
def SeeksBlock
    (p : Parser)
    (name : String)
    (e : Token)
    (ts : List Token) :
    Prop :=
  ∃ level, p.StopsAtEnd name e ts (.incomparable ">" level)

variable (p : Parser)
variable (name : String)
variable {n : Nat}

/- A program is refused for the reason for which its items are. -/
theorem fst_parse_eq_error_iff
    {ts : List Token}
    (hSome : ts ≠ [])
    (hBegun : ∀ t ∈ ts, t.kind ≠ .unset)
    (hEnough : Grammar.allowance ts.length ≤ n)
    (error : ParseError) :
    (p.parse (TokenList.ofTokens ts) name).1 = .error error ↔
      ∃ s, Grammar.items p.table n (.before (.whole 0) ts) =
        .error error s := by
  have hParse := parse_eq_error_iff p name hSome hBegun hEnough error
  constructor
  · intro hFail
    rcases (hParse (p.parse (TokenList.ofTokens ts) name).2).mp
        (Prod.ext hFail rfl) with ⟨s, hRun, _⟩
    exact ⟨s, hRun⟩
  · rintro ⟨s, hRun⟩
    rw [(hParse _).mpr ⟨s, hRun, rfl⟩]

theorem stopsAtEnd_iff
    {ts : List Token}
    {e : Token}
    (hBegun : ∀ t ∈ ts ++ [e, e], t.kind ≠ .unset)
    (hEnough : Grammar.allowance (ts.length + 2) ≤ n)
    (error : ParseError) :
    p.StopsAtEnd name e ts error ↔
      ∃ s,
        Grammar.items p.table n (.before (.whole 0) (ts ++ [e, e])) =
          .error error s ∧
        s.rest = [] := by
  have hLength : (ts ++ [e, e]).length = ts.length + 2 := by simp
  have hPosition : ∀ s : ParseState,
      ((p.started (ts ++ [e, e])).resume s).tokens.position =
        ts.length + 2 ↔ s.rest = [] := by
    intro s
    rw [← List.length_eq_zero_iff, ← hLength]
    change (ts ++ [e, e]).length - _ = _ ↔ _
    omega
  have hParse := parse_eq_error_iff p name (by simp) hBegun
    (hLength ▸ hEnough) error
  unfold StopsAtEnd
  constructor
  · rintro ⟨p', hFail, hTaken⟩
    rcases (hParse p').mp hFail with ⟨s, hRun, rfl⟩
    exact ⟨s, hRun, (hPosition s).mp hTaken⟩
  · rintro ⟨s, hRun, hRest⟩
    exact ⟨_, (hParse _).mpr ⟨s, hRun, rfl⟩, (hPosition s).mpr hRest⟩

section

variable {ts : List Token}
variable {e : Token}
variable (hEnd : e.IsEnd p.table)
variable (hTokens : ∀ t ∈ ts, t.Read ∧ t.Apt)
include hEnd hTokens

theorem kind_ne_unset
    {us : List Token}
    (hUs : ∀ t ∈ us, t = e)
    {before : List Token}
    (hBefore : before <+: ts) :
    ∀ t ∈ before ++ us, t.kind ≠ .unset := by
  intro t hMem
  rcases List.mem_append.mp hMem with hMem | hMem
  · exact (hTokens t (hBefore.subset hMem)).1.begun
  · rw [hUs t hMem, hEnd.kind]
    nofun

/- The parser runs past the last token. -/
theorem parse_past_iff :
    (p.parse (TokenList.ofTokens (ts ++ [e])) name).1 =
        .error .endOfTokens ↔
      p.SeeksExpression name e ts ∨ p.SeeksBlock name e ts := by
  have hStops := stopsAtEnd_iff p name (e := e)
    (kind_ne_unset p hEnd hTokens (by simp) (List.prefix_refl ts))
    (Nat.le_refl _)
  rw [fst_parse_eq_error_iff p name (by simp)
      (kind_ne_unset p hEnd hTokens (by simp) (List.prefix_refl ts))
      (n := Grammar.allowance (ts.length + 2))
      (Grammar.allowance_mono (by simp)),
    Grammar.items_past_iff hEnd fun t hMem => (hTokens t hMem).1.kind]
  unfold SeeksExpression SeeksBlock
  simp only [hStops]
  constructor
  · rintro ⟨error, s, hRun, hRest, rfl | ⟨found, rfl⟩⟩
    · exact .inl ⟨s, hRun, hRest⟩
    · exact .inr ⟨found, s, hRun, hRest⟩
  · rintro (⟨s, hRun, hRest⟩ | ⟨found, s, hRun, hRest⟩)
    · exact ⟨_, s, hRun, hRest, .inl rfl⟩
    · exact ⟨_, s, hRun, hRest, .inr ⟨found, rfl⟩⟩

/- A text is compared with a level. -/
theorem parse_incomparable_iff
    (sign : String) :
    (∃ level, (p.parse (TokenList.ofTokens (ts ++ [e])) name).1 =
        .error (.incomparable sign level)) ↔
      sign = ">" ∧
        ∃ before t after w,
          ts = before ++ t :: after ∧
          t.value = .text w ∧
          p.SeeksBlock name e before := by
  have hApt : ∀ t ∈ ts ++ [e], t.Apt := by
    intro t hMem
    rcases List.mem_append.mp hMem with hMem | hMem
    · exact (hTokens t hMem).2
    · exact List.mem_singleton.mp hMem ▸ hEnd.apt
  have hStops : ∀ {before}, before <+: ts → ∀ error,
      p.StopsAtEnd name e before error ↔ ∃ s,
        Grammar.items p.table (Grammar.allowance (ts.length + 2))
          (.before (.whole 0) (before ++ [e, e])) = .error error s ∧
        s.rest = [] :=
    fun hBefore => stopsAtEnd_iff p name
      (kind_ne_unset p hEnd hTokens (by simp) hBefore)
      (Grammar.allowance_mono (Nat.add_le_add_right hBefore.length_le 2))
  simp only [fst_parse_eq_error_iff p name (List.concat_ne_nil e ts)
    (kind_ne_unset p hEnd hTokens (by simp) (List.prefix_refl ts))
    (n := Grammar.allowance (ts.length + 2))
    (Grammar.allowance_mono (by simp))]
  constructor
  · rintro ⟨level, s, hRun⟩
    rcases Grammar.items_incomparable hEnd hApt (by simp) hRun with
      ⟨hSign, before, t, after, w, s', hSplit, hAfter, hText, hRun', hRest⟩
    rcases List.eq_nil_or_concat after with hNone | ⟨others, u, rfl⟩
    · exact absurd hNone hAfter
    have hInit : ts = before ++ t :: others := by
      rw [List.concat_eq_append, ← List.cons_append,
        ← List.append_assoc] at hSplit
      exact List.append_inj_left' hSplit rfl
    have hBefore : before <+: ts := ⟨t :: others, hInit.symm⟩
    exact ⟨hSign, before, t, others, w, hInit, hText, level,
      (hStops hBefore _).mpr ⟨s', hRun', hRest⟩⟩
  · rintro ⟨rfl, before, t, after, w, rfl, hText, level, hSought⟩
    rcases (hStops (List.prefix_append _ _) _).mp hSought with
      ⟨s, hRun, hRest⟩
    rcases Grammar.items_of_block_sought hEnd
        (fun t hMem => (hTokens t (by simp [hMem])).2) hRun hRest hText
        (List.concat_ne_nil e after) with ⟨s', hRun'⟩
    exact ⟨level, s', by simpa using hRun'⟩

/- The allowance of a program is never used up. -/
theorem parse_ne_tooDeep :
    (p.parse (TokenList.ofTokens (ts ++ [e])) name).1 ≠
      .error .tooDeep := by
  intro hDeep
  rcases (fst_parse_eq_error_iff p name (by simp)
      (kind_ne_unset p hEnd hTokens (by simp) (List.prefix_refl ts))
      (Nat.le_refl _) _).mp hDeep with ⟨s, hRun⟩
  refine (Grammar.items_settles p.table ?_ (Nat.le_refl _)).allowed _
    (Nat.le_refl _) s hRun
  have hFewer : (ParseState.before (.whole 0) (ts ++ [e])).rest.length ≤
      (ts ++ [e]).length := by
    cases ts <;> simp
  unfold Grammar.allowance
  omega

end

/- The end of a text is an end of tokens. -/
theorem isEnd_of_finish
    {p : Parser}
    (hLoose : p.table.of (.text "") < 0)
    {e : Token}
    (hEnd : e.unlocated = Token.finish) :
    e.IsEnd p.table := by
  have hValue : e.value = .text "" := congrArg Token.value hEnd
  refine ⟨congrArg Token.kind hEnd, ⟨"", hValue⟩, ?_⟩
  rw [hValue]
  exact hLoose

/-
  How the parsing of a text can fail, for a table that does not
  bind the end of the text.  The parser runs past the last token
  if and only if an expression or a block is sought at the end of
  the text.  It compares a text with a level, always by `>`, if
  and only if a block is sought at a token that has no amount.
  Otherwise it gives a program or one of its own errors.
-/
theorem parse_failures
    (s : Scanner)
    (hBuffer : s.input.direct = false)
    (text : String)
    (tokens : List Token)
    (hLex : s.lexText text = .ok tokens)
    (p : Parser)
    (hLoose : p.table.of (.text "") < 0)
    (name : String) :
    ∃ ts e,
      tokens = ts ++ [e] ∧
      e.kind = .endOfText ∧
      ((p.parse (TokenList.ofTokens tokens) name).1 =
          .error .endOfTokens ↔
        p.SeeksExpression name e ts ∨ p.SeeksBlock name e ts) ∧
      (∀ sign,
        (∃ level, (p.parse (TokenList.ofTokens tokens) name).1 =
          .error (.incomparable sign level)) ↔
        sign = ">" ∧
          ∃ before t after w,
            ts = before ++ t :: after ∧
            t.value = .text w ∧
            p.SeeksBlock name e before) ∧
      ((∃ node, (p.parse (TokenList.ofTokens tokens) name).1 = .ok node) ∨
        (∃ error, error.isOwn = true ∧
          (p.parse (TokenList.ofTokens tokens) name).1 = .error error) ↔
        ¬p.SeeksExpression name e ts ∧
        ¬p.SeeksBlock name e ts ∧
        ∀ before t after,
          ts = before ++ t :: after →
          p.SeeksBlock name e before →
          ∃ a, t.value = .amount a) := by
  rcases Scanner.exists_of_lexText hBuffer hLex with
    ⟨ts, e, rfl, hFinish, hTokens⟩
  have hEnd := isEnd_of_finish hLoose hFinish
  have hPast := parse_past_iff p name hEnd hTokens
  have hCompared := parse_incomparable_iff p name hEnd hTokens
  refine ⟨ts, e, rfl, hEnd.kind, hPast, hCompared, ?_⟩
  rw [ParseError.ok_or_isOwn_iff, ne_eq, hPast, not_or, and_assoc]
  refine and_congr_right fun _ => and_congr_right fun _ => ?_
  simp only [hCompared]
  constructor
  · rintro ⟨hNone, _⟩ before t after hSplit hSought
    cases hValue : t.value with
    | amount a => exact ⟨a, rfl⟩
    | text w =>
        exact absurd ⟨rfl, before, t, after, w, hSplit, hValue, hSought⟩
          (hNone ">")
  · intro hAmounts
    refine ⟨?_, parse_ne_tooDeep p name hEnd hTokens⟩
    rintro sign ⟨_, before, t, after, w, hSplit, hValue, hSought⟩
    rcases hAmounts before t after hSplit hSought with ⟨a, hAmount⟩
    rw [hValue] at hAmount
    cases hAmount

/- The tokens of `if a: b`, where no block is opened. -/
def inlineTokens :
    List Token :=
  [⟨.kwIf, .text "if", ⟨0, 3⟩⟩,
    ⟨.identifier, .text "a", ⟨0, 5⟩⟩,
    ⟨.operator, .text ":", ⟨0, 6⟩⟩,
    ⟨.identifier, .text "b", ⟨0, 8⟩⟩,
    ⟨.endOfText, .text "", ⟨0, 9⟩⟩]

/- The tokens of `x +`, where an operand is missing. -/
def cutTokens :
    List Token :=
  [⟨.identifier, .text "x", ⟨0, 2⟩⟩,
    ⟨.operator, .text "+", ⟨0, 4⟩⟩,
    ⟨.endOfText, .text "", ⟨0, 5⟩⟩]

theorem parse_failures_sample :
    (Scanner.ofInput Input.empty).lexText "if a: b" = .ok inlineTokens ∧
    (new.parse (TokenList.ofTokens inlineTokens) "main").1 =
      .error (.incomparable ">" (.whole 0)) ∧
    (∃ ts e before t after w,
      inlineTokens = ts ++ [e] ∧
      ts = before ++ t :: after ∧
      t.value = .text w ∧
      new.SeeksBlock "main" e before) ∧
    (Scanner.ofInput Input.empty).lexText "x +" = .ok cutTokens ∧
    (new.parse (TokenList.ofTokens cutTokens) "main").1 =
      .error .endOfTokens ∧
    ∃ ts e,
      cutTokens = ts ++ [e] ∧
      (new.SeeksExpression "main" e ts ∨ new.SeeksBlock "main" e ts) := by
  have hInline : (Scanner.ofInput Input.empty).lexText "if a: b" =
      .ok inlineTokens := by
    decide +kernel
  have hCut : (Scanner.ofInput Input.empty).lexText "x +" =
      .ok cutTokens := by
    decide +kernel
  have hCompares : (new.parse (TokenList.ofTokens inlineTokens) "main").1 =
      .error (.incomparable ">" (.whole 0)) := by
    rfl
  have hPast : (new.parse (TokenList.ofTokens cutTokens) "main").1 =
      .error .endOfTokens := by
    rfl
  rcases parse_failures (Scanner.ofInput Input.empty) rfl _ _ hInline new
      (by decide) "main" with ⟨ts, e, hTokens, _, _, hCompared, _⟩
  rcases ((hCompared ">").mp ⟨_, hCompares⟩).2 with
    ⟨before, t, after, w, hSplit, hText, hSought⟩
  rcases parse_failures (Scanner.ofInput Input.empty) rfl _ _ hCut new
      (by decide) "main" with ⟨us, e', hTokens', _, hSeeks, _⟩
  exact ⟨hInline, hCompares,
    ⟨ts, e, before, t, after, w, hTokens, hSplit, hText, hSought⟩,
    hCut, hPast, us, e', hTokens', hSeeks.mp hPast⟩

end Parser

end Offside
