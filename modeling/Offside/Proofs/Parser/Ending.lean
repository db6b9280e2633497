import Mathlib
import Offside.Proofs.Parser.Balance
import Offside.Proofs.Parser.Locality

/-
  What a run does before the end of the tokens, and where it
  looks for a block.

  Key definitions include:
    * `Offside.Token.IsEnd`
    * `Offside.ParseState.Open`
    * `Offside.Parse.Heeds`

  Main statements:
    * `Offside.Grammar.heeds`, `Offside.Grammar.items_heeds`: of
      two ends after the tokens the first is only taken by an
      expression or a block that is sought there; and a block is
      sought at a token whatever token it is.
-/

------------------------------------------------------------
-- Tokens and States
------------------------------------------------------------

namespace Offside

/- A token with an amount exactly if it is an indentation or a number. -/
def Token.Apt
    (t : Token) :
    Prop :=
  t.kind = .indent ∨ t.kind = .floatLiteral ↔ ∃ a, t.value = .amount a

/- A token that ends a text and that the table does not bind. -/
structure Token.IsEnd
    (table : Precedence)
    (e : Token) :
    Prop where
  kind : e.kind = .endOfText
  text : ∃ w, e.value = .text w
  loose : table.of e.value < 0

theorem Token.IsEnd.apt
    {table : Precedence}
    {e : Token}
    (hEnd : e.IsEnd table) :
    e.Apt := by
  rcases hEnd.text with ⟨w, hText⟩
  simp [Token.Apt, hEnd.kind, hText]

theorem Token.IsEnd.ne_of_kind
    {table : Precedence}
    {e t : Token}
    (hEnd : e.IsEnd table)
    {kind : Kind}
    (hKind : t.kind = kind)
    (hOther : kind ≠ .endOfText) :
    t ≠ e := by
  rintro rfl
  exact hOther (hKind.symm.trans hEnd.kind)

theorem Token.IsEnd.ne_of_isOperator
    {table : Precedence}
    {e t : Token}
    (hEnd : e.IsEnd table)
    {operator : String}
    (hOperator : t.isOperator operator = true) :
    t ≠ e := by
  rintro rfl
  simp [Token.isOperator, hEnd.kind] at hOperator

theorem Token.IsEnd.ne_of_binds
    {table : Precedence}
    {e t : Token}
    (hEnd : e.IsEnd table)
    (hBinds : 0 ≤ table.of t.value) :
    t ≠ e := by
  rintro rfl
  exact absurd hEnd.loose (not_lt.mpr hBinds)

namespace ParseState

/- All tokens of a state are apt. -/
def Apt
    (s : ParseState) :
    Prop :=
  ∀ t ∈ s.tokens, t.Apt

theorem Apt.of_suffix
    {s t : ParseState}
    (hApt : s.Apt)
    (hSuffix : t.tokens <:+ s.tokens) :
    t.Apt :=
  fun u hMem => hApt u (hSuffix.subset hMem)

/- A state before two ends `e`, none of which is taken. -/
def Open
    (e : Token)
    (s : ParseState) :
    Prop :=
  ∃ us, (∀ t ∈ us, t.kind ≠ .endOfText) ∧ s.tokens = us ++ [e, e]

namespace Open

variable {e t u : Token}
variable {ts : List Token}
variable {level : Amount}

theorem exists_rest
    {s : ParseState}
    (hOpen : s.Open e) :
    ∃ u us, s.rest = u :: us := by
  rcases hOpen with ⟨us, _, hTokens⟩
  cases us with
  | nil =>
      injection hTokens with _ hRest
      exact ⟨e, [], hRest⟩
  | cons v vs =>
      injection hTokens with _ hRest
      cases vs with
      | nil => exact ⟨e, [e], hRest⟩
      | cons w ws => exact ⟨w, _, hRest⟩

/- Where the current token is not the end, the next one can be taken. -/
theorem next
    (hOpen : Open e ⟨t, u :: ts, level⟩)
    (hOther : t ≠ e) :
    Open e ⟨u, ts, level⟩ := by
  rcases hOpen with ⟨us, hInner, hTokens⟩
  cases us with
  | nil =>
      injection hTokens with hFirst _
      exact absurd hFirst hOther
  | cons v vs =>
      injection hTokens with _ hRest
      exact ⟨vs, fun w hMem => hInner w (List.mem_cons_of_mem v hMem),
        hRest⟩

/- Where it is the end, the other one is the only token left. -/
theorem rest_eq
    (hOpen : Open e ⟨e, u :: ts, level⟩)
    (hKind : e.kind = .endOfText) :
    ts = [] := by
  rcases hOpen with ⟨us, hInner, hTokens⟩
  cases us with
  | nil =>
      injection hTokens with _ hRest
      injection hRest
  | cons v vs =>
      injection hTokens with hFirst _
      dsimp only at hFirst
      rw [hFirst] at hKind
      exact absurd hKind (hInner v List.mem_cons_self)

end Open

end ParseState

end Offside

------------------------------------------------------------
-- Steps That Heed the End
------------------------------------------------------------

namespace Offside.Parse

variable {α β γ : Type}

/-
  What a run before two ends comes to: it stays before them, or
  it has failed because an expression or a block was sought at
  the first of them.
-/
def Stays
    (e : Token) :
    EStateM.Result ParseError ParseState α →
    Prop
  | .ok _ t => t.Open e
  | .error error t =>
      t.Open e ∨
      t.rest = [] ∧
        (error = .unknownToken e.name ∨
          ∃ level, error = .incomparable ">" level)

/- Two tokens, and two others to stand in their place. -/
structure Swap where
  x : Token
  y : Token
  x' : Token
  y' : Token
  text : ∃ w, x'.value = .text w

/-
  A comparison that fails when all tokens are taken is that of
  the text `x`, and it fails in the other run as well.
-/
def Echoed
    (swap : Swap)
    (r r' : EStateM.Result ParseError ParseState α) :
    Prop :=
  ∀ sign level t, r = .error (.incomparable sign level) t → t.rest = [] →
    sign = ">" ∧
    (∃ w, swap.x.value = .text w) ∧
    ∃ t', r' = .error (.incomparable sign level) t' ∧ t'.rest = []

/- No comparison fails. -/
def Quiet
    (r : EStateM.Result ParseError ParseState α) :
    Prop :=
  ∀ sign level t, r ≠ .error (.incomparable sign level) t

theorem Quiet.ok
    (a : α)
    (t : ParseState) :
    Quiet (.ok a t) := by
  intro sign level u hFail
  cases hFail

theorem Quiet.error
    (error : ParseError)
    (hOther : ∀ sign level, error ≠ .incomparable sign level)
    (t : ParseState) :
    Quiet (.error error t : EStateM.Result ParseError ParseState α) := by
  intro sign level u hFail
  cases hFail
  exact hOther sign level rfl

theorem Quiet.echoed
    {swap : Swap}
    {r r' : EStateM.Result ParseError ParseState α}
    (hQuiet : Quiet r) :
    Echoed swap r r' :=
  fun sign level t hFail => absurd hFail (hQuiet sign level t)

/-
  A step from a token in `C`.  With as few tokens more it fails
  in no comparison.  If `x` is the current token it does the same
  with `x'` in its place, as far as a failed comparison shows.
-/
structure Meets
    (e : Token)
    (swap : Swap)
    (C : Token → Prop)
    (few : Nat)
    (p : Parse α) :
    Prop where
  quiet : ∀ s : ParseState, C s.current → s.Apt →
    s.rest.length ≤ few → Quiet (p s)
  echo : ∀ s : ParseState, C s.current →
    (s.followedBy [swap.x, swap.y]).Apt →
    Echoed swap (p (s.followedBy [swap.x, swap.y]))
      (p (s.followedBy [swap.x', swap.y']))
  cut : ∀ level, C swap.x →
    ParseState.Apt ⟨swap.x, [swap.y], level⟩ →
    Echoed swap (p ⟨swap.x, [swap.y], level⟩)
      (p ⟨swap.x', [swap.y'], level⟩)
  stays : ∀ s : ParseState, C s.current → s.Open e → Stays e (p s)

/- A step that has looked at the current token `c`. -/
def Heeds
    (e : Token)
    (swap : Swap)
    (c : Token)
    (p : Parse α) :
    Prop :=
  Meets e swap (· = c) 1 p

/- A step that may look for a block at the current token. -/
def Seeks
    (e : Token)
    (swap : Swap)
    (p : Parse α) :
    Prop :=
  Meets e swap (fun _ => True) 0 p

variable {e : Token}
variable {swap : Swap}
variable {c : Token}
variable {p : Parse α}

/-
  The second step goes on where the first one stopped.  If that
  is before the tokens that are swapped, both runs are there; if
  not, no comparison can fail any more.
-/
theorem Meets.bind
    {C : Token → Prop}
    {few : Nat}
    {k : α → Parse β}
    (hFew : few ≤ 1)
    (hFrontal : Frontal p)
    (hStep : Meets e swap C few p)
    (hNext : ∀ s a t, p s = .ok a t → Heeds e swap t.current (k a)) :
    Meets e swap C few (p >>= k) := by
  have hQuiet : ∀ {s : ParseState}, s.Apt → ∀ {a t sign level u},
      p s = .ok a t → t.rest.length ≤ 1 →
      k a t ≠ .error (.incomparable sign level) u := by
    intro s hApt a t sign level u hRun hFewer
    have hLeft := hFrontal.suffix s
    rw [hRun] at hLeft
    exact (hNext s a t hRun).quiet t rfl (hApt.of_suffix hLeft) hFewer
      sign level u
  have hShrinks : ∀ {s : ParseState} {a t}, p s = .ok a t →
      t.rest.length ≤ s.rest.length := by
    intro s a t hRun
    have hFewer := hFrontal.isLocal.shrinks s
    rwa [hRun] at hFewer
  constructor
  case quiet =>
    intro s hCurrent hApt hRest sign level t hFail
    rcases Steps.bind_eq_error hFail with hFirst | ⟨a, u, hRun, hSecond⟩
    · exact hStep.quiet s hCurrent hApt hRest sign level t hFirst
    · exact hQuiet hApt hRun ((hShrinks hRun).trans (hRest.trans hFew))
        hSecond
  case echo =>
    intro s hCurrent hApt sign level t hFail hRest
    rcases Steps.bind_eq_error hFail with hFirst | ⟨a, u, hRun, hSecond⟩
    · rcases hStep.echo s hCurrent hApt sign level t hFirst hRest with
        ⟨hSign, hText, t', hRun', hRest'⟩
      refine ⟨hSign, hText, t', ?_, hRest'⟩
      rw [Steps.bind_apply, hRun']
    · by_cases hBefore : 2 ≤ u.rest.length
      · have hLeft := hFrontal.suffix (s.followedBy [swap.x, swap.y])
        rw [hRun] at hLeft
        rcases hFrontal.isLocal.ok_of_followed hRun hBefore with
          ⟨v, rfl, hSame⟩
        rw [Steps.bind_ok (hSame [swap.x', swap.y'])]
        exact (hNext _ a _ hRun).echo v rfl (hApt.of_suffix hLeft)
          sign level t hSecond hRest
      · exact absurd hSecond (hQuiet hApt hRun (by omega))
  case cut =>
    intro level hCurrent hApt sign found t hFail hRest
    rcases Steps.bind_eq_error hFail with hFirst | ⟨a, u, hRun, hSecond⟩
    · rcases hStep.cut level hCurrent hApt sign found t hFirst hRest with
        ⟨hSign, hText, t', hRun', hRest'⟩
      refine ⟨hSign, hText, t', ?_, hRest'⟩
      rw [Steps.bind_apply, hRun']
    · exact absurd hSecond (hQuiet hApt hRun (hShrinks hRun))
  case stays =>
    intro s hCurrent hOpen
    have hFirst := hStep.stays s hCurrent hOpen
    rw [Steps.bind_apply]
    cases hRun : p s with
    | error error t =>
        rw [hRun] at hFirst
        exact hFirst
    | ok a t =>
        rw [hRun] at hFirst
        exact (hNext s a t hRun).stays t rfl hFirst

/- What follows a block has looked at its token. -/
theorem Seeks.bind
    {k : α → Parse β}
    (hFrontal : Frontal p)
    (hStep : Seeks e swap p)
    (hNext : ∀ a d, Heeds e swap d (k a)) :
    Seeks e swap (p >>= k) :=
  Meets.bind (Nat.zero_le 1) hFrontal hStep fun _ a t _ =>
    hNext a t.current

namespace Heeds

/- With one token more a comparison of the current one cannot fail. -/
theorem intro
    (hQuiet : ∀ s : ParseState, s.current = c → s.Apt →
      s.rest.length ≤ 1 → Quiet (p s))
    (hEcho : ∀ s : ParseState, s.current = c →
      (s.followedBy [swap.x, swap.y]).Apt →
      Echoed swap (p (s.followedBy [swap.x, swap.y]))
        (p (s.followedBy [swap.x', swap.y'])))
    (hStays : ∀ s : ParseState, s.current = c → s.Open e →
      Stays e (p s)) :
    Heeds e swap c p where
  quiet := hQuiet
  echo := hEcho
  cut _ hCurrent hApt := (hQuiet _ hCurrent hApt le_rfl).echoed
  stays := hStays

theorem seeks
    (hStep : ∀ d, Heeds e swap d p) :
    Seeks e swap p where
  quiet s _ hApt hRest :=
    (hStep s.current).quiet s rfl hApt (Nat.le_succ_of_le hRest)
  echo s _ hApt := (hStep s.current).echo s rfl hApt
  cut level _ hApt := (hStep swap.x).cut level rfl hApt
  stays s _ hOpen := (hStep s.current).stays s rfl hOpen

theorem bind
    {k : α → Parse β}
    (hFrontal : Frontal p)
    (hStep : Heeds e swap c p)
    (hNext : ∀ s a t, p s = .ok a t → Heeds e swap t.current (k a)) :
    Heeds e swap c (p >>= k) :=
  Meets.bind le_rfl hFrontal hStep hNext

theorem pure
    (a : α) :
    Heeds e swap c (pure a) :=
  intro (fun s _ _ _ => Quiet.ok a s)
    (fun s _ _ => (Quiet.ok a (s.followedBy _)).echoed)
    fun _ _ hOpen => hOpen

/- A step that fails where it is. -/
theorem stop
    (error : ParseError)
    (hFail : ∀ s : ParseState, s.current = c → p s = .error error s)
    (hOther : ∀ sign level, error ≠ .incomparable sign level) :
    Heeds e swap c p := by
  have hQuiet : ∀ s : ParseState, s.current = c → Quiet (p s) := by
    intro s hCurrent
    rw [hFail s hCurrent]
    exact Quiet.error error hOther s
  refine intro (fun s hCurrent _ _ => hQuiet s hCurrent)
    (fun s hCurrent _ => (hQuiet (s.followedBy _) hCurrent).echoed) ?_
  intro s hCurrent hOpen
  rw [hFail s hCurrent]
  exact .inl hOpen

theorem throw
    (error : ParseError)
    (hOther : ∀ sign level, error ≠ .incomparable sign level) :
    Heeds e swap c (throw error : Parse α) :=
  stop error (fun _ _ => rfl) hOther

theorem ite
    {condition : Prop}
    [Decidable condition]
    {q : Parse α}
    (hYes : condition → Heeds e swap c p)
    (hNo : ¬condition → Heeds e swap c q) :
    Heeds e swap c (if condition then p else q) := by
  split
  · rename_i hCond
    exact hYes hCond
  · rename_i hCond
    exact hNo hCond

theorem assoc
    {f : α → Parse β}
    {k : β → Parse γ}
    (hStep : Heeds e swap c (p >>= fun a => f a >>= k)) :
    Heeds e swap c ((p >>= f) >>= k) := by
  rwa [bind_assoc]

theorem pureBind
    {a : α}
    {k : α → Parse β}
    (hNext : Heeds e swap c (k a)) :
    Heeds e swap c (Pure.pure a >>= k) := by
  rwa [pure_bind]

theorem iteBind
    {condition : Prop}
    [Decidable condition]
    {q : Parse α}
    {k : α → Parse β}
    (hYes : condition → Heeds e swap c (p >>= k))
    (hNo : ¬condition → Heeds e swap c (q >>= k)) :
    Heeds e swap c ((if condition then p else q) >>= k) := by
  split
  · rename_i hCond
    exact hYes hCond
  · rename_i hCond
    exact hNo hCond

/- A step that looks at the current token. -/
theorem look
    {a : α}
    {k : α → Parse β}
    (hLook : ∀ s : ParseState, s.current = c → p s = .ok a s)
    (hNext : Heeds e swap c (k a)) :
    Heeds e swap c (p >>= k) := by
  have hSame : ∀ s : ParseState, s.current = c → (p >>= k) s = k a s :=
    fun s hCurrent => Steps.bind_ok (hLook s hCurrent) k
  apply intro
  · intro s hCurrent hApt hFew
    rw [hSame s hCurrent]
    exact hNext.quiet s hCurrent hApt hFew
  · intro s hCurrent hApt
    rw [hSame (s.followedBy _) hCurrent, hSame (s.followedBy _) hCurrent]
    exact hNext.echo s hCurrent hApt
  · intro s hCurrent hOpen
    rw [hSame s hCurrent]
    exact hNext.stays s hCurrent hOpen

theorem current
    {k : Token → Parse β}
    (hNext : Heeds e swap c (k c)) :
    Heeds e swap c (Parse.current >>= k) := by
  apply look _ hNext
  rintro s rfl
  rfl

theorem atOperator
    {operator : String}
    {k : Bool → Parse β}
    (hNext : Heeds e swap c (k (c.isOperator operator))) :
    Heeds e swap c (Parse.atOperator operator >>= k) := by
  apply look _ hNext
  rintro s rfl
  rfl

theorem atKind
    {kind : Kind}
    {k : Bool → Parse β}
    (hNext : Heeds e swap c (k (c.kind = kind))) :
    Heeds e swap c (Parse.atKind kind >>= k) := by
  apply look _ hNext
  rintro s rfl
  rfl

variable {k : Unit → Parse β}

theorem expectOperator
    {operator : String}
    {what : Expectation}
    (hNext : c.isOperator operator = true → Heeds e swap c (k ())) :
    Heeds e swap c (Parse.expectOperator operator what >>= k) := by
  by_cases hOperator : c.isOperator operator = true
  · apply look _ (hNext hOperator)
    rintro s rfl
    exact expectOperator_apply hOperator
  · apply stop (.expected what) _ nofun
    rintro s rfl
    simp [Parse.expectOperator, Steps.bind_apply, hOperator]

theorem expectKind
    {kind : Kind}
    {what : Expectation}
    (hNext : c.kind = kind → Heeds e swap c (k ())) :
    Heeds e swap c (Parse.expectKind kind what >>= k) := by
  by_cases hKind : c.kind = kind
  · apply look _ (hNext hKind)
    rintro s rfl
    exact expectKind_apply hKind
  · apply stop (.expected what) _ nofun
    rintro s rfl
    simp [Parse.expectKind, Steps.bind_apply, hKind]

theorem expectColon
    {keyword : String}
    (hNext : c.isOperator ":" = true → Heeds e swap c (k ())) :
    Heeds e swap c (Parse.expectColon keyword >>= k) := by
  by_cases hColon : c.isOperator ":" = true
  · apply look _ (hNext hColon)
    rintro s rfl
    simp [Parse.expectColon, Steps.bind_apply, hColon]
  · apply stop (.missingColon keyword c.text) _ (by simp)
    rintro s rfl
    simp [Parse.expectColon, Steps.bind_apply, hColon]

/- The current token is taken, if it is not the end. -/
theorem take
    (hOther : c ≠ e)
    (hNext : Seeks e swap (k ())) :
    Heeds e swap c (advance >>= k) := by
  apply intro
  · rintro ⟨t, ts, level⟩ _ hApt hFew
    cases ts with
    | nil => exact Quiet.error .endOfTokens nofun _
    | cons u us =>
        rw [Steps.bind_ok (advance_apply t u us level)]
        exact hNext.quiet _ trivial (hApt.of_suffix (List.suffix_cons t _))
          (Nat.le_of_succ_le_succ hFew)
  · rintro ⟨t, ts, level⟩ _ hApt
    have hLeft := hApt.of_suffix
      (t := .before level (ts ++ [swap.x, swap.y]))
    cases ts with
    | nil => exact hNext.cut level trivial (hLeft (List.suffix_cons t _))
    | cons u us =>
        exact hNext.echo ⟨u, us, level⟩ trivial
          (hLeft (List.suffix_cons t _))
  · rintro ⟨t, ts, level⟩ rfl hOpen
    rcases hOpen.exists_rest with ⟨u, us, rfl⟩
    rw [Steps.bind_ok (advance_apply t u us level)]
    exact hNext.stays _ trivial (hOpen.next hOther)

theorem pass
    (hOther : c ≠ e)
    (hNext : ∀ d, Heeds e swap d (k ())) :
    Heeds e swap c (advance >>= k) :=
  take hOther (seeks hNext)

/- Of a state that is looked at only the level may count. -/
theorem state
    {k : ParseState → Parse β}
    (hLevel : ∀ {s t : ParseState}, s.level = t.level → k s = k t)
    (hNext : ∀ s, Heeds e swap c (k s)) :
    Heeds e swap c (get >>= k) := by
  apply intro
  · intro s hCurrent hApt hFew
    exact (hNext s).quiet s hCurrent hApt hFew
  · intro s hCurrent hApt
    rw [Steps.bind_ok (Steps.get_apply (s.followedBy _)),
      Steps.bind_ok (Steps.get_apply (s.followedBy _)),
      hLevel (show (s.followedBy _).level = s.level from rfl),
      hLevel (show (s.followedBy _).level = s.level from rfl)]
    exact (hNext s).echo s hCurrent hApt
  · intro s hCurrent hOpen
    exact (hNext s).stays s hCurrent hOpen

theorem modifyLevel
    (change : Amount → Amount)
    (hNext : Heeds e swap c (k ())) :
    Heeds e swap c
      ((modify fun s => { s with level := change s.level }) >>= k) := by
  apply intro
  · intro s hCurrent hApt hFew
    exact hNext.quiet { s with level := change s.level } hCurrent hApt hFew
  · intro s hCurrent hApt
    exact hNext.echo { s with level := change s.level } hCurrent hApt
  · intro s hCurrent hOpen
    exact hNext.stays { s with level := change s.level } hCurrent hOpen

/- An indentation without an amount is not apt. -/
theorem of_text
    {w : String}
    (hKind : c.kind = .indent)
    (hValue : c.value = .text w)
    (hStays : ∀ s : ParseState, s.current = c → s.Open e →
      Stays e (p s)) :
    Heeds e swap c p := by
  have hNever : ∀ s : ParseState, s.current = c → ¬s.Apt := by
    rintro s rfl hApt
    rcases (hApt s.current List.mem_cons_self).mp (.inl hKind) with
      ⟨a, hAmount⟩
    rw [hValue] at hAmount
    cases hAmount
  refine intro (fun s hCurrent hApt _ => ?_) (fun s hCurrent hApt => ?_)
    hStays
  · exact absurd hApt (hNever s hCurrent)
  · exact absurd hApt (hNever (s.followedBy _) hCurrent)

end Heeds

/- A production from any token. -/
structure Heedful
    (e : Token)
    (swap : Swap)
    (p : Parse α) :
    Prop where
  frontal : Frontal p
  heeds : ∀ c, Heeds e swap c p

theorem Heedful.bind
    {k : α → Parse β}
    (hPart : Heedful e swap p)
    (hNext : ∀ a d, Heeds e swap d (k a)) :
    Heeds e swap c (p >>= k) :=
  (hPart.heeds c).bind hPart.frontal fun _ a t _ => hNext a t.current

end Offside.Parse

------------------------------------------------------------
-- Productions
------------------------------------------------------------

namespace Offside.Parse.Heeds

variable {table : Precedence}
variable {e : Token}
variable {swap : Swap}
variable {c : Token}
variable {p q : Parse Node}
variable {ps : Parse (List Node)}
variable {entries : Parse (List (Value × Node))}

/- A block at a text fails in a comparison, after it has taken the text. -/
theorem block_of_text
    (lines : Amount → Parse (List Node))
    {w : String}
    (hValue : c.value = .text w)
    (u : Token)
    (us : List Token)
    (level : Amount) :
    Parse.block lines ⟨c, u :: us, level⟩ =
      .error (.incomparable ">" level) ⟨u, us, level⟩ := by
  rw [Parse.block, Steps.bind_ok (current_apply _),
    Steps.bind_ok (advance_apply c u us level),
    Steps.bind_ok (Steps.get_apply _)]
  simp only [hValue]
  rfl

section

variable (hEnd : e.IsEnd table)
include hEnd

theorem literal
    (hKind : c.kind = .floatLiteral) :
    Heeds e swap c literal :=
  current (pass (hEnd.ne_of_kind hKind nofun) fun _ => pure _)

theorem parenthesized
    (hInner : Heedful e swap p)
    (hOpening : c.isOperator "(" = true) :
    Heeds e swap c (parenthesized p) :=
  pass (hEnd.ne_of_isOperator hOpening) fun _ => hInner.bind fun _ _ =>
    expectOperator fun hClosing =>
      pass (hEnd.ne_of_isOperator hClosing) fun _ => pure _

theorem arguments
    (hFirst : Heedful e swap p)
    (hMore : Heedful e swap ps) :
    Heeds e swap c (arguments p ps) :=
  hFirst.bind fun _ _ => atOperator (ite (fun _ => pure _) fun _ =>
    expectOperator fun hComma => pass (hEnd.ne_of_isOperator hComma)
      fun _ => hMore.bind fun _ _ => pure _)

theorem named
    (hArguments : Heedful e swap ps)
    (hClosed : ∀ s es t, ps s = .ok es t →
      t.current.isOperator ")" = true)
    (hKind : c.kind = .identifier) :
    Heeds e swap c (named ps) := by
  refine current (pass (hEnd.ne_of_kind hKind nofun) fun d =>
    atOperator (ite (fun hOpening => ?_) fun _ => pure _))
  refine pass (hEnd.ne_of_isOperator hOpening) fun u => assoc
    (atOperator (iteBind (fun hClosing => ?_) fun _ => ?_))
  · exact pass (hEnd.ne_of_isOperator hClosing) fun _ => pure _
  · exact (hArguments.heeds u).bind hArguments.frontal
      fun s es t hRun =>
        pass (hEnd.ne_of_isOperator (hClosed s es t hRun)) fun _ => pure _

theorem unary
    (hPrimary : Heeds e swap c p)
    (hOperand : Heedful e swap q) :
    Heeds e swap c (unary p q) := by
  refine current (ite (fun _ => hPrimary) fun hOperator => ?_)
  rw [not_or, not_not] at hOperator
  exact pass (hEnd.ne_of_kind hOperator.1 nofun) fun _ =>
    hOperand.bind fun _ _ => pure _

theorem binaryRest
    (hUnary : Heedful e swap p)
    {rest : Int → Node → Parse Node}
    (hRest : ∀ least lhs, 0 ≤ least → Heedful e swap (rest least lhs))
    {least : Int}
    (lhs : Node)
    (hLeast : 0 ≤ least) :
    Heeds e swap c (binaryRest table p rest least lhs) := by
  refine current (ite (fun _ => pure _) fun hBinds => ?_)
  have hAbove : 0 ≤ table.of c.value := by omega
  refine pass (hEnd.ne_of_binds hAbove) fun _ => hUnary.bind
    fun operand d => assoc (current (iteBind (fun _ => ?_) fun _ => ?_))
  · exact (hRest _ operand (by omega)).bind
      fun _ _ => (hRest least _ hLeast).heeds _
  · exact (hRest least _ hLeast).heeds d

theorem lines
    (hLine : Heedful e swap p)
    {more : Amount → Parse (List Node)}
    (hMore : ∀ indent, Heedful e swap (more indent))
    (indent : Amount) :
    Heeds e swap c (lines p more indent) := by
  refine hLine.bind fun first d => current (ite (fun _ => pure _)
    fun hIndent => ?_)
  rw [not_not] at hIndent
  cases hValue : d.value with
  | text w => exact of_text hIndent hValue fun s _ hOpen => .inl hOpen
  | amount found =>
      refine ite (fun _ => pure _) fun _ => ite
        (fun _ => stop .deeperIndentation (fun _ _ => rfl) nofun)
        fun _ => ?_
      exact pass (hEnd.ne_of_kind hIndent nofun) fun _ =>
        (hMore indent).bind fun _ _ => pure _

/- A token with an amount opens a block. -/
theorem block_of_amount
    {lines : Amount → Parse (List Node)}
    (hLines : ∀ indent, Heedful e swap (lines indent))
    {indent : Amount}
    (hValue : c.value = .amount indent) :
    Heeds e swap c (block lines) := by
  have hOther : c ≠ e := by
    rintro rfl
    rcases hEnd.text with ⟨w, hText⟩
    rw [hValue] at hText
    cases hText
  refine current (pass hOther fun d => state ?_ fun s => ?_)
  · intro s t hSame
    simp only [hSame]
  · simp only [hValue]
    refine ite (fun _ => stop .noNewBlock (fun _ _ => rfl) nofun)
      fun _ => iteBind (fun _ => assoc (modifyLevel (fun _ => indent) ?_))
        fun _ => ?_
    · exact (hLines indent).bind fun _ _ =>
        modifyLevel (fun level => level.minus levelWidth) (pure _)
    · exact pureBind
        (modifyLevel (fun level => level.minus levelWidth) (pure _))

theorem seeks_block
    {lines : Amount → Parse (List Node)}
    (hLines : ∀ indent, Heedful e swap (lines indent)) :
    Seeks e swap (Parse.block lines) := by
  constructor
  case quiet =>
    rintro ⟨t, ts, level⟩ _ _ hRest
    rcases List.length_eq_zero_iff.mp (Nat.le_zero.mp hRest) with rfl
    exact Quiet.error .endOfTokens nofun _
  case echo =>
    rintro ⟨t, ts, level⟩ _ hApt
    cases hValue : t.value with
    | amount indent =>
        exact (block_of_amount hEnd hLines hValue).echo _ rfl hApt
    | text w =>
        -- Two tokens at least are left, and one of them is taken.
        rintro sign found u hFail hRest
        cases ts with
        | nil =>
            cases (block_of_text lines hValue _ _ level).symm.trans hFail
            cases hRest
        | cons v vs =>
            cases (block_of_text lines hValue _ _ level).symm.trans hFail
            simp at hRest
  case cut =>
    intro level _ hApt
    cases hValue : swap.x.value with
    | amount indent =>
        exact (block_of_amount hEnd hLines hValue).cut level rfl hApt
    | text w =>
        rintro sign found u hFail hRest
        cases (block_of_text lines hValue _ _ level).symm.trans hFail
        rcases swap.text with ⟨w', hValue'⟩
        exact ⟨rfl, ⟨w, hValue⟩, _,
          block_of_text lines hValue' _ _ level, rfl⟩
  case stays =>
    rintro ⟨t, ts, level⟩ _ hOpen
    rcases hOpen.exists_rest with ⟨u, us, rfl⟩
    cases hValue : t.value with
    | amount indent =>
        exact (block_of_amount hEnd hLines hValue).stays _ rfl hOpen
    | text w =>
        rw [block_of_text lines hValue]
        by_cases hLast : t = e
        · subst hLast
          exact .inr ⟨hOpen.rest_eq hEnd.kind, .inr ⟨level, rfl⟩⟩
        · exact .inl (hOpen.next hLast)

/- An indentation is looked at before it opens a block. -/
theorem block_of_indent
    {lines : Amount → Parse (List Node)}
    (hLines : ∀ indent, Heedful e swap (lines indent))
    (hKind : c.kind = .indent) :
    Heeds e swap c (Parse.block lines) := by
  cases hValue : c.value with
  | amount indent => exact block_of_amount hEnd hLines hValue
  | text w =>
      exact of_text hKind hValue fun s _ hOpen =>
        (seeks_block hEnd hLines).stays s trivial hOpen

theorem branch
    (hCondition : Heedful e swap p)
    (hFrontal : Frontal q)
    (hBlock : Seeks e swap q)
    (hKind : c.kind = .kwIf) :
    Heeds e swap c (branch p q) := by
  refine current (pass (hEnd.ne_of_kind hKind nofun) fun _ =>
    hCondition.bind fun cond _ => expectColon fun hColon =>
      take (hEnd.ne_of_isOperator hColon)
        (hBlock.bind hFrontal fun yes d => atKind ?_))
  have hElse : ∀ x, Heeds e swap x (do
      let no ← (do
        if ← Parse.atKind .kwElse then
          advance
          Parse.expectColon "else"
          advance
          q
        else return .block [])
      return Node.branch cond yes no c.location) := by
    intro x
    refine assoc (atKind (iteBind (fun hElse => ?_)
      fun _ => pureBind (pure _)))
    refine assoc (pass (hEnd.ne_of_kind (of_decide_eq_true hElse) nofun)
      fun _ => assoc (expectColon fun hColon => assoc ?_))
    exact take (hEnd.ne_of_isOperator hColon)
      (hBlock.bind hFrontal fun _ _ => pure _)
  refine ite (fun hIndent => ?_) fun _ => hElse d
  exact pass (hEnd.ne_of_kind (of_decide_eq_true hIndent) nofun) hElse

theorem loop
    (hPart : Heedful e swap p)
    (hKind : c.kind = .kwFor) :
    Heeds e swap c (loop p) := by
  refine pass (hEnd.ne_of_kind hKind nofun) fun counter =>
    expectKind fun hName => current (pass
      (hEnd.ne_of_kind hName nofun) fun _ => expectOperator fun hAssign =>
        pass (hEnd.ne_of_isOperator hAssign) fun _ =>
          hPart.bind fun first _ => expectOperator fun hComma =>
            pass (hEnd.ne_of_isOperator hComma) fun _ =>
              hPart.bind fun last _ => ?_)
  have hBody : ∀ step x, Heeds e swap x (do
      Parse.expectKind .kwIn .loopIn
      advance
      let body ← p
      return Node.loop counter.value first last step (.block [body])) :=
    fun step x => expectKind fun hIn =>
      pass (hEnd.ne_of_kind hIn nofun) fun _ => hPart.bind fun _ _ => pure _
  refine assoc (atOperator (iteBind (fun hComma => assoc ?_)
    fun _ => pureBind (hBody _ _)))
  exact pass (hEnd.ne_of_isOperator hComma) fun _ => hPart.bind hBody

theorem bindings
    (hValue : Heedful e swap p)
    (hFrontal : Frontal entries)
    (hMore : ∀ d, d.kind = .identifier → Heeds e swap d entries)
    (hKind : c.kind = .identifier) :
    Heeds e swap c (bindings p entries) := by
  have hOthers : ∀ value x, Heeds e swap x (do
      unless ← Parse.atOperator "," do
        return [(c.value, value)]
      advance
      Parse.expectKind .identifier .declaredNames
      let others ← entries
      return (c.value, value) :: others) := by
    intro value x
    refine atOperator (ite (fun hComma => ?_) fun _ => pure _)
    exact pass (hEnd.ne_of_isOperator hComma) fun v =>
      expectKind fun hName => (hMore v hName).bind hFrontal
        fun _ _ _ _ => pure _
  refine current (pass (hEnd.ne_of_kind hKind nofun) fun _ =>
    assoc (atOperator (iteBind (fun hAssign => assoc ?_)
      fun _ => pureBind (hOthers _ _))))
  exact pass (hEnd.ne_of_isOperator hAssign) fun _ =>
    hValue.bind hOthers

theorem declaration
    (hBody : Heedful e swap p)
    (hFrontal : Frontal entries)
    (hEntries : ∀ d, d.kind = .identifier → Heeds e swap d entries)
    (hKind : c.kind = .kwVar) :
    Heeds e swap c (declaration p entries) :=
  pass (hEnd.ne_of_kind hKind nofun) fun d => expectKind fun hName =>
    (hEntries d hName).bind hFrontal fun _ _ _ _ => expectKind fun hIn =>
      pass (hEnd.ne_of_kind hIn nofun) fun _ =>
        hBody.bind fun _ _ => pure _

theorem returned
    (hValue : Heedful e swap p)
    (hKind : c.kind = .kwReturn) :
    Heeds e swap c (returned p) :=
  pass (hEnd.ne_of_kind hKind nofun) fun _ => hValue.bind fun _ _ => pure _

/- Also the end is taken where an expression should start. -/
theorem unknown :
    Heeds e swap c unknown := by
  by_cases hLast : c = e
  · subst hLast
    apply intro
    · rintro ⟨t, ts, level⟩ _ _ _
      cases ts with
      | nil => exact Quiet.error .endOfTokens nofun _
      | cons u us => exact Quiet.error (.unknownToken t.name) nofun _
    · rintro ⟨t, ts, level⟩ _ _
      cases ts with
      | nil =>
          exact (Quiet.error (.unknownToken t.name) nofun _).echoed
      | cons u us =>
          exact (Quiet.error (.unknownToken t.name) nofun _).echoed
    · rintro ⟨t, ts, level⟩ rfl hOpen
      rcases hOpen.exists_rest with ⟨u, us, rfl⟩
      exact .inr ⟨hOpen.rest_eq hEnd.kind, .inl rfl⟩
  · exact current (pass hLast fun _ => throw _ nofun)

/- A primary expression, by its first token. -/
theorem primary
    {parts : Parts}
    (hExpression : Heedful e swap parts.expression)
    (hArguments : Heedful e swap parts.arguments)
    (hClosed : ∀ s es t, parts.arguments s = .ok es t →
      t.current.isOperator ")" = true)
    (hFrontalEntries : Frontal parts.bindings)
    (hEntries : ∀ d, d.kind = .identifier → Heeds e swap d parts.bindings)
    (hFrontal : Frontal parts.block)
    (hBlock : Seeks e swap parts.block)
    (hIndented : ∀ d, d.kind = .indent → Heeds e swap d parts.block)
    (hPrimary : ∀ d, Heeds e swap d parts.primary) :
    Heeds e swap c (primary parts) := by
  refine current ?_
  cases hKind : c.kind
  case identifier => exact named hEnd hArguments hClosed hKind
  case floatLiteral => exact literal hEnd hKind
  case kwIf => exact branch hEnd hExpression hFrontal hBlock hKind
  case kwFor => exact loop hEnd hExpression hKind
  case kwVar =>
    exact declaration hEnd hExpression hFrontalEntries hEntries hKind
  case kwReturn => exact returned hEnd hExpression hKind
  case indent => exact hIndented c hKind
  case operator =>
    refine ite (parenthesized hEnd hExpression) fun _ =>
      ite (fun hSemicolon => ?_) fun _ => unknown hEnd
    exact pass (hEnd.ne_of_isOperator hSemicolon) hPrimary
  all_goals exact unknown hEnd

/- Names and commas are taken up to another token. -/
theorem parametersFrom_open
    (s : ParseState)
    (us : List Token)
    (hInner : ∀ t ∈ us, t.kind ≠ .endOfText) :
    ∃ nodes t,
      parametersFrom s (us ++ [e, e]) = .ok nodes t ∧ t.Open e := by
  have hName : e.kind ≠ .identifier := by
    rw [hEnd.kind]
    nofun
  have hComma : e.isOperator "," = false := by
    simp [Token.isOperator, hEnd.kind]
  induction us using List.twoStepInduction generalizing s with
  | nil =>
      exact ⟨[], _, by simp [parametersFrom, hName]; rfl, [], by simp, rfl⟩
  | singleton u =>
      by_cases hKind : u.kind = .identifier
      · exact ⟨[variableOf u], _,
          by simp [parametersFrom, hKind, hComma]; rfl, [], by simp, rfl⟩
      · exact ⟨[], _, by simp [parametersFrom, hKind]; rfl, [u], hInner,
          rfl⟩
  | cons_cons u v us ih _ =>
      by_cases hKind : u.kind = .identifier
      · by_cases hSeparated : v.isOperator "," = true
        · rcases ih { s with current := v }
              (fun t hMem => hInner t (by simp [hMem])) with
            ⟨nodes, t, hRun, hOpen⟩
          exact ⟨variableOf u :: nodes, t,
            by simp [parametersFrom, hKind, hSeparated, hRun], hOpen⟩
        · exact ⟨[variableOf u], _,
            by simp [parametersFrom, hKind, hSeparated]; rfl, v :: us,
            fun t hMem => hInner t (List.mem_cons_of_mem u hMem), rfl⟩
      · exact ⟨[], _, by simp [parametersFrom, hKind]; rfl,
          u :: v :: us, hInner, rfl⟩

theorem parameters
    (hOpening : c.isOperator "(" = true) :
    Heeds e swap c parameters := by
  have hQuiet : ∀ s, Quiet (Parse.parameters s) := by
    intro s sign level t hFail
    cases Local.parametersFrom_error hFail
  refine intro (fun s _ _ _ => hQuiet s)
    (fun s _ _ => (hQuiet (s.followedBy _)).echoed) ?_
  rintro ⟨t, ts, level⟩ rfl ⟨us, hInner, hTokens⟩
  cases us with
  | nil =>
      injection hTokens with hFirst _
      exact absurd hFirst (hEnd.ne_of_isOperator hOpening)
  | cons u us =>
      have hRest : ts = us ++ [e, e] := (List.cons.inj hTokens).2
      rcases parametersFrom_open hEnd ⟨t, ts, level⟩ us
          (fun v hMem => hInner v (List.mem_cons_of_mem u hMem)) with
        ⟨nodes, v, hRun, hOpen⟩
      rw [← hRest] at hRun
      have hSame : Parse.parameters ⟨t, ts, level⟩ = .ok nodes v := hRun
      rw [hSame]
      exact hOpen

theorem externPrototype :
    Heeds e swap c externPrototype := by
  refine current (expectKind fun hName => pass
    (hEnd.ne_of_kind hName nofun) fun _ => expectOperator fun hOpening =>
      (parameters hEnd hOpening).bind ⟨Local.parameters, ?_⟩
        fun _ _ _ _ => expectOperator fun hClosing =>
          pass (hEnd.ne_of_isOperator hClosing) fun _ => pure _)
  exact Orderly.parameters.suffix

theorem function
    (hFrontal : Frontal p)
    (hBlock : Seeks e swap p)
    (hKind : c.kind = .kwFunction) :
    Heeds e swap c (function p) := by
  have hPrototype : Heedful e swap Parse.externPrototype :=
    ⟨⟨Local.externPrototype, Orderly.externPrototype.suffix⟩,
      fun _ => externPrototype hEnd⟩
  refine pass (hEnd.ne_of_kind hKind nofun) fun _ =>
    assoc (hPrototype.bind fun proto _ => assoc (expectOperator
      fun hColon => assoc ?_))
  refine take (hEnd.ne_of_isOperator hColon) ?_
  rw [pure_bind]
  exact hBlock.bind hFrontal fun _ _ => pure _

theorem external
    (hKind : c.kind = .kwExtern) :
    Heeds e swap c external :=
  pass (hEnd.ne_of_kind hKind nofun) fun _ => externPrototype hEnd

end

/- Arguments come to the closing parenthesis. -/
theorem arguments_closed
    (hMore : ∀ s es t, ps s = .ok es t →
      t.current.isOperator ")" = true)
    (s : ParseState)
    (es : List Node)
    (t : ParseState)
    (hRun : Parse.arguments p ps s = .ok es t) :
    t.current.isOperator ")" = true := by
  rcases Steps.bind_eq_ok hRun with ⟨first, u, _, hRest⟩
  rw [Steps.bind_ok (atOperator_apply _ u)] at hRest
  split at hRest
  · rename_i hClosing
    cases hRest
    exact hClosing
  · rcases Steps.bind_eq_ok hRest with ⟨_, v, _, hRest⟩
    rcases Steps.bind_eq_ok hRest with ⟨_, w, _, hRest⟩
    rcases Steps.bind_eq_ok hRest with ⟨others, x, hOthers, hRest⟩
    cases hRest
    exact hMore w others t hOthers

end Offside.Parse.Heeds

------------------------------------------------------------
-- The Grammar
------------------------------------------------------------

namespace Offside.Grammar

open Parse (Heeds Seeks Heedful Frontal Swap)

variable {table : Precedence}
variable {e : Token}

theorem arguments_closed
    (table : Precedence)
    (n : Nat) :
    ∀ s es t, arguments table n s = .ok es t →
      t.current.isOperator ")" = true := by
  induction n with
  | zero =>
      intro s es t hRun
      cases hRun
  | succ n ih => exact Heeds.arguments_closed ih

/- What all productions do before the end, at one allowance. -/
structure AllHeed
    (table : Precedence)
    (e : Token)
    (swap : Swap)
    (n : Nat) :
    Prop where
  primary : ∀ c, Heeds e swap c (primary table n)
  unary : Heedful e swap (unary table n)
  binaryRest : ∀ least lhs, 0 ≤ least →
    Heedful e swap (binaryRest table n least lhs)
  expression : Heedful e swap (expression table n)
  arguments : Heedful e swap (arguments table n)
  bindings : ∀ c, c.kind = .identifier →
    Heeds e swap c (bindings table n)
  lines : ∀ indent, Heedful e swap (lines table n indent)
  block : Seeks e swap (block table n)
  indented : ∀ c, c.kind = .indent →
    Heeds e swap c (Grammar.block table n)

/-
  Before two ends a production only takes the first of them for
  an expression or a block that it seeks there; and where it seeks
  a block it does so at any token.
-/
theorem heeds
    (hEnd : e.IsEnd table)
    (swap : Swap)
    (n : Nat) :
    AllHeed table e swap n := by
  have hLocal := isLocal table
  have hOrderly := orderly table
  induction n with
  | zero =>
      have hNone : ∀ {α : Type} c, Heeds e swap c
          (throw .tooDeep : Parse α) := fun _ => Heeds.throw _ nofun
      have hFrontal : ∀ {α : Type}, Frontal (throw .tooDeep : Parse α) :=
        ⟨Parse.Local.throw nofun, fun _ => List.suffix_rfl⟩
      constructor
      case primary => exact hNone
      case binaryRest => exact fun _ _ _ => ⟨hFrontal, hNone⟩
      case lines => exact fun _ => ⟨hFrontal, hNone⟩
      case bindings => exact fun c _ => hNone c
      case block => exact Heeds.seeks hNone
      case indented => exact fun c _ => hNone c
      all_goals exact ⟨hFrontal, hNone⟩
  | succ n ih =>
      have hBlock : Frontal (block table n) :=
        ⟨(hLocal n).block, (hOrderly n).block.suffix⟩
      have hBindings : Frontal (bindings table n) :=
        ⟨(hLocal n).bindings, (hOrderly n).bindings.suffix⟩
      constructor
      case primary =>
        exact fun _ => Heeds.primary hEnd ih.expression ih.arguments
          (arguments_closed table n) hBindings ih.bindings hBlock ih.block
          ih.indented ih.primary
      case unary =>
        exact ⟨⟨(hLocal (n + 1)).unary, (hOrderly (n + 1)).unary.suffix⟩,
          fun c => Heeds.unary hEnd (ih.primary c) ih.unary⟩
      case binaryRest =>
        exact fun least lhs hLeast =>
          ⟨⟨(hLocal (n + 1)).binaryRest least lhs,
            ((hOrderly (n + 1)).binaryRest least lhs).suffix⟩,
            fun _ => Heeds.binaryRest hEnd ih.unary ih.binaryRest lhs
              hLeast⟩
      case expression =>
        exact ⟨⟨(hLocal (n + 1)).expression,
          (hOrderly (n + 1)).expression.suffix⟩,
          fun _ => ih.unary.bind fun lhs =>
            (ih.binaryRest 0 lhs le_rfl).heeds⟩
      case arguments =>
        exact ⟨⟨(hLocal (n + 1)).arguments,
          (hOrderly (n + 1)).arguments.suffix⟩,
          fun _ => Heeds.arguments hEnd ih.expression ih.arguments⟩
      case bindings =>
        exact fun _ => Heeds.bindings hEnd ih.expression hBindings
          ih.bindings
      case lines =>
        exact fun indent => ⟨⟨(hLocal (n + 1)).lines indent,
          ((hOrderly (n + 1)).lines indent).suffix⟩,
          fun _ => Heeds.lines hEnd ih.expression ih.lines indent⟩
      case block => exact Heeds.seeks_block hEnd ih.lines
      case indented =>
        exact fun _ => Heeds.block_of_indent hEnd ih.lines

/- The items of a program do the same. -/
theorem items_heeds
    (hEnd : e.IsEnd table)
    (swap : Swap)
    (n : Nat)
    (c : Token) :
    Heeds e swap c (items table n) := by
  induction n generalizing c with
  | zero => exact Heeds.throw _ nofun
  | succ n ih =>
      have hAll := heeds hEnd swap n
      have hBlock : Frontal (block table n) :=
        ⟨(isLocal table n).block, (orderly table n).block.suffix⟩
      have hItems : Frontal (items table n) :=
        ⟨isLocal_items table n, (orderly_items table n).suffix⟩
      refine Heeds.current (Heeds.ite (fun _ => Heeds.pure _) fun _ =>
        Heeds.ite (fun hSemicolon => ?_) fun _ => ?_)
      · exact Heeds.pass (hEnd.ne_of_isOperator hSemicolon) ih
      · refine Heeds.bind (frontal_item table n c.kind) ?_
          fun _ _ t _ => Heedful.bind ⟨hItems, ih⟩ fun _ _ => Heeds.pure _
        split
        · rename_i hKind
          exact Heeds.function hEnd hBlock hAll.block hKind
        · rename_i hKind
          exact Heeds.external hEnd hKind
        · exact hAll.expression.heeds c

end Offside.Grammar
