import Mathlib
import Offside.Proofs.Parser.Progress

/-
  Parsing with other tokens in the place of the last one: a
  production that succeeds before the end of a text succeeds in
  the same way when more tokens follow there, as long as the
  first of them continues nothing.

  Key definitions include:
    * `Offside.Amount.Alike`
    * `Offside.Token.Parts`
    * `Offside.ParseState.Continues`
    * `Offside.Parse.Follows`

  Main statements:
    * `Offside.Grammar.follows`: every production with a larger
      allowance follows the one with a smaller allowance.
    * `Offside.Grammar.items_continues`: the items before the end
      are followed by the items of the tokens put there.
-/

------------------------------------------------------------
-- Levels That Are Zero
------------------------------------------------------------

namespace Offside.Amount

/- The amount is zero, whole or not. -/
def IsZero
    (a : Amount) :
    Prop :=
  a.same (.whole 0) = true

/-
  Two levels that comparisons do not tell apart: they are the
  same, or both are zero.
-/
def Alike
    (a b : Amount) :
    Prop :=
  a = b ∨ a.IsZero ∧ b.IsZero

theorem Alike.refl
    (a : Amount) :
    a.Alike a :=
  .inl rfl

theorem Alike.isZero
    {a b : Amount}
    (hAlike : a.Alike b)
    (hZero : a.IsZero) :
    b.IsZero := by
  rcases hAlike with rfl | ⟨_, hOther⟩
  · exact hZero
  · exact hOther

/- Zero lies at a fraction whose numerator is zero. -/
theorem IsZero.place?_eq
    {a : Amount}
    (hZero : a.IsZero) :
    ∃ d : Nat, 0 < d ∧ a.place? = some (.at 0 d) := by
  cases a with
  | whole n =>
      have hSame : n = 0 := by
        simp [IsZero, same, place?, Binary64.Place.same,
          Binary64.Place.less] at hZero
        omega
      exact ⟨1, Nat.one_pos, by rw [hSame]; rfl⟩
  | real x =>
      cases x with
      | nan => simp [IsZero, same, place?, Binary64.place?] at hZero
      | infinite negative =>
          cases negative
          all_goals
            simp [IsZero, same, place?, Binary64.place?,
              Binary64.Place.same, Binary64.Place.less] at hZero
      | finite negative significand exponent =>
          refine ⟨Binary64.denominator exponent,
            Nat.pow_pos Nat.two_pos, ?_⟩
          simp only [IsZero, same, place?, Binary64.place?,
            Binary64.Place.same, Binary64.Place.less] at hZero
          simp only [place?, Binary64.place?, Option.some.injEq,
            Binary64.Place.at.injEq, and_true]
          simp at hZero
          omega

/- What is less than zero is so by its numerator alone. -/
theorem less_at_zero
    {d : Nat}
    (hPos : 0 < d)
    (p : Binary64.Place) :
    p.less (.at 0 d) = p.less (.at 0 1) ∧
      Binary64.Place.less (.at 0 d) p =
        Binary64.Place.less (.at 0 1) p := by
  cases p with
  | below => exact ⟨rfl, rfl⟩
  | above => exact ⟨rfl, rfl⟩
  | «at» n e =>
      have hInt : (0 : Int) < d := by exact_mod_cast hPos
      have hNeg : n * d < 0 ↔ n < 0 :=
        ⟨fun hLess => neg_of_mul_neg_left hLess hInt.le,
          fun hLess => mul_neg_of_neg_of_pos hLess hInt⟩
      simp [Binary64.Place.less, mul_pos_iff_of_pos_right hInt, hNeg]

theorem IsZero.less_eq
    {a : Amount}
    (hZero : a.IsZero)
    (c : Amount) :
    a.less c = (whole 0).less c := by
  rcases hZero.place?_eq with ⟨d, hPos, hPlace⟩
  unfold less
  rw [hPlace]
  cases c.place? with
  | none => rfl
  | some p => exact (less_at_zero hPos p).2

theorem IsZero.same_eq
    {a : Amount}
    (hZero : a.IsZero)
    (c : Amount) :
    c.same a = c.same (whole 0) := by
  rcases hZero.place?_eq with ⟨d, hPos, hPlace⟩
  unfold same
  rw [hPlace]
  cases c.place? with
  | none => rfl
  | some p =>
      rcases less_at_zero hPos p with ⟨hLeft, hRight⟩
      simp only [Binary64.Place.same, hLeft, hRight]
      rfl

theorem Alike.less_eq
    {a b : Amount}
    (hAlike : a.Alike b)
    (c : Amount) :
    a.less c = b.less c := by
  rcases hAlike with rfl | ⟨hA, hB⟩
  · rfl
  · rw [hA.less_eq, hB.less_eq]

theorem Alike.same_eq
    {a b : Amount}
    (hAlike : a.Alike b)
    (c : Amount) :
    c.same a = c.same b := by
  rcases hAlike with rfl | ⟨hA, hB⟩
  · rfl
  · rw [hA.same_eq, hB.same_eq]

end Offside.Amount

------------------------------------------------------------
-- Tokens Before and at the End
------------------------------------------------------------

namespace Offside

/-
  A token before the end of a text: it does not end the text,
  and an amount it carries is not below zero.
-/
structure Token.Inner
    (t : Token) :
    Prop where
  kind : t.kind ≠ .endOfText
  amount : ∀ a, t.value = .amount a →
    a.same (.whole 0) = true ∨ (Amount.whole 0).less a = true

/-
  The end of a text `e` and a token `t` that can stand there
  instead, because it continues no more than the end does.  It
  may be a parenthesis that closes: where one is looked for, the
  end of the text is refused.
-/
structure Token.Parts
    (table : Precedence)
    (e t : Token) :
    Prop where
  finish : e.kind = .endOfText
  looseEnd : table.of e.value = -1
  loose : table.of t.value = -1
  indent : t.kind ≠ .indent
  noElse : t.kind ≠ .kwElse
  operator : ∀ s, s ≠ ";" → s ≠ ")" → t.isOperator s = false

theorem Token.Parts.isOperator_end
    {table : Precedence}
    {e t : Token}
    (hParts : Token.Parts table e t)
    (s : String) :
    e.isOperator s = false := by
  simp [Token.isOperator, hParts.finish]

/-
  Two states with the same tokens up to the end of the first:
  there the second goes on with `t` and `ts`.  The levels are in
  the relation `L`.
-/
inductive ParseState.Continues
    (L : Amount → Amount → Prop)
    (e t : Token)
    (ts : List Token) :
    ParseState →
    ParseState →
    Prop where
  | last
      {level level' : Amount}
      (hLevel : L level level') :
      Continues L e t ts ⟨e, [], level⟩ ⟨t, ts, level'⟩
  | inner
      {u : Token}
      {us : List Token}
      {level level' : Amount}
      (hInner : ∀ v ∈ u :: us, v.Inner)
      (hLevel : L level level') :
      Continues L e t ts
        ⟨u, us ++ [e], level⟩ ⟨u, us ++ t :: ts, level'⟩

/- The states before such tokens. -/
theorem ParseState.continues_before
    {L : Amount → Amount → Prop}
    {e t : Token}
    {ts us : List Token}
    (hInner : ∀ v ∈ us, v.Inner)
    {level level' : Amount}
    (hLevel : L level level') :
    Continues L e t ts (.before level (us ++ [e]))
      (.before level' (us ++ t :: ts)) := by
  cases us with
  | nil => exact .last hLevel
  | cons u us => exact .inner hInner hLevel

theorem ParseState.Continues.mono
    {L M : Amount → Amount → Prop}
    {e t : Token}
    {ts : List Token}
    {s s' : ParseState}
    (hContinues : Continues L e t ts s s')
    (hMono : ∀ level level', L level level' → M level level') :
    Continues M e t ts s s' := by
  cases hContinues with
  | last hLevel => exact .last (hMono _ _ hLevel)
  | inner hInner hLevel => exact .inner hInner (hMono _ _ hLevel)

/- The same tokens with other levels. -/
theorem ParseState.Continues.setLevel
    {L M : Amount → Amount → Prop}
    {e t : Token}
    {ts : List Token}
    {s s' : ParseState}
    (hContinues : Continues L e t ts s s')
    {level level' : Amount}
    (hLevel : M level level') :
    Continues M e t ts
      { s with level := level } { s' with level := level' } := by
  cases hContinues with
  | last _ => exact .last hLevel
  | inner hInner _ => exact .inner hInner hLevel

theorem ParseState.Continues.level
    {L : Amount → Amount → Prop}
    {e t : Token}
    {ts : List Token}
    {s s' : ParseState}
    (hContinues : Continues L e t ts s s') :
    L s.level s'.level := by
  cases hContinues with
  | last hLevel => exact hLevel
  | inner _ hLevel => exact hLevel

namespace Parse

variable {α β : Type}

/-
  Whenever `p` succeeds, `q` gives the same result on tokens
  that go on after the end.
-/
def Follows
    (L : Amount → Amount → Prop)
    (e t : Token)
    (ts : List Token)
    (p q : Parse α) :
    Prop :=
  ∀ ⦃s s' : ParseState⦄, ParseState.Continues L e t ts s s' →
    ∀ ⦃a : α⦄ ⦃u : ParseState⦄, p s = .ok a u →
      ∃ u', q s' = .ok a u' ∧ ParseState.Continues L e t ts u u'

end Parse

end Offside

------------------------------------------------------------
-- Elementary Steps
------------------------------------------------------------

namespace Offside.Parse.Follows

open ParseState (Continues)

variable {α β : Type}
variable {table : Precedence}
variable {L : Amount → Amount → Prop}
variable {e t : Token}
variable {ts : List Token}

theorem pure
    (a : α) :
    Follows L e t ts (pure a) (pure a) := by
  intro s s' hContinues b u hRun
  cases hRun
  exact ⟨s', rfl, hContinues⟩

theorem throw
    (error : ParseError)
    (q : Parse α) :
    Follows L e t ts (throw error) q := by
  intro s s' hContinues b u hRun
  cases hRun

theorem bind
    {p q : Parse α}
    {k l : α → Parse β}
    (hStep : Follows L e t ts p q)
    (hNext : ∀ a, Follows L e t ts (k a) (l a)) :
    Follows L e t ts (p >>= k) (q >>= l) := by
  intro s s' hContinues b v hRun
  rcases Steps.bind_eq_ok hRun with ⟨a, u, hFirst, hSecond⟩
  rcases hStep hContinues hFirst with ⟨u', hFirst', hContinues'⟩
  rw [Steps.bind_ok hFirst']
  exact hNext a hContinues' hSecond

theorem ite
    {c : Prop}
    [Decidable c]
    {p p' q q' : Parse α}
    (hYes : Follows L e t ts p q)
    (hNo : Follows L e t ts p' q') :
    Follows L e t ts (if c then p else p') (if c then q else q') := by
  split
  · exact hYes
  · exact hNo

theorem advance :
    Follows L e t ts advance advance := by
  intro s s' hContinues a v hRun
  cases hContinues with
  | last hLevel => cases hRun
  | @inner u us level level' hInner hLevel =>
      cases us with
      | nil =>
          cases hRun
          exact ⟨_, rfl, .last hLevel⟩
      | cons w ws =>
          cases hRun
          refine ⟨_, rfl, .inner ?_ hLevel⟩
          exact fun x hMem => hInner x (List.mem_cons_of_mem _ hMem)

/-
  A step that looks at the current token.  Before the end both
  runs see the same one; at the end they do not, and what they
  do there is compared by itself.
-/
theorem current
    {k l : Token → Parse α}
    (hInner : ∀ u, u.Inner → Follows L e t ts (k u) (l u))
    (hLast : ∀ level level' : Amount, L level level' →
      ∀ ⦃a : α⦄ ⦃u : ParseState⦄, k e ⟨e, [], level⟩ = .ok a u →
        ∃ u', l t ⟨t, ts, level'⟩ = .ok a u' ∧
          Continues L e t ts u u') :
    Follows L e t ts (current >>= k) (current >>= l) := by
  intro s s' hContinues a u hRun
  cases hContinues with
  | last hLevel => exact hLast _ _ hLevel hRun
  | @inner v vs level level' hTokens hLevel =>
      exact hInner v (hTokens v List.mem_cons_self)
        (.inner hTokens hLevel) hRun

/- The same for a step that fails at the end. -/
theorem current_of_stuck
    {k l : Token → Parse α}
    (hInner : ∀ u, u.Inner → Follows L e t ts (k u) (l u))
    (hStuck : ∀ (level : Amount) (a : α) (u : ParseState),
      k e ⟨e, [], level⟩ ≠ .ok a u) :
    Follows L e t ts (Parse.current >>= k) (Parse.current >>= l) := by
  refine current hInner ?_
  intro level level' hLevel a u hRun
  exact absurd hRun (hStuck level a u)

/- The same for a step that takes both tokens for one. -/
theorem current_of_same
    {k l : Token → Parse α}
    (hInner : ∀ u, u.Inner → Follows L e t ts (k u) (l u))
    (hSame : Follows L e t ts (k e) (l t)) :
    Follows L e t ts (Parse.current >>= k) (Parse.current >>= l) :=
  current hInner fun _ _ hLevel _ _ hRun => hSame (.last hLevel) hRun

/- The end cannot be taken. -/
theorem advance_stuck
    (k : Unit → Parse α)
    (level : Amount)
    (a : α)
    (u : ParseState) :
    (Parse.advance >>= k) ⟨e, [], level⟩ ≠ .ok a u := by
  intro hRun
  cases hRun

theorem atOperator
    (hParts : Token.Parts table e t)
    {operator : String}
    (hOther : operator ≠ ";")
    (hInner : operator ≠ ")") :
    Follows L e t ts (atOperator operator) (atOperator operator) := by
  refine current_of_same (fun u _ => pure _) ?_
  rw [hParts.isOperator_end, hParts.operator operator hOther hInner]
  exact pure false

/-
  Whether a parenthesis closes here.  The end does not, and what
  is done then has to fail there.
-/
theorem atClosing
    (hParts : Token.Parts table e t)
    {k l : Bool → Parse α}
    (hNext : ∀ b, Follows L e t ts (k b) (l b))
    (hStuck : ∀ (level : Amount) (a : α) (u : ParseState),
      k false ⟨e, [], level⟩ ≠ .ok a u) :
    Follows L e t ts
      (Parse.atOperator ")" >>= k) (Parse.atOperator ")" >>= l) := by
  change Follows L e t ts
    (Parse.current >>= fun u => k (u.isOperator ")"))
    (Parse.current >>= fun u => l (u.isOperator ")"))
  refine current_of_stuck (fun u _ => hNext (u.isOperator ")")) ?_
  rw [hParts.isOperator_end]
  exact hStuck

theorem atKind
    (hParts : Token.Parts table e t)
    {kind : Kind}
    (hEnd : kind ≠ .endOfText)
    (hOther : t.kind ≠ kind) :
    Follows L e t ts (atKind kind) (atKind kind) := by
  refine current_of_same (fun u _ => pure _) ?_
  have hFinish : e.kind ≠ kind := by
    rw [hParts.finish]
    exact hEnd.symm
  simp only [hFinish, hOther, decide_false]
  exact pure false

/- The level is lowered in both. -/
theorem modifyLevel
    (change : Amount → Amount) :
    Follows Eq e t ts
      (modify fun s => { s with level := change s.level })
      (modify fun s => { s with level := change s.level }) := by
  intro s s' hContinues a u hRun
  cases hRun
  refine ⟨_, rfl, hContinues.setLevel ?_⟩
  rw [hContinues.level]

/- At the end nothing that is expected is found. -/
theorem expectOperator
    (hParts : Token.Parts table e t)
    (operator : String)
    (what : Expectation) :
    Follows L e t ts
      (expectOperator operator what)
      (expectOperator operator what) := by
  intro s s' hContinues a u hRun
  cases hContinues with
  | last hLevel =>
      simp [Parse.expectOperator, Steps.bind_apply,
        hParts.isOperator_end] at hRun
  | @inner v vs level level' hInner hLevel =>
      by_cases hOperator : v.isOperator operator = true
      · rw [expectOperator_apply hOperator] at hRun ⊢
        cases hRun
        exact ⟨_, rfl, .inner hInner hLevel⟩
      · simp [Parse.expectOperator, Steps.bind_apply,
          hOperator] at hRun

theorem expectKind
    (hParts : Token.Parts table e t)
    {kind : Kind}
    (hEnd : kind ≠ .endOfText)
    (what : Expectation) :
    Follows L e t ts (expectKind kind what) (expectKind kind what) := by
  intro s s' hContinues a u hRun
  cases hContinues with
  | last hLevel =>
      simp [Parse.expectKind, Steps.bind_apply, hParts.finish,
        hEnd.symm] at hRun
  | @inner v vs level level' hInner hLevel =>
      by_cases hKind : v.kind = kind
      · rw [expectKind_apply hKind] at hRun ⊢
        cases hRun
        exact ⟨_, rfl, .inner hInner hLevel⟩
      · simp [Parse.expectKind, Steps.bind_apply, hKind] at hRun

theorem expectColon
    (hParts : Token.Parts table e t)
    (keyword : String) :
    Follows L e t ts (expectColon keyword) (expectColon keyword) := by
  refine current_of_stuck
    (fun u _ => ite (pure ()) (throw _ _)) ?_
  intro level a u hRun
  simp [hParts.isOperator_end] at hRun

end Offside.Parse.Follows

------------------------------------------------------------
-- Expressions
------------------------------------------------------------

namespace Offside.Parse.Follows

variable {table : Precedence}
variable {L : Amount → Amount → Prop}
variable {e t : Token}
variable {ts : List Token}
variable {p p' q q' : Parse Node}
variable {ps ps' : Parse (List Node)}

theorem literal :
    Follows L e t ts literal literal :=
  current_of_stuck (fun _ _ => advance.bind fun _ => pure _)
    fun _ => advance_stuck _ _

theorem parenthesized
    (hParts : Token.Parts table e t)
    (hInner : Follows L e t ts p p') :
    Follows L e t ts (parenthesized p) (parenthesized p') :=
  advance.bind fun _ => hInner.bind fun _ =>
    (expectOperator hParts _ _).bind fun _ => advance.bind fun _ =>
      pure _

theorem arguments
    (hParts : Token.Parts table e t)
    (hFirst : Follows L e t ts p p')
    (hMore : Follows L e t ts ps ps') :
    Follows L e t ts (arguments p ps) (arguments p' ps') :=
  hFirst.bind fun _ => atClosing hParts
    (fun _ => ite (pure _)
      ((expectOperator hParts _ _).bind fun _ => advance.bind fun _ =>
        hMore.bind fun _ => pure _))
    fun level a u hRun => by
      simp [Parse.expectOperator, Steps.bind_apply,
        hParts.isOperator_end] at hRun

theorem named
    (hParts : Token.Parts table e t)
    (hArguments : Follows L e t ts ps ps')
    (hStuck : ∀ (level : Amount) (a : List Node) (u : ParseState),
      ps ⟨e, [], level⟩ ≠ .ok a u) :
    Follows L e t ts (named ps) (named ps') := by
  refine current_of_stuck (fun u _ => ?_) fun _ => advance_stuck _ _
  refine advance.bind fun _ =>
    (atOperator hParts (by decide) (by decide)).bind fun _ =>
      ite ?_ (pure _)
  refine advance.bind fun _ => bind ?_ fun _ =>
    advance.bind fun _ => pure _
  exact atClosing hParts (fun _ => ite (pure _) hArguments) hStuck

/- Neither the end nor what stands there is an operator in front. -/
theorem unary
    (hParts : Token.Parts table e t)
    (hPrimary : Follows L e t ts p p')
    (hStuck : ∀ (level : Amount) (a : Node) (u : ParseState),
      p ⟨e, [], level⟩ ≠ .ok a u)
    (hOperand : Follows L e t ts q q') :
    Follows L e t ts (unary p q) (unary p' q') := by
  refine current_of_stuck (fun u _ => ite hPrimary ?_) ?_
  · exact advance.bind fun _ => hOperand.bind fun _ => pure _
  · simpa [hParts.finish] using hStuck

theorem binaryRest
    (hParts : Token.Parts table e t)
    {rest rest' : Int → Node → Parse Node}
    (hUnary : Follows L e t ts p p')
    (hRest : ∀ least lhs,
      Follows L e t ts (rest least lhs) (rest' least lhs))
    (least : Int)
    (lhs : Node) :
    Follows L e t ts
      (binaryRest table p rest least lhs)
      (binaryRest table p' rest' least lhs) := by
  refine current (fun op _ => ite (pure lhs) ?_) ?_
  · refine advance.bind fun _ => hUnary.bind fun operand =>
      bind ?_ fun rhs => hRest least _
    refine current_of_same
      (fun u _ => ite (hRest _ operand) (pure operand)) ?_
    rw [hParts.looseEnd, hParts.loose]
    exact ite (hRest _ operand) (pure operand)
  · -- At the end an operator is sought in vain by both.
    intro level level' hLevel a u hRun
    rw [hParts.looseEnd] at hRun
    rw [hParts.loose]
    split at hRun
    · rename_i hLess
      rw [if_pos hLess]
      cases hRun
      exact ⟨_, rfl, .last hLevel⟩
    · cases hRun

theorem expression
    {rest rest' : Int → Node → Parse Node}
    (hUnary : Follows L e t ts p p')
    (hRest : ∀ least lhs,
      Follows L e t ts (rest least lhs) (rest' least lhs)) :
    Follows L e t ts (expression p rest) (expression p' rest') :=
  hUnary.bind fun lhs => hRest 0 lhs

end Offside.Parse.Follows

------------------------------------------------------------
-- Blocks and Statements
------------------------------------------------------------

namespace Offside.Parse.Follows

open ParseState (Continues)

variable {table : Precedence}
variable {L : Amount → Amount → Prop}
variable {e t : Token}
variable {ts : List Token}
variable {p p' q q' : Parse Node}
variable {ps ps' : Parse (List Node)}
variable {entries entries' : Parse (List (Value × Node))}

theorem lines
    (hParts : Token.Parts table e t)
    {more more' : Amount → Parse (List Node)}
    (hFirst : Follows L e t ts p p')
    (hMore : ∀ indent,
      Follows L e t ts (more indent) (more' indent))
    (indent : Amount) :
    Follows L e t ts (lines p more indent) (lines p' more' indent) := by
  refine hFirst.bind fun node => current_of_same (fun u _ => ?_) ?_
  · refine ite (pure [node]) ?_
    cases u.value with
    | text s => exact throw _ _
    | amount found =>
        have hOthers :
            Follows L e t ts
              (do
                Parse.advance
                let nodes ← more indent
                return node :: nodes)
              (do
                Parse.advance
                let nodes ← more' indent
                return node :: nodes) :=
          advance.bind fun _ => (hMore indent).bind fun _ => pure _
        exact ite (pure [node])
          (ite ((throw _ (MonadExcept.throw _)).bind fun _ => hOthers) hOthers)
  · rw [if_pos (by rw [hParts.finish]; decide), if_pos hParts.indent]
    exact pure [node]

/- What starts no expression is never parsed as one. -/
theorem unknown_ne_ok
    (s : ParseState)
    (a : Node)
    (u : ParseState) :
    Parse.unknown s ≠ .ok a u := by
  intro hRun
  rcases Steps.bind_eq_ok hRun with ⟨_, _, _, hRun⟩
  rcases Steps.bind_eq_ok hRun with ⟨_, _, _, hRun⟩
  cases hRun

/-
  A block.  Its level is set to its indentation before its lines
  are parsed, so that from there on both runs have the same one.
  A level of zero is never above an indentation.
-/
theorem block
    (hRefl : ∀ level, L level level)
    (hAlike : ∀ level level', L level level' → level.Alike level')
    {lines lines' : Amount → Parse (List Node)}
    (hLines : ∀ indent,
      Follows Eq e t ts (lines indent) (lines' indent)) :
    Follows L e t ts (block lines) (block lines') := by
  refine current_of_stuck (fun u hInner => advance.bind fun _ => ?_)
    fun _ => advance_stuck _ _
  intro s s' hContinues a v hRun
  have hLevels := hAlike _ _ hContinues.level
  rw [Steps.bind_ok (Steps.get_apply s)] at hRun
  rw [Steps.bind_ok (Steps.get_apply s')]
  cases hValue : u.value with
  | text _ =>
      rw [hValue] at hRun
      cases hRun
  | amount indent =>
      rw [hValue] at hRun
      dsimp only at hRun ⊢
      rw [hLevels.same_eq, hLevels.less_eq] at hRun
      split at hRun
      · cases hRun
      · rename_i hNew
        rw [if_neg hNew]
        split at hRun
        · rename_i hLess
          rw [if_pos hLess]
          have hOpened :
              Follows Eq e t ts
                (do
                  let nodes ← lines indent
                  modify fun s =>
                    { s with level := s.level.minus levelWidth }
                  return Node.block nodes)
                (do
                  let nodes ← lines' indent
                  modify fun s =>
                    { s with level := s.level.minus levelWidth }
                  return Node.block nodes) :=
            (hLines indent).bind fun _ =>
              (modifyLevel fun level => level.minus levelWidth).bind
                fun _ => pure _
          rcases hOpened (hContinues.setLevel rfl) hRun with
            ⟨v', hRun', hEqual⟩
          exact ⟨v', hRun', hEqual.mono fun _ _ hSame => hSame ▸ hRefl _⟩
        · rename_i hDeep
          rw [if_neg hDeep]
          cases hRun
          refine ⟨_, rfl, hContinues.setLevel ?_⟩
          rcases hLevels with hSame | ⟨hZero, hZero'⟩
          · rw [hSame]
            exact hRefl _
          · rw [hZero'.same_eq] at hNew
            rw [hZero'.less_eq] at hDeep
            exact absurd (hInner.amount indent hValue) (by simp [hNew, hDeep])

theorem branch
    (hParts : Token.Parts table e t)
    (hCondition : Follows L e t ts p p')
    (hBlock : Follows L e t ts q q') :
    Follows L e t ts (branch p q) (branch p' q') := by
  refine current_of_stuck (fun u _ => ?_) fun _ => advance_stuck _ _
  refine advance.bind fun _ => hCondition.bind fun cond =>
    (expectColon hParts _).bind fun _ => advance.bind fun _ =>
      hBlock.bind fun yes =>
        (atKind hParts (by decide) hParts.indent).bind fun _ => ?_
  refine ite (advance.bind fun _ => ?_) ?_
  all_goals
    refine bind ?_ fun _ => pure _
    exact (atKind hParts (by decide) hParts.noElse).bind fun _ => ite
      (advance.bind fun _ => (expectColon hParts _).bind fun _ =>
        advance.bind fun _ => hBlock)
      (pure _)

theorem loop
    (hParts : Token.Parts table e t)
    (hPart : Follows L e t ts p p') :
    Follows L e t ts (loop p) (loop p') := by
  refine advance.bind fun _ =>
    (expectKind hParts (by decide) _).bind fun _ =>
      current_of_stuck (fun counter _ => ?_) fun _ =>
        advance_stuck _ _
  refine advance.bind fun _ => (expectOperator hParts _ _).bind fun _ =>
    advance.bind fun _ => hPart.bind fun first =>
      (expectOperator hParts _ _).bind fun _ => advance.bind fun _ =>
        hPart.bind fun last => ?_
  refine bind ?_ fun step =>
    (expectKind hParts (by decide) _).bind fun _ =>
      advance.bind fun _ => hPart.bind fun body => pure _
  exact (atOperator hParts (by decide) (by decide)).bind fun _ =>
    ite (advance.bind fun _ => hPart) (pure _)

theorem bindings
    (hParts : Token.Parts table e t)
    (hValue : Follows L e t ts p p')
    (hMore : Follows L e t ts entries entries') :
    Follows L e t ts (bindings p entries) (bindings p' entries') := by
  refine current_of_stuck (fun name _ => ?_) fun _ => advance_stuck _ _
  refine advance.bind fun _ => bind ?_ fun value =>
    (atOperator hParts (by decide) (by decide)).bind fun _ =>
      ite ?_ (pure _)
  · exact (atOperator hParts (by decide) (by decide)).bind fun _ =>
      ite (advance.bind fun _ => hValue) (pure _)
  · exact advance.bind fun _ =>
      (expectKind hParts (by decide) _).bind fun _ =>
        hMore.bind fun others => pure _

theorem declaration
    (hParts : Token.Parts table e t)
    (hBody : Follows L e t ts p p')
    (hEntries : Follows L e t ts entries entries') :
    Follows L e t ts
      (declaration p entries) (declaration p' entries') :=
  advance.bind fun _ => (expectKind hParts (by decide) _).bind fun _ =>
    hEntries.bind fun _ =>
      (expectKind hParts (by decide) _).bind fun _ =>
        advance.bind fun _ => hBody.bind fun _ => pure _

theorem returned
    (hValue : Follows L e t ts p p') :
    Follows L e t ts (returned p) (returned p') :=
  advance.bind fun _ => hValue.bind fun _ => pure _

theorem unknown
    (q : Parse Node) :
    Follows L e t ts unknown q := by
  intro s s' hContinues a u hRun
  exact absurd hRun (unknown_ne_ok s a u)

end Offside.Parse.Follows

namespace Offside.Parse

variable {table : Precedence}
variable {L : Amount → Amount → Prop}
variable {e t : Token}
variable {ts : List Token}

/- Parts of which those of the second follow those of the first. -/
structure Parts.AllFollow
    (L : Amount → Amount → Prop)
    (e t : Token)
    (ts : List Token)
    (parts parts' : Parts) :
    Prop where
  expression : Follows L e t ts parts.expression parts'.expression
  arguments : Follows L e t ts parts.arguments parts'.arguments
  bindings : Follows L e t ts parts.bindings parts'.bindings
  block : Follows L e t ts parts.block parts'.block
  primary : Follows L e t ts parts.primary parts'.primary

/- The end starts no primary expression. -/
theorem primary_stuck
    (hParts : Token.Parts table e t)
    (parts : Parts)
    (level : Amount)
    (a : Node)
    (u : ParseState) :
    primary parts ⟨e, [], level⟩ ≠ .ok a u := by
  intro hRun
  rw [primary, Steps.bind_ok (current_apply _), hParts.finish] at hRun
  cases hRun

theorem Follows.primary
    (hParts : Token.Parts table e t)
    {parts parts' : Parts}
    (hAll : parts.AllFollow L e t ts parts')
    (hStuck : ∀ (level : Amount) (a : List Node) (u : ParseState),
      parts.arguments ⟨e, [], level⟩ ≠ .ok a u) :
    Follows L e t ts (primary parts) (primary parts') := by
  refine Follows.current_of_stuck (fun u _ => ?_) ?_
  · cases u.kind
    case identifier => exact Follows.named hParts hAll.arguments hStuck
    case floatLiteral => exact Follows.literal
    case kwIf => exact Follows.branch hParts hAll.expression hAll.block
    case kwFor => exact Follows.loop hParts hAll.expression
    case kwVar =>
      exact Follows.declaration hParts hAll.expression hAll.bindings
    case kwReturn => exact Follows.returned hAll.expression
    case indent => exact hAll.block
    case operator =>
      exact Follows.ite (Follows.parenthesized hParts hAll.expression)
        (Follows.ite (Follows.advance.bind fun _ => hAll.primary)
          (Follows.unknown _))
    all_goals exact Follows.unknown _
  · exact primary_stuck hParts parts

end Offside.Parse

------------------------------------------------------------
-- Prototypes and Items
------------------------------------------------------------

namespace Offside.Parse

open ParseState (Continues)

variable {α : Type}
variable {table : Precedence}
variable {L : Amount → Amount → Prop}
variable {e t : Token}
variable {ts : List Token}

/-
  Parameters that are closed are the same when other tokens
  follow at the end.  At the end itself they would not be closed.
-/
theorem parametersFrom_follows
    (hParts : Token.Parts table e t)
    {v : ParseState}
    (hClosed : v.current.isOperator ")" = true) :
    (us : List Token) →
    (∀ u ∈ us, u.Inner) →
    (s s' : ParseState) →
    L s.level s'.level →
    (nodes : List Node) →
    parametersFrom s (us ++ [e]) = .ok nodes v →
    ∃ v', parametersFrom s' (us ++ t :: ts) = .ok nodes v' ∧
      Continues L e t ts v v'
  | [], _, s, s', _, nodes, hRun => by
      simp only [List.nil_append, parametersFrom, hParts.finish,
        reduceCtorEq, if_false] at hRun
      cases hRun
      rw [hParts.isOperator_end] at hClosed
      cases hClosed
  | [u], hInner, s, s', hLevel, nodes, hRun => by
      simp only [List.cons_append, List.nil_append, parametersFrom,
        hParts.isOperator_end, Bool.false_eq_true, if_false] at hRun ⊢
      split at hRun
      · cases hRun
        rw [hParts.isOperator_end] at hClosed
        cases hClosed
      · rename_i hOther
        rw [if_neg hOther]
        cases hRun
        exact ⟨_, rfl, .inner hInner hLevel⟩
  | u :: w :: us, hInner, s, s', hLevel, nodes, hRun => by
      simp only [List.cons_append, parametersFrom] at hRun ⊢
      have hLater : ∀ x ∈ w :: us, x.Inner :=
        fun x hMem => hInner x (List.mem_cons_of_mem u hMem)
      split at hRun
      · rename_i hName
        rw [if_pos hName]
        split at hRun
        · rename_i hComma
          rw [if_pos hComma]
          split at hRun
          · rename_i others v' hMore
            cases hRun
            rcases
                parametersFrom_follows hParts hClosed us
                  (fun x hMem => hLater x (List.mem_cons_of_mem w hMem))
                  { s with current := w } { s' with current := w }
                  hLevel others hMore with
              ⟨v', hMore', hContinues⟩
            rw [hMore']
            exact ⟨v', rfl, hContinues⟩
          · cases hRun
        · rename_i hComma
          rw [if_neg hComma]
          cases hRun
          exact ⟨_, rfl, .inner hLater hLevel⟩
      · rename_i hOther
        rw [if_neg hOther]
        cases hRun
        exact ⟨_, rfl, .inner hInner hLevel⟩

namespace Follows

/- Parameters up to the parenthesis that closes them. -/
theorem parameters
    (hParts : Token.Parts table e t)
    (what : Expectation)
    {k l : List Node → Parse α}
    (hNext : ∀ args, Follows L e t ts (k args) (l args)) :
    Follows L e t ts
      (do
        let args ← parameters
        Parse.expectOperator ")" what
        k args)
      (do
        let args ← parameters
        Parse.expectOperator ")" what
        l args) := by
  intro s s' hContinues a u hRun
  rcases Steps.bind_eq_ok hRun with ⟨args, v, hArgs, hRest⟩
  have hClosed : v.current.isOperator ")" = true := by
    by_contra hOpen
    simp [Parse.expectOperator, Steps.bind_apply, hOpen] at hRest
  obtain ⟨v', hArgs', hContinues'⟩ :
      ∃ v', Parse.parameters s' = .ok args v' ∧
        Continues L e t ts v v' := by
    cases hContinues with
    | last hLevel => cases hArgs
    | @inner w ws level level' hInner hLevel =>
        exact parametersFrom_follows hParts hClosed ws
          (fun x hMem => hInner x (List.mem_cons_of_mem w hMem))
          ⟨w, ws ++ [e], level⟩ ⟨w, ws ++ t :: ts, level'⟩ hLevel args
          hArgs
  rw [Steps.bind_ok hArgs']
  exact (expectOperator hParts _ _).bind (fun _ => hNext args)
    hContinues' hRest

theorem externPrototype
    (hParts : Token.Parts table e t) :
    Follows L e t ts externPrototype externPrototype := by
  refine current_of_stuck (fun name _ => ?_) ?_
  · exact (expectKind hParts (by decide) _).bind fun _ =>
      advance.bind fun _ => (expectOperator hParts _ _).bind fun _ =>
        parameters hParts _ fun _ => advance.bind fun _ => pure _
  · intro level a u hRun
    rcases Steps.bind_eq_ok hRun with ⟨_, v, hKind, _⟩
    simp [Parse.expectKind, Steps.bind_apply, hParts.finish] at hKind

theorem functionPrototype
    (hParts : Token.Parts table e t) :
    Follows L e t ts functionPrototype functionPrototype :=
  (externPrototype hParts).bind fun _ =>
    (expectOperator hParts _ _).bind fun _ => advance.bind fun _ =>
      pure _

theorem function
    (hParts : Token.Parts table e t)
    {p p' : Parse Node}
    (hBlock : Follows L e t ts p p') :
    Follows L e t ts (function p) (function p') :=
  advance.bind fun _ => (functionPrototype hParts).bind fun _ =>
    hBlock.bind fun _ => pure _

theorem external
    (hParts : Token.Parts table e t) :
    Follows L e t ts external external :=
  advance.bind fun _ => externPrototype hParts

end Follows

end Offside.Parse

------------------------------------------------------------
-- The Grammar
------------------------------------------------------------

namespace Offside.Grammar

open Parse (Follows)
open ParseState (Continues)

variable {table : Precedence}
variable {e t : Token}
variable {ts : List Token}

/- All productions at an allowance `m` follow those at `n`. -/
structure AllFollow
    (table : Precedence)
    (L : Amount → Amount → Prop)
    (e t : Token)
    (ts : List Token)
    (n m : Nat) :
    Prop where
  primary : Follows L e t ts (primary table n) (primary table m)
  unary : Follows L e t ts (unary table n) (unary table m)
  binaryRest : ∀ least lhs,
    Follows L e t ts
      (binaryRest table n least lhs) (binaryRest table m least lhs)
  expression :
    Follows L e t ts (expression table n) (expression table m)
  arguments : Follows L e t ts (arguments table n) (arguments table m)
  bindings : Follows L e t ts (bindings table n) (bindings table m)
  lines : ∀ indent,
    Follows L e t ts (lines table n indent) (lines table m indent)
  block : Follows L e t ts (block table n) (block table m)

theorem primary_stuck
    (hParts : Token.Parts table e t)
    (n : Nat)
    (level : Amount)
    (a : Node)
    (u : ParseState) :
    primary table n ⟨e, [], level⟩ ≠ .ok a u := by
  cases n with
  | zero => exact fun hRun => by cases hRun
  | succ n => exact Parse.primary_stuck hParts _ level a u

/- Nor are there arguments at the end, as each takes a token. -/
theorem arguments_stuck
    (table : Precedence)
    (n : Nat)
    (level : Amount)
    (nodes : List Node)
    (u : ParseState) :
    arguments table n ⟨e, [], level⟩ ≠ .ok nodes u := by
  intro hRun
  cases n with
  | zero => cases hRun
  | succ n =>
      rcases Steps.bind_eq_ok hRun with ⟨node, v, hFirst, _⟩
      have hTaken := (progress table n).expression _ _ _ hFirst
      exact absurd hTaken (by simp)

/-
  One more nested production.  The lines of a block are followed
  with the same level, whatever the relation is outside.
-/
theorem AllFollow.succ
    (hParts : Token.Parts table e t)
    {L : Amount → Amount → Prop}
    (hRefl : ∀ level, L level level)
    (hAlike : ∀ level level', L level level' → level.Alike level')
    {n m : Nat}
    (hBelow : AllFollow table L e t ts n m)
    (hEqual : AllFollow table Eq e t ts n m) :
    AllFollow table L e t ts (n + 1) (m + 1) where
  primary :=
    Follows.primary hParts
      ⟨hBelow.expression, hBelow.arguments, hBelow.bindings,
        hBelow.block, hBelow.primary⟩
      (arguments_stuck table n)
  unary :=
    Follows.unary hParts hBelow.primary (primary_stuck hParts n)
      hBelow.unary
  binaryRest :=
    Follows.binaryRest hParts hBelow.unary hBelow.binaryRest
  expression := Follows.expression hBelow.unary hBelow.binaryRest
  arguments :=
    Follows.arguments hParts hBelow.expression hBelow.arguments
  bindings := Follows.bindings hParts hBelow.expression hBelow.bindings
  lines := Follows.lines hParts hBelow.expression hBelow.lines
  block := Follows.block hRefl hAlike hEqual.lines

theorem AllFollow.zero
    (L : Amount → Amount → Prop)
    (m : Nat) :
    AllFollow table L e t ts 0 m := by
  constructor
  case binaryRest => exact fun _ _ => Follows.throw _ _
  case lines => exact fun _ => Follows.throw _ _
  all_goals exact Follows.throw _ _

theorem follows_equal
    (hParts : Token.Parts table e t)
    {n m : Nat}
    (hAllowed : n ≤ m) :
    AllFollow table Eq e t ts n m := by
  induction n generalizing m with
  | zero => exact .zero Eq m
  | succ n ih =>
      rcases Nat.exists_eq_add_of_lt hAllowed with ⟨k, rfl⟩
      have hBelow := ih (Nat.le_add_right n k)
      exact .succ hParts (fun _ => rfl)
        (fun _ _ hSame => .inl hSame) hBelow hBelow

/-
  Every production follows itself, with a larger allowance, when
  the level is the same or both levels are zero.
-/
theorem follows
    (hParts : Token.Parts table e t)
    {n m : Nat}
    (hAllowed : n ≤ m) :
    AllFollow table Amount.Alike e t ts n m := by
  induction n generalizing m with
  | zero => exact .zero _ m
  | succ n ih =>
      rcases Nat.exists_eq_add_of_lt hAllowed with ⟨k, rfl⟩
      have hLess := Nat.le_add_right n k
      exact .succ hParts Amount.Alike.refl (fun _ _ hAlike => hAlike)
        (ih hLess) (follows_equal hParts hLess)

/- So does every item of a program. -/
theorem follows_item
    (hParts : Token.Parts table e t)
    {n m : Nat}
    (hAllowed : n ≤ m)
    (kind : Kind) :
    Follows Amount.Alike e t ts
      (match kind with
      | .kwFunction => Parse.function (block table n)
      | .kwExtern => Parse.external
      | _ => expression table n)
      (match kind with
      | .kwFunction => Parse.function (block table m)
      | .kwExtern => Parse.external
      | _ => expression table m) := by
  have hBelow : AllFollow table Amount.Alike e t ts n m :=
    follows hParts hAllowed
  cases kind
  case kwFunction => exact Follows.function hParts hBelow.block
  case kwExtern => exact Follows.external hParts
  all_goals exact hBelow.expression

/-
  The items up to the end, and after them those of the tokens
  that go on there.  Every item takes a token, so that an
  allowance is left for the others.
-/
theorem items_continues
    (hParts : Token.Parts table e t)
    {n m k : Nat}
    {s s' v : ParseState}
    {nodes others : List Node}
    (hContinues : Continues Amount.Alike e t ts s s')
    (hRun : items table n s = .ok nodes v)
    (hOthers : ∀ m level, k ≤ m → v.level.Alike level →
      ∃ u, items table m ⟨t, ts, level⟩ = .ok others u)
    (hAllowed : n ≤ m)
    (hLeft : k + s.rest.length ≤ m) :
    ∃ u, items table m s' = .ok (nodes ++ others) u := by
  induction n generalizing m s s' nodes with
  | zero => cases hRun
  | succ n ih =>
      rcases Nat.exists_eq_add_of_lt hAllowed with ⟨j, rfl⟩
      cases hContinues with
      | last hLevel =>
          rw [items, Parse.items, Steps.bind_ok (Parse.current_apply _),
            if_pos hParts.finish] at hRun
          cases hRun
          exact hOthers _ _ (Nat.le_of_add_right_le hLeft) hLevel
      | @inner w ws level level' hInner hLevel =>
          have hKind := (hInner w List.mem_cons_self).kind
          rw [items, Parse.items, Steps.bind_ok (Parse.current_apply _),
            if_neg hKind] at hRun ⊢
          have hState :
              Continues Amount.Alike e t ts
                ⟨w, ws ++ [e], level⟩ ⟨w, ws ++ t :: ts, level'⟩ :=
            .inner hInner hLevel
          split at hRun
          · rename_i hSemicolon
            rw [if_pos hSemicolon]
            rcases Steps.bind_eq_ok hRun with ⟨_, u, hAdvance, hMore⟩
            have hTaken := Parse.Takes.advance _ _ _ hAdvance
            rcases Follows.advance hState hAdvance with
              ⟨u', hAdvance', hNext⟩
            rw [Steps.bind_ok hAdvance']
            exact ih hNext hMore (Nat.le_add_right n j) (by omega)
          · rename_i hItems
            rw [if_neg hItems]
            rcases Steps.bind_eq_ok hRun with ⟨node, u, hItem, hMore⟩
            rcases Steps.bind_eq_ok hMore with ⟨rest, x, hRest, hDone⟩
            cases hDone
            have hTaken := Parse.Takes.item table n w.kind _ _ _ hItem
            rcases
                follows_item hParts (Nat.le_add_right n j) w.kind hState
                  hItem with
              ⟨u', hItem', hNext⟩
            rcases
                ih hNext hRest (Nat.le_add_right n j) (by omega) with
              ⟨y, hRest'⟩
            exact ⟨y, (Steps.bind_ok hItem' _).trans
              ((Steps.bind_ok hRest' _).trans rfl)⟩

end Offside.Grammar
