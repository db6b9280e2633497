import Mathlib
import Offside.Proofs.Parser.Locality
import Offside.Proofs.Parser.Turns

/-
  Semicolons at the end of a line: a production that ends where
  the next line begins, or the text ends, gives the same result
  when a semicolon stands there, and ends before it.

  Key definitions include:
    * `Offside.Junction`
    * `Offside.Parse.Keeps`

  Main statements:
    * `Offside.Grammar.keeps`: this is so for every production.
    * `Offside.Grammar.keeps_item`: and for the items of a program.
    * `Offside.Parse.Keeps.exists_left`: what is left then.
-/

------------------------------------------------------------
-- Junctions
------------------------------------------------------------

namespace Offside

/-
  The place where a line ends, with a semicolon and without it.
  The tokens after it need not be the same.
-/
structure Junction
    (table : Precedence) where
  semicolon : Token
  next : Token
  after : List Token
  after' : List Token
  isSemicolon : semicolon.isOperator ";" = true
  ends : next.kind = .indent ∨ next.kind = .endOfText
  loose : table.of semicolon.value < 0
  looseNext : table.of next.value < 0

namespace Junction

variable {table : Precedence}

/- The state at the semicolon. -/
def marked
    (j : Junction table)
    (level : Amount) :
    ParseState :=
  ⟨j.semicolon, j.next :: j.after, level⟩

/- The state at the same place without it. -/
def bare
    (j : Junction table)
    (level : Amount) :
    ParseState :=
  ⟨j.next, j.after', level⟩

variable (j : Junction table)

theorem kind_semicolon :
    j.semicolon.kind = .operator := by
  have hSemicolon := j.isSemicolon
  simp only [Token.isOperator, Bool.and_eq_true, decide_eq_true_eq]
    at hSemicolon
  exact hSemicolon.1

theorem isOperator_semicolon
    {operator : String}
    (hOther : operator ≠ ";") :
    j.semicolon.isOperator operator = false := by
  have hSemicolon := j.isSemicolon
  simp only [Token.isOperator, Bool.and_eq_true, decide_eq_true_eq]
    at hSemicolon
  simp [Token.isOperator, hSemicolon.2, hOther.symm]

theorem isOperator_next
    (operator : String) :
    j.next.isOperator operator = false := by
  rcases j.ends with hKind | hKind <;> simp [Token.isOperator, hKind]

theorem kind_next
    {kind : Kind}
    (hIndent : kind ≠ .indent)
    (hEnd : kind ≠ .endOfText) :
    j.next.kind ≠ kind := by
  rcases j.ends with hKind | hKind
  · rw [hKind]
    exact hIndent.symm
  · rw [hKind]
    exact hEnd.symm

/- A state with more tokens than that is before the junction. -/
theorem ne_bare
    {s : ParseState}
    (hMore : j.after'.length < s.rest.length)
    (level : Amount) :
    s ≠ j.bare level := by
  rintro rfl
  exact absurd hMore (lt_irrefl _)

theorem followedBy_ne_bare
    (s : ParseState)
    (level : Amount) :
    s.followedBy (j.next :: j.after') ≠ j.bare level := by
  apply j.ne_bare
  simp only [ParseState.followedBy, List.length_append, List.length_cons]
  omega

end Junction

namespace Parse

variable {α β : Type}
variable {table : Precedence}

/-
  What `q` does at the junction without taking a token, `p` does
  at the semicolon.
-/
def Rests
    (j : Junction table)
    (p q : Parse α) :
    Prop :=
  ∀ level a level', q (j.bare level) = .ok a (j.bare level') →
    p (j.marked level) = .ok a (j.marked level')

/-
  A step whose runs up to a junction end at the semicolon when
  there is one.
-/
structure Keeps
    (j : Junction table)
    (p : Parse α) :
    Prop where
  frontal : Frontal p
  inner : ∀ {s : ParseState} {a level},
    p (s.followedBy (j.next :: j.after')) = .ok a (j.bare level) →
    p (s.followedBy (j.semicolon :: j.next :: j.after)) =
      .ok a (j.marked level)
  edge : Rests j p p

end Parse

end Offside

------------------------------------------------------------
-- Elementary Steps
------------------------------------------------------------

namespace Offside.Parse

variable {α β : Type}
variable {table : Precedence}
variable {j : Junction table}

theorem Frontal.takes
    {p : Parse α}
    (hStep : Frontal p) :
    Takes 0 p :=
  fun _ _ _ hRun => hStep.shrinks hRun

namespace Rests

theorem pure
    (a : α) :
    Rests j (pure a) (pure a) := by
  intro level b level' hRun
  cases hRun
  rfl

/- Nothing is to be shown of a step that takes a token. -/
theorem of_takes
    {q : Parse α}
    (hTakes : Takes 1 q)
    (p : Parse α) :
    Rests j p q := by
  intro level a level' hRun
  have hTaken := hTakes _ _ _ hRun
  exact absurd hTaken (Nat.not_succ_le_self _)

/- Nor of a step that fails at the junction. -/
theorem of_stuck
    {q : Parse α}
    (hStuck : ∀ level a t, q (j.bare level) ≠ .ok a t)
    (p : Parse α) :
    Rests j p q :=
  fun _ _ _ hRun => absurd hRun (hStuck _ _ _)

end Rests

namespace Keeps

variable {p q : Parse α}

theorem pure
    (a : α) :
    Keeps j (pure a) where
  frontal := .pure a
  inner {s b level} hRun := by
    injection hRun with _ hState
    exact absurd hState (j.followedBy_ne_bare s level)
  edge := Rests.pure a

theorem throw
    {e : ParseError}
    (hOther : e ≠ .endOfTokens) :
    Keeps j (throw e : Parse α) where
  frontal := .throw hOther
  inner hRun := by cases hRun
  edge _ _ _ hRun := by cases hRun

/-
  Between two steps the first run has not come to the junction,
  or it is at it, as the second step gives no tokens back.
-/
theorem bind
    {k : α → Parse β}
    (hStep : Keeps j p)
    (hNext : ∀ a, Keeps j (k a)) :
    Keeps j (p >>= k) where
  frontal := hStep.frontal.bind fun a => (hNext a).frontal
  inner {s b level} hRun := by
    rcases Steps.bind_eq_ok hRun with ⟨a, t, hFirst, hSecond⟩
    have hLeft := (hNext a).frontal.shrinks hSecond
    by_cases hAt : t.rest.length = j.after'.length
    · have hState : t = j.bare t.level :=
        hStep.frontal.eq_of_length s.tokens rfl hFirst hAt
      rw [hState] at hFirst hSecond
      rw [Steps.bind_ok (hStep.inner hFirst)]
      exact (hNext a).edge _ _ _ hSecond
    · have hBefore : (j.next :: j.after').length ≤ t.rest.length := by
        simp only [Junction.bare] at hLeft
        simp only [List.length_cons]
        omega
      rcases hStep.frontal.isLocal.ok_of_followed hFirst hBefore with
        ⟨u, rfl, hSame⟩
      rw [Steps.bind_ok (hSame _)]
      exact (hNext a).inner hSecond
  edge level b level' hRun := by
    rcases Steps.bind_eq_ok hRun with ⟨a, t, hFirst, hSecond⟩
    have hLeft := (hNext a).frontal.shrinks hSecond
    have hShrinks := hStep.frontal.shrinks hFirst
    have hState : t = j.bare t.level :=
      hStep.frontal.eq_of_length [] rfl hFirst
        (le_antisymm hShrinks hLeft)
    rw [hState] at hFirst hSecond
    rw [Steps.bind_ok (hStep.edge _ _ _ hFirst)]
    exact (hNext a).edge _ _ _ hSecond

/-
  A run that has not passed the junction leaves the same tokens
  before the semicolon.
-/
theorem exists_left
    (hKeeps : Keeps j p)
    {s t : ParseState}
    {a : α}
    (hRun : p (s.followedBy (j.next :: j.after')) = .ok a t)
    (hLeft : j.after'.length ≤ t.rest.length) :
    ∃ us level,
      us <:+ s.tokens ∧
      t = .before level (us ++ j.next :: j.after') ∧
      p (s.followedBy (j.semicolon :: j.next :: j.after)) =
        .ok a (.before level (us ++ j.semicolon :: j.next :: j.after)) := by
  by_cases hAt : t.rest.length = j.after'.length
  · have hState : t = j.bare t.level :=
      hKeeps.frontal.eq_of_length s.tokens rfl hRun hAt
    rw [hState] at hRun
    exact ⟨[], t.level, List.nil_suffix, hState, hKeeps.inner hRun⟩
  · have hBefore : (j.next :: j.after').length ≤ t.rest.length := by
      simp only [List.length_cons]
      omega
    rcases hKeeps.frontal.isLocal.ok_of_followed hRun hBefore with
      ⟨u, rfl, hSame⟩
    refine ⟨u.tokens, u.level, ?_, rfl, hSame _⟩
    have hAlone := hSame []
    simp only [ParseState.followedBy, List.append_nil] at hAlone
    have hSuffix := hKeeps.frontal.suffix s
    rwa [hAlone] at hSuffix

/- Before a step that fails at the junction, the first need not keep. -/
theorem before_stuck
    {k : α → Parse β}
    (hStep : Frontal p)
    (hNext : ∀ a, Keeps j (k a))
    (hStuck : ∀ a level b t, k a (j.bare level) ≠ .ok b t) :
    Keeps j (p >>= k) where
  frontal := hStep.bind fun a => (hNext a).frontal
  inner {s b level} hRun := by
    rcases Steps.bind_eq_ok hRun with ⟨a, t, hFirst, hSecond⟩
    have hLeft := (hNext a).frontal.shrinks hSecond
    have hAt : t.rest.length ≠ j.after'.length := by
      intro hAt
      have hState : t = j.bare t.level :=
        hStep.eq_of_length s.tokens rfl hFirst hAt
      rw [hState] at hSecond
      exact hStuck a _ _ _ hSecond
    have hBefore : (j.next :: j.after').length ≤ t.rest.length := by
      simp only [Junction.bare] at hLeft
      simp only [List.length_cons]
      omega
    rcases hStep.isLocal.ok_of_followed hFirst hBefore with
      ⟨u, rfl, hSame⟩
    rw [Steps.bind_ok (hSame _)]
    exact (hNext a).inner hSecond
  edge level b level' hRun := by
    rcases Steps.bind_eq_ok hRun with ⟨a, t, hFirst, hSecond⟩
    have hLeft := (hNext a).frontal.shrinks hSecond
    have hShrinks := hStep.shrinks hFirst
    have hState : t = j.bare t.level :=
      hStep.eq_of_length [] rfl hFirst
        (le_antisymm hShrinks hLeft)
    rw [hState] at hSecond
    exact absurd hSecond (hStuck a _ _ _)

theorem ite
    {c : Prop}
    [Decidable c]
    (hYes : Keeps j p)
    (hNo : Keeps j q) :
    Keeps j (if c then p else q) := by
  split
  · exact hYes
  · exact hNo

/-
  A step that looks at the current token.  Before the junction
  both runs see the same one; there they do not, and what they do
  is compared by itself.
-/
theorem current
    {k : Token → Parse α}
    (hNext : ∀ t, Keeps j (k t))
    (hEdge : Rests j (k j.semicolon) (k j.next)) :
    Keeps j (current >>= k) where
  frontal :=
    Frontal.bind ⟨Local.current, fun _ => List.suffix_rfl⟩
      fun t => (hNext t).frontal
  inner {s _ _} hRun := (hNext s.current).inner hRun
  edge := hEdge

/- Looking is a step of its own if it sees the same at both. -/
theorem look
    {f : Token → α}
    (hLocal : Local p)
    (hLook : ∀ s, p s = .ok (f s.current) s)
    (hSame : f j.semicolon = f j.next) :
    Keeps j p where
  frontal :=
    { isLocal := hLocal
      suffix := fun s => by
        rw [hLook]
        exact List.suffix_rfl }
  inner {s a level} hRun := by
    rw [hLook] at hRun
    injection hRun with _ hState
    exact absurd hState (j.followedBy_ne_bare s level)
  edge level a level' hRun := by
    rw [hLook] at hRun ⊢
    injection hRun with hValue hState
    injection hState with _ _ hLevel
    have hLooked : f j.semicolon = a := hSame.trans hValue
    rw [← hLevel, ← hLooked]
    rfl

theorem atOperator
    {operator : String}
    (hOther : operator ≠ ";") :
    Keeps j (atOperator operator) :=
  look (f := fun t => t.isOperator operator) (Local.atOperator operator)
    (fun _ => rfl)
    ((j.isOperator_semicolon hOther).trans (j.isOperator_next _).symm)

theorem atKind
    {kind : Kind}
    (hOperator : kind ≠ .operator)
    (hIndent : kind ≠ .indent)
    (hEnd : kind ≠ .endOfText) :
    Keeps j (atKind kind) := by
  refine look (f := fun t => decide (t.kind = kind)) (Local.atKind kind)
    (fun _ => rfl) ?_
  rw [decide_eq_false (j.kind_next hIndent hEnd), decide_eq_false]
  rw [j.kind_semicolon]
  exact hOperator.symm

theorem expectOperator
    {operator : String}
    (hOther : operator ≠ ";")
    (what : Expectation) :
    Keeps j (expectOperator operator what) :=
  (atOperator hOther).bind fun _ => ite (pure ()) (throw nofun)

theorem expectKind
    {kind : Kind}
    (hOperator : kind ≠ .operator)
    (hIndent : kind ≠ .indent)
    (hEnd : kind ≠ .endOfText)
    (what : Expectation) :
    Keeps j (expectKind kind what) :=
  (atKind hOperator hIndent hEnd).bind fun _ =>
    ite (pure ()) (throw nofun)

/- The two tokens at the junction are no colons, but are reported. -/
theorem expectColon
    (keyword : String) :
    Keeps j (expectColon keyword) := by
  refine current (fun _ => ite (pure ()) (throw nofun)) ?_
  refine Rests.of_stuck ?_ _
  intro level a t hRun
  simp only [j.isOperator_next] at hRun
  cases hRun

theorem advance :
    Keeps j advance where
  frontal := ⟨Local.advance, Orderly.advance.suffix⟩
  inner {s a level} hRun := by
    rcases s with ⟨c, ts, _⟩
    cases ts with
    | nil =>
        cases hRun
        rfl
    | cons u us =>
        injection hRun with _ hState
        exact absurd hState (j.followedBy_ne_bare ⟨u, us, _⟩ level)
  edge := Rests.of_takes Takes.advance _

/- The current token is looked at and taken. -/
theorem take
    {k : Token → Parse α}
    (hNext : ∀ t, Keeps j (k t)) :
    Keeps j (Parse.current >>= fun t => Parse.advance >>= fun _ => k t) :=
  current (fun t => advance.bind fun _ => hNext t)
    (Rests.of_takes
      (Takes.advance.first fun _ => (hNext j.next).frontal.takes) _)

/- An indentation is asked for, and taken if it is there. -/
theorem atIndent
    {k : Bool → Parse α}
    (hTakes : Takes 1 (k true))
    (hNext : ∀ b, Keeps j (k b)) :
    Keeps j (Parse.atKind .indent >>= k) where
  frontal :=
    Frontal.bind ⟨Local.atKind _, fun _ => List.suffix_rfl⟩
      fun b => (hNext b).frontal
  inner hRun := (hNext _).inner hRun
  edge level a level' hRun := by
    rw [Steps.bind_ok (atKind_apply _ _)] at hRun ⊢
    have hSemicolon : decide ((j.marked level).current.kind = .indent) =
        false :=
      decide_eq_false (j.kind_semicolon.trans_ne (by simp))
    rcases j.ends with hIndent | hEnd
    · rw [show decide ((j.bare level).current.kind = .indent) = true from
        decide_eq_true hIndent] at hRun
      exact Rests.of_takes hTakes _ _ _ _ hRun
    · rw [show decide ((j.bare level).current.kind = .indent) = false from
        decide_eq_false (hEnd.trans_ne (by simp))] at hRun
      rw [hSemicolon]
      exact (hNext false).edge _ _ _ hRun

theorem modifyLevel
    (change : Amount → Amount) :
    Keeps j (modify fun s => { s with level := change s.level }) where
  frontal := ⟨Local.modifyLevel change, fun _ => List.suffix_rfl⟩
  inner {s a level} hRun := by
    injection hRun with _ hState
    exact absurd hState
      (j.followedBy_ne_bare { s with level := change s.level } level)
  edge level a level' hRun := by
    cases hRun
    rfl

/- Of a state that is looked at only the level may count. -/
theorem state
    {k : ParseState → Parse β}
    (hLevel : ∀ {s t : ParseState}, s.level = t.level → k s = k t)
    (hNext : ∀ s, Keeps j (k s)) :
    Keeps j (get >>= k) where
  frontal :=
    { isLocal := Local.state hLevel fun s => (hNext s).frontal.isLocal
      suffix := fun s => (hNext s).frontal.suffix s }
  inner {s b level} hRun := by
    have hSame : k (s.followedBy (j.semicolon :: j.next :: j.after)) =
        k (s.followedBy (j.next :: j.after')) :=
      hLevel rfl
    rw [Steps.bind_ok (Steps.get_apply _)] at hRun ⊢
    rw [hSame]
    exact (hNext _).inner hRun
  edge level b level' hRun := by
    have hSame : k (j.marked level) = k (j.bare level) := hLevel rfl
    rw [Steps.bind_ok (Steps.get_apply _)] at hRun ⊢
    rw [hSame]
    exact (hNext _).edge _ _ _ hRun

end Keeps

end Offside.Parse

------------------------------------------------------------
-- Productions
------------------------------------------------------------

namespace Offside.Parse.Keeps

variable {table : Precedence}
variable {j : Junction table}
variable {p q : Parse Node}
variable {ps : Parse (List Node)}
variable {entries : Parse (List (Value × Node))}

theorem literal :
    Keeps j literal :=
  take fun _ => pure _

theorem parenthesized
    (hInner : Keeps j p) :
    Keeps j (parenthesized p) :=
  advance.bind fun _ => hInner.bind fun _ =>
    (expectOperator (by simp) _).bind fun _ =>
      advance.bind fun _ => pure _

theorem arguments
    (hFirst : Keeps j p)
    (hMore : Keeps j ps) :
    Keeps j (arguments p ps) :=
  hFirst.bind fun _ => (atOperator (by simp)).bind fun _ =>
    ite (pure _) ((expectOperator (by simp) _).bind fun _ =>
      advance.bind fun _ => hMore.bind fun _ => pure _)

theorem named
    (hArguments : Keeps j ps) :
    Keeps j (named ps) := by
  refine take fun t => (atOperator (by simp)).bind fun _ =>
    ite ?_ (pure _)
  refine advance.bind fun _ => bind ?_ fun _ =>
    advance.bind fun _ => pure _
  exact (atOperator (by simp)).bind fun _ => ite (pure _) hArguments

theorem unary
    (hPrimary : Keeps j p)
    (hOperand : Keeps j q)
    (hTakes : Takes 1 p) :
    Keeps j (unary p q) := by
  refine current (fun t => ite hPrimary
    (advance.bind fun _ => hOperand.bind fun _ => pure _)) ?_
  refine Rests.of_takes (Takes.ite hTakes ?_) _
  exact Takes.advance.first fun _ =>
    hOperand.frontal.takes.later fun _ => Takes.pure _

/- Neither of the two tokens at the junction binds. -/
theorem binaryRest
    (hUnary : Keeps j p)
    {rest : Int → Node → Parse Node}
    (hRest : ∀ least lhs, 0 ≤ least → Keeps j (rest least lhs))
    {least : Int}
    (hLeast : 0 ≤ least)
    (lhs : Node) :
    Keeps j (binaryRest table p rest least lhs) := by
  have hTighter : ∀ (op : Token) (operand : Node),
      0 ≤ table.of op.value → Keeps j (do
        if table.of op.value < table.of (← Parse.current).value then
          rest (table.of op.value + 1) operand
        else return operand) := by
    intro op operand hBinds
    refine current (fun _ =>
      ite (hRest _ operand (by omega)) (pure operand)) ?_
    have hSemicolon := j.loose
    have hNext := j.looseNext
    rw [if_neg (by omega), if_neg (by omega)]
    exact Rests.pure operand
  refine current (fun op => ?_) ?_
  · by_cases hLoose : table.of op.value < least
    · simp only [if_pos hLoose]
      exact pure lhs
    · simp only [if_neg hLoose]
      exact advance.bind fun _ => hUnary.bind fun operand =>
        (hTighter op operand (by omega)).bind fun rhs =>
          hRest least _ hLeast
  · simp only [if_pos (j.loose.trans_le hLeast),
      if_pos (j.looseNext.trans_le hLeast)]
    exact Rests.pure lhs

theorem expression
    (hUnary : Keeps j p)
    {rest : Int → Node → Parse Node}
    (hRest : ∀ least lhs, 0 ≤ least → Keeps j (rest least lhs)) :
    Keeps j (expression p rest) :=
  hUnary.bind fun lhs => hRest 0 lhs le_rfl

/-
  After a line there may be another; a junction that is not
  passed then is at a smaller indentation, or at the end.
-/
theorem lines
    (hFirst : Keeps j p)
    {more : Amount → Parse (List Node)}
    (hMore : ∀ indent, Keeps j (more indent))
    (indent : Amount) :
    Keeps j (lines p more indent) := by
  have hNext : ∀ e, Keeps j (do
      Parse.advance
      let es ← more indent
      return e :: es) :=
    fun e => advance.bind fun _ => (hMore indent).bind fun _ => pure _
  refine hFirst.bind fun e => current (fun t => ite (pure [e]) ?_) ?_
  · cases t.value with
    | text s => exact throw nofun
    | amount found =>
        exact ite (pure [e])
          (ite ((throw (by simp)).bind fun _ => hNext e) (hNext e))
  · have hSemicolon : j.semicolon.kind ≠ .indent := by
      rw [j.kind_semicolon]
      nofun
    rw [if_pos hSemicolon]
    by_cases hLine : j.next.kind = .indent
    · rw [if_neg (not_not.mpr hLine)]
      have hTakes : Takes 1 (do
          Parse.advance
          let es ← more indent
          return e :: es) :=
        Takes.advance.first fun _ =>
          (hMore indent).frontal.takes.later fun _ => Takes.pure _
      cases j.next.value with
      | text s => exact Rests.of_takes (Takes.throw 1 _) _
      | amount found =>
          by_cases hLess : found.less indent = true
          · simp only [if_pos hLess]
            exact Rests.pure [e]
          · simp only [if_neg hLess]
            exact Rests.of_takes
              (Takes.ite ((Takes.throw 1 _).first fun _ => hTakes.weaken)
                hTakes) _
    · rw [if_pos hLine]
      exact Rests.pure [e]

theorem block
    {lines : Amount → Parse (List Node)}
    (hLines : ∀ indent, Keeps j (lines indent)) :
    Keeps j (block lines) := by
  refine take fun t => state ?_ fun s => ?_
  · intro s u hSame
    simp only [hSame]
  · cases t.value with
    | text s => exact throw nofun
    | amount indent =>
        have hNodes : Keeps j (do
            let nodes ← (do
              if s.level.less indent then
                setLevel indent
                lines indent
              else return [])
            modify fun s => { s with level := s.level.minus levelWidth }
            return Node.block nodes) := by
          refine bind ?_ fun nodes =>
            (modifyLevel fun level => level.minus levelWidth).bind
              fun _ => pure _
          exact ite ((modifyLevel fun _ => indent).bind fun _ =>
            hLines indent) (pure [])
        exact ite ((throw (by simp)).bind fun _ => hNodes) hNodes

/- An indentation after the first block is passed, a semicolon not. -/
theorem branch
    (hCondition : Keeps j p)
    (hBlock : Keeps j q) :
    Keeps j (branch p q) := by
  have hFinish : ∀ t cond yes, Keeps j (do
      let no ← (do
        if ← Parse.atKind .kwElse then
          Parse.advance
          Parse.expectColon "else"
          Parse.advance
          q
        else return Node.block [])
      return Node.branch cond yes no (Token.location t)) := by
    intro t cond yes
    refine bind ?_ fun _ => pure _
    exact (atKind (by simp) (by simp) (by simp)).bind fun _ => ite
      (advance.bind fun _ => (expectColon _).bind fun _ =>
        advance.bind fun _ => hBlock) (pure _)
  refine take fun t => hCondition.bind fun cond =>
    (expectColon _).bind fun _ => advance.bind fun _ =>
      hBlock.bind fun yes => atIndent ?_ fun _ =>
        ite (advance.bind fun _ => hFinish t cond yes)
          (hFinish t cond yes)
  exact Takes.advance.first fun _ => (hFinish t cond yes).frontal.takes

theorem loop
    (hPart : Keeps j p) :
    Keeps j (loop p) := by
  refine advance.bind fun _ =>
    (expectKind (by simp) (by simp) (by simp) _).bind fun _ =>
      take fun counter => (expectOperator (by simp) _).bind fun _ =>
        advance.bind fun _ => hPart.bind fun first =>
          (expectOperator (by simp) _).bind fun _ =>
            advance.bind fun _ => hPart.bind fun last => ?_
  refine bind ?_ fun step =>
    (expectKind (by simp) (by simp) (by simp) _).bind fun _ =>
      advance.bind fun _ => hPart.bind fun body => pure _
  exact (atOperator (by simp)).bind fun _ =>
    ite (advance.bind fun _ => hPart) (pure _)

theorem bindings
    (hValue : Keeps j p)
    (hMore : Keeps j entries) :
    Keeps j (bindings p entries) := by
  refine take fun name => bind ?_ fun value =>
    (atOperator (by simp)).bind fun _ => ite ?_ (pure _)
  · exact (atOperator (by simp)).bind fun _ =>
      ite (advance.bind fun _ => hValue) (pure _)
  · exact advance.bind fun _ =>
      (expectKind (by simp) (by simp) (by simp) _).bind fun _ =>
        hMore.bind fun others => pure _

theorem declaration
    (hBody : Keeps j p)
    (hEntries : Keeps j entries) :
    Keeps j (declaration p entries) :=
  advance.bind fun _ =>
    (expectKind (by simp) (by simp) (by simp) _).bind fun _ =>
      hEntries.bind fun _ =>
        (expectKind (by simp) (by simp) (by simp) _).bind fun _ =>
          advance.bind fun _ => hBody.bind fun _ => pure _

theorem returned
    (hValue : Keeps j p) :
    Keeps j (returned p) :=
  advance.bind fun _ => hValue.bind fun _ => pure _

theorem unknown :
    Keeps j unknown :=
  take fun _ => throw nofun

theorem primary
    {parts : Parts}
    (hExpression : Keeps j parts.expression)
    (hArguments : Keeps j parts.arguments)
    (hEntries : Keeps j parts.bindings)
    (hBlock : Keeps j parts.block)
    (hPrimary : Keeps j parts.primary)
    (hTakes : Takes 1 parts.block) :
    Keeps j (primary parts) := by
  refine current (fun t => ?_) ?_
  · cases t.kind
    case identifier => exact named hArguments
    case floatLiteral => exact literal
    case kwIf => exact branch hExpression hBlock
    case kwFor => exact loop hExpression
    case kwVar => exact declaration hExpression hEntries
    case kwReturn => exact returned hExpression
    case indent => exact hBlock
    case operator =>
      exact ite (parenthesized hExpression)
        (ite (advance.bind fun _ => hPrimary) unknown)
    all_goals exact unknown
  · rcases j.ends with hKind | hKind
    · simp only [hKind]
      exact Rests.of_takes hTakes _
    · simp only [hKind]
      exact Rests.of_takes (Takes.unknown 1) _

/- At the junction there are no names and no parentheses. -/
theorem expectKind_stuck
    {α : Type}
    {kind : Kind}
    (hIndent : kind ≠ .indent)
    (hEnd : kind ≠ .endOfText)
    (what : Expectation)
    (k : Unit → Parse α)
    (level : Amount)
    (a : α)
    (t : ParseState) :
    (Parse.expectKind kind what >>= k) (j.bare level) ≠ .ok a t := by
  intro hRun
  rcases Steps.bind_eq_ok hRun with ⟨_, _, hExpect, _⟩
  exact j.kind_next hIndent hEnd (expectKind_eq_ok hExpect).1

theorem expectOperator_stuck
    {α : Type}
    (operator : String)
    (what : Expectation)
    (k : Unit → Parse α)
    (level : Amount)
    (a : α)
    (t : ParseState) :
    (Parse.expectOperator operator what >>= k) (j.bare level) ≠
      .ok a t := by
  intro hRun
  rcases Steps.bind_eq_ok hRun with ⟨_, _, hExpect, _⟩
  have hOther : (j.bare level).current.isOperator operator = false :=
    j.isOperator_next operator
  rw [(expectOperator_eq_ok hExpect).1] at hOther
  cases hOther

theorem externPrototype :
    Keeps j externPrototype := by
  refine current (fun name =>
    (expectKind (by simp) (by simp) (by simp) _).bind fun _ =>
      advance.bind fun _ => (expectOperator (by simp) _).bind fun _ => ?_)
    (Rests.of_stuck
      (expectKind_stuck (by simp) (by simp) _ _) _)
  refine before_stuck ⟨Local.parameters, Orderly.parameters.suffix⟩
    (fun args => (expectOperator (by simp) _).bind fun _ =>
      advance.bind fun _ => pure _)
    fun args => expectOperator_stuck _ _ _

theorem functionPrototype :
    Keeps j functionPrototype :=
  externPrototype.bind fun _ =>
    (expectOperator (by simp) _).bind fun _ =>
      advance.bind fun _ => pure _

theorem function
    (hBlock : Keeps j p) :
    Keeps j (function p) :=
  advance.bind fun _ => functionPrototype.bind fun _ =>
    hBlock.bind fun _ => pure _

theorem external :
    Keeps j external :=
  advance.bind fun _ => externPrototype

end Offside.Parse.Keeps

------------------------------------------------------------
-- The Grammar
------------------------------------------------------------

namespace Offside.Grammar

open Parse (Keeps)

variable {table : Precedence}

/- That all productions keep to a junction, at one allowance. -/
structure AllKeep
    (j : Junction table)
    (n : Nat) :
    Prop where
  primary : Keeps j (primary table n)
  unary : Keeps j (unary table n)
  binaryRest : ∀ least lhs, 0 ≤ least →
    Keeps j (binaryRest table n least lhs)
  expression : Keeps j (expression table n)
  arguments : Keeps j (arguments table n)
  bindings : Keeps j (bindings table n)
  lines : ∀ indent, Keeps j (lines table n indent)
  block : Keeps j (block table n)

theorem keeps
    (j : Junction table)
    (n : Nat) :
    AllKeep j n := by
  induction n with
  | zero =>
      constructor
      case binaryRest => exact fun _ _ _ => Keeps.throw nofun
      case lines => exact fun _ => Keeps.throw nofun
      all_goals exact Keeps.throw nofun
  | succ n ih =>
      have hTakes := progress table n
      constructor
      case primary =>
        exact Keeps.primary ih.expression ih.arguments ih.bindings
          ih.block ih.primary hTakes.block
      case unary => exact Keeps.unary ih.primary ih.unary hTakes.primary
      case binaryRest =>
        exact fun _ lhs hLeast =>
          Keeps.binaryRest ih.unary ih.binaryRest hLeast lhs
      case expression => exact Keeps.expression ih.unary ih.binaryRest
      case arguments => exact Keeps.arguments ih.expression ih.arguments
      case bindings => exact Keeps.bindings ih.expression ih.bindings
      case lines => exact Keeps.lines ih.expression ih.lines
      case block => exact Keeps.block ih.lines

/- An item of a program ends before a semicolon as well. -/
theorem keeps_item
    (j : Junction table)
    (n : Nat)
    (kind : Kind) :
    Keeps j ((Form.ofKind kind).production table n) := by
  unfold Form.ofKind
  split
  · exact Keeps.function (keeps j n).block
  · exact Keeps.external
  · exact (keeps j n).expression

end Offside.Grammar
