import Mathlib
import Offside.Proofs.Parser.Termination

/-
  Turns: how a program is parsed one item after another, and where
  the parser stands between two of them.

  Key definitions include:
    * `Offside.Form.ofKind`
    * `Offside.Turn`
    * `Offside.ComesTo`

  Main statements:
    * `Offside.Grammar.run_items_eq_ok_iff`: the items of a program
      are parsed by turns until the text ends.
    * `Offside.ComesTo.after_turn`: every state that is come to
      later is come to after the first turn.
-/

------------------------------------------------------------
-- Items
------------------------------------------------------------

namespace Offside

namespace Form

/- The form of an item by the kind of its first token. -/
def ofKind :
    Kind →
    Form
  | .kwFunction => function
  | .kwExtern => external
  | _ => expression

theorem ofKind_mem_leading
    (kind : Kind) :
    ofKind kind ∈ leading := by
  unfold ofKind
  split <;> simp [leading]

/- An item can be parsed with any allowance that suffices. -/
theorem run_production
    (table : Precedence)
    (form : Form)
    {s : ParseState}
    {n : Nat}
    (hEnough : Grammar.allowance s.rest.length ≤ n) :
    Grammar.run (form.production table) s = form.production table n s :=
  ((production_settles table form le_rfl hEnough).same s le_rfl).symm

end Form

namespace Grammar

theorem items_succ
    (table : Precedence)
    (n : Nat) :
    items table (n + 1) = (do
      let t ← Parse.current
      if t.kind = .endOfText then
        return []
      if t.isOperator ";" then
        Parse.advance
        items table n
      else do
        let item ← (Form.ofKind t.kind).production table n
        let others ← items table n
        return item :: others) := by
  refine congrArg (Parse.current >>= ·) (funext fun t => ?_)
  rcases t with ⟨kind, value, location⟩
  cases kind <;> rfl

theorem run_items
    (table : Precedence)
    {s : ParseState}
    {n : Nat}
    (hEnough : allowance s.rest.length ≤ n) :
    run (items table) s = items table n s := by
  refine ((items_settles table ?_ hEnough).same s le_rfl).symm
  unfold allowance
  omega

end Grammar

end Offside

------------------------------------------------------------
-- Turns
------------------------------------------------------------

namespace Offside

/- A semicolon is skipped, or an item is parsed. -/
inductive Turn
    (table : Precedence)
    (s : ParseState) :
    List Node →
    ParseState →
    Prop where
  | semicolon
      {t : ParseState}
      (hSemicolon : s.current.isOperator ";" = true)
      (hTake : Parse.advance s = .ok () t) :
      Turn table s [] t
  | item
      {node : Node}
      {t : ParseState}
      (hInner : s.current.kind ≠ .endOfText)
      (hOther : s.current.isOperator ";" = false)
      (hRun : Grammar.run
        ((Form.ofKind s.current.kind).production table) s = .ok node t) :
      Turn table s [node] t

/- The states between items that are come to from a state. -/
def ComesTo
    (table : Precedence) :
    ParseState →
    ParseState →
    Prop :=
  Relation.ReflTransGen fun s t => ∃ nodes, Turn table s nodes t

namespace Turn

variable {table : Precedence}
variable {s t : ParseState}
variable {nodes : List Node}

theorem length_lt
    (hTurn : Turn table s nodes t) :
    t.rest.length < s.rest.length := by
  cases hTurn with
  | semicolon _ hTake => exact Parse.Takes.advance _ _ _ hTake
  | item _ _ hRun =>
      exact Form.production_takes (Form.ofKind_mem_leading _) table _ _ _ _
        hRun

theorem kind_ne
    (hTurn : Turn table s nodes t) :
    s.current.kind ≠ .endOfText := by
  cases hTurn with
  | item hInner _ _ => exact hInner
  | semicolon hSemicolon _ =>
      simp only [Token.isOperator, Bool.and_eq_true, decide_eq_true_eq]
        at hSemicolon
      rw [hSemicolon.1]
      nofun

theorem unique
    (hTurn : Turn table s nodes t)
    {nodes' : List Node}
    {t' : ParseState}
    (hOther : Turn table s nodes' t') :
    nodes = nodes' ∧ t = t' := by
  cases hTurn with
  | semicolon hSemicolon hTake =>
      cases hOther with
      | semicolon _ hTake' =>
          rw [hTake] at hTake'
          cases hTake'
          exact ⟨rfl, rfl⟩
      | item _ hOther _ => exact absurd (hSemicolon.symm.trans hOther) nofun
  | item _ hItem hRun =>
      cases hOther with
      | semicolon hSemicolon _ =>
          exact absurd (hSemicolon.symm.trans hItem) nofun
      | item _ _ hRun' =>
          rw [hRun] at hRun'
          cases hRun'
          exact ⟨rfl, rfl⟩

end Turn

namespace ComesTo

variable {table : Precedence}
variable {s t r : ParseState}

theorem length_le
    (hComes : ComesTo table s r) :
    r.rest.length ≤ s.rest.length := by
  induction hComes with
  | refl => exact le_rfl
  | tail _ hTurn ih =>
      rcases hTurn with ⟨_, hTurn⟩
      exact hTurn.length_lt.le.trans ih

/- What is come to later is come to after the first turn. -/
theorem after_turn
    (hComes : ComesTo table s r)
    (hLater : r.rest.length < s.rest.length)
    {nodes : List Node}
    (hTurn : Turn table s nodes t) :
    ComesTo table t r := by
  rcases Relation.ReflTransGen.cases_head hComes with
    rfl | ⟨u, hFirst, hRest⟩
  · exact absurd hLater (lt_irrefl _)
  · rcases hFirst with ⟨_, hFirst⟩
    rw [(hTurn.unique hFirst).2]
    exact hRest

theorem of_turn
    {nodes : List Node}
    (hTurn : Turn table s nodes t)
    (hComes : ComesTo table t r) :
    ComesTo table s r :=
  Relation.ReflTransGen.head ⟨nodes, hTurn⟩ hComes

end ComesTo

namespace Grammar

/- The items of a program are parsed by turns until the text ends. -/
theorem run_items_eq_ok_iff
    (table : Precedence)
    (s : ParseState)
    (nodes : List Node)
    (t : ParseState) :
    run (items table) s = .ok nodes t ↔
      (s.current.kind = .endOfText ∧ nodes = [] ∧ t = s) ∨
      ∃ first u more,
        Turn table s first u ∧
        run (items table) u = .ok more t ∧
        nodes = first ++ more := by
  rw [run_items table (Nat.le_succ _)]
  have hLater : ∀ {u : ParseState} {first : List Node},
      Turn table s first u →
        items table (allowance s.rest.length) u = run (items table) u :=
    fun hTurn => (run_items table (allowance_mono hTurn.length_lt.le)).symm
  simp only [Nat.succ_eq_add_one, items_succ,
    Steps.bind_ok (Parse.current_apply s)]
  split
  case isTrue hEnd =>
    constructor
    · intro hRun
      cases hRun
      exact .inl ⟨hEnd, rfl, rfl⟩
    · rintro (⟨_, rfl, rfl⟩ | ⟨_, _, _, hTurn, _⟩)
      · rfl
      · exact absurd hEnd hTurn.kind_ne
  case isFalse hInner =>
    split
    case isTrue hSemicolon =>
      constructor
      · intro hRun
        rcases Steps.bind_eq_ok hRun with ⟨_, u, hTake, hMore⟩
        have hTurn : Turn table s [] u := .semicolon hSemicolon hTake
        rw [hLater hTurn] at hMore
        exact .inr ⟨[], u, nodes, hTurn, hMore, rfl⟩
      · rintro (⟨hEnd, _⟩ | ⟨first, u, more, hTurn, hMore, rfl⟩)
        · exact absurd hEnd hInner
        · rw [← hLater hTurn] at hMore
          cases hTurn with
          | semicolon _ hTake =>
              rw [Steps.bind_ok hTake]
              exact hMore
          | item _ hOther _ => exact absurd (hSemicolon.symm.trans hOther) nofun
    case isFalse hOther =>
      rw [Bool.not_eq_true] at hOther
      constructor
      · intro hRun
        rcases Steps.bind_eq_ok hRun with ⟨node, u, hFirst, hRest⟩
        rcases Steps.bind_eq_ok hRest with ⟨more, v, hMore, hLast⟩
        have hTurn : Turn table s [node] u := .item hInner hOther hFirst
        rw [hLater hTurn] at hMore
        cases hLast
        exact .inr ⟨[node], u, more, hTurn, hMore, rfl⟩
      · rintro (⟨hEnd, _⟩ | ⟨first, u, more, hTurn, hMore, rfl⟩)
        · exact absurd hEnd hInner
        · rw [← hLater hTurn] at hMore
          cases hTurn with
          | semicolon hSemicolon _ =>
              exact absurd (hSemicolon.symm.trans hOther) nofun
          | item _ _ hRun =>
              have hFirst : (Form.ofKind s.current.kind).production table
                  (allowance s.rest.length) s = .ok _ u := hRun
              rw [Steps.bind_ok hFirst, Steps.bind_ok hMore]
              rfl

/- After a turn the other items are left to be parsed. -/
theorem exists_run_items_iff
    {table : Precedence}
    {s u : ParseState}
    {first : List Node}
    (hTurn : Turn table s first u)
    (others : List Node) :
    (∃ t, run (items table) s = .ok (first ++ others) t) ↔
      ∃ t, run (items table) u = .ok others t := by
  constructor
  · rintro ⟨t, hRun⟩
    rcases (run_items_eq_ok_iff table _ _ _).mp hRun with
      ⟨hEnd, _⟩ | ⟨first', u', more, hTurn', hMore, hNodes⟩
    · exact absurd hEnd hTurn.kind_ne
    · rcases hTurn.unique hTurn' with ⟨rfl, rfl⟩
      rw [List.append_cancel_left hNodes]
      exact ⟨t, hMore⟩
  · rintro ⟨t, hRun⟩
    exact ⟨t, (run_items_eq_ok_iff table _ _ _).mpr
      (.inr ⟨first, u, others, hTurn, hRun, rfl⟩)⟩

end Grammar

end Offside
