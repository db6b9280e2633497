import Mathlib
import Offside.Token.Basic

/-
  Parentheses among tokens: how many are open after some of them.

  Key definitions include:
    * `Offside.Token.Balanced`
    * `Offside.Token.openNext`
    * `Offside.Token.openAfter`

  Main statements:
    * `Offside.Token.openAfter_eq_some_iff`
    * `Offside.Token.balanced_iff`: tokens are balanced if and
      only if none are open after them where none were before.
-/

------------------------------------------------------------
-- Parentheses among Tokens
------------------------------------------------------------

namespace Offside.Token

/- How many opening parentheses there are. -/
def openings
    (ts : List Token) :
    Nat :=
  ts.countP fun t => t.isOperator "("

/- How many closing parentheses there are. -/
def closings
    (ts : List Token) :
    Nat :=
  ts.countP fun t => t.isOperator ")"

/-
  No more parentheses are closed than are open, and all are
  closed at the end.
-/
structure Balanced
    (ts : List Token) :
    Prop where
  opened : ∀ i, closings (ts.take i) ≤ openings (ts.take i)
  closed : closings ts = openings ts

/-
  How many parentheses are open after a token, where `n` are open
  before it.  None is closed that is not open.
-/
def openNext
    (n : Nat)
    (t : Token) :
    Option Nat :=
  if t.isOperator "(" then some (n + 1)
  else if t.isOperator ")" then
    if n = 0 then none else some (n - 1)
  else some n

/- How many are open after several tokens. -/
def openAfter
    (n : Nat)
    (ts : List Token) :
    Option Nat :=
  ts.foldlM openNext n

/- Whether a token is a parenthesis. -/
def isParenthesis
    (t : Token) :
    Bool :=
  t.isOperator "(" || t.isOperator ")"

variable {t : Token}
variable {ts : List Token}

theorem isOperator_unique
    {a b : String}
    (hFirst : t.isOperator a = true)
    (hOther : a ≠ b) :
    t.isOperator b = false := by
  simp only [isOperator, Bool.and_eq_true, decide_eq_true_eq] at hFirst
  simp [isOperator, hFirst.1, hFirst.2, hOther]

/- An operator of another text is no parenthesis. -/
theorem isParenthesis_of_isOperator
    {operator : String}
    (hOperator : t.isOperator operator = true)
    (hOther : operator ≠ "(" ∧ operator ≠ ")") :
    t.isParenthesis = false := by
  rw [isParenthesis, isOperator_unique hOperator hOther.1,
    isOperator_unique hOperator hOther.2]
  rfl

theorem isParenthesis_of_kind
    {kind : Kind}
    (hKind : t.kind = kind)
    (hOther : kind ≠ .operator) :
    t.isParenthesis = false := by
  simp [isParenthesis, isOperator, hKind, hOther]

theorem isParenthesis_of_value
    {amount : Amount}
    (hValue : t.value = .amount amount) :
    t.isParenthesis = false := by
  simp [isParenthesis, isOperator, hValue]

theorem openNext_opening
    (hOpening : t.isOperator "(" = true)
    (n : Nat) :
    openNext n t = some (n + 1) :=
  if_pos hOpening

theorem openNext_closing
    (hClosing : t.isOperator ")" = true)
    (n : Nat) :
    openNext (n + 1) t = some n := by
  have hOpening : t.isOperator "(" = false :=
    isOperator_unique hClosing (by simp)
  simp [openNext, hOpening, hClosing]

theorem openNext_other
    (hOther : t.isParenthesis = false)
    (n : Nat) :
    openNext n t = some n := by
  rw [isParenthesis, Bool.or_eq_false_iff] at hOther
  simp [openNext, hOther.1, hOther.2]

@[simp] theorem openAfter_nil
    (n : Nat) :
    openAfter n [] = some n :=
  rfl

theorem openAfter_cons
    (n : Nat)
    (t : Token)
    (ts : List Token) :
    openAfter n (t :: ts) =
      (openNext n t).bind fun m => openAfter m ts :=
  List.foldlM_cons

theorem openAfter_append
    (n : Nat)
    (ts us : List Token) :
    openAfter n (ts ++ us) =
      (openAfter n ts).bind fun m => openAfter m us :=
  List.foldlM_append

/- Other tokens change nothing. -/
theorem openAfter_of_others
    (hOthers : ∀ t ∈ ts, t.isParenthesis = false)
    (n : Nat) :
    openAfter n ts = some n := by
  induction ts with
  | nil => rfl
  | cons t ts ih =>
      rcases List.forall_mem_cons.mp hOthers with ⟨hFirst, hMore⟩
      rw [openAfter_cons, openNext_other hFirst]
      exact ih hMore

/- The number of open parentheses, by counting. -/
theorem openAfter_eq_some_iff
    (n m : Nat)
    (ts : List Token) :
    openAfter n ts = some m ↔
      (∀ i, closings (ts.take i) ≤ openings (ts.take i) + n) ∧
        openings ts + n = closings ts + m := by
  induction ts generalizing n with
  | nil => simp [closings, openings]
  | cons t ts ih =>
      -- The first token is in every part but the empty one.
      have hTake :
          (∀ i, closings ((t :: ts).take i) ≤
            openings ((t :: ts).take i) + n) ↔
          ∀ i, closings (t :: ts.take i) ≤
            openings (t :: ts.take i) + n := by
        constructor
        · intro hAll i
          exact hAll (i + 1)
        · intro hAll i
          cases i with
          | zero => simp [closings]
          | succ i => exact hAll i
      rw [hTake, openAfter_cons]
      by_cases hOpening : t.isOperator "(" = true
      · have hClosing : t.isOperator ")" = false :=
          isOperator_unique hOpening (by simp)
        rw [openNext_opening hOpening, Option.bind_some, ih]
        simp only [closings, openings, List.countP_cons, hOpening,
          hClosing]
        grind
      · by_cases hClosing : t.isOperator ")" = true
        · cases n with
          | zero =>
              -- This one is closed too often already.
              have hNone : openNext 0 t = none := by
                simp [openNext, hOpening, hClosing]
              have hFew : ¬∀ i, closings (t :: ts.take i) ≤
                  openings (t :: ts.take i) + 0 := by
                intro hAll
                have hFirst := hAll 0
                simp [closings, openings, hOpening, hClosing] at hFirst
              rw [hNone]
              exact iff_of_false (by simp) fun hCounts => hFew hCounts.1
          | succ n =>
              rw [openNext_closing hClosing, Option.bind_some, ih]
              simp only [closings, openings, List.countP_cons, hOpening,
                hClosing]
              grind
        · rw [openNext_other (by simp [isParenthesis, hOpening, hClosing]),
            Option.bind_some, ih]
          simp [closings, openings, hOpening, hClosing]

theorem balanced_iff
    (ts : List Token) :
    Balanced ts ↔ openAfter 0 ts = some 0 := by
  rw [openAfter_eq_some_iff]
  constructor
  · intro hBalanced
    exact ⟨hBalanced.opened, hBalanced.closed.symm⟩
  · rintro ⟨hOpened, hClosed⟩
    exact ⟨hOpened, hClosed.symm⟩

end Offside.Token
