import Mathlib
import Offside.Proofs.Program.Syntax

/-
  Levels of indentation: what they are after a condition or a
  function, where every block is `step` deeper than the lines
  around it, and the end of every block takes two off the level.

  Key definitions include:
    * `Offside.Statement.trail`, `Offside.Suite.trail`
    * `Offside.levelAfter`
    * `Offside.Settles`
    * `Offside.Program.Steady`

  Main statements:
    * `Offside.levelAfter_lt_iff`: when the level is low enough
      for a block to be opened.
    * `Offside.Program.steady_of_le_two`: it always is with one
      or two blanks.
-/

------------------------------------------------------------
-- Trails
------------------------------------------------------------

namespace Offside

/- Of two counts in a row, the last one that counts anything. -/
def laterTrail
    (first second : Nat) :
    Nat :=
  if second = 0 then first else second

theorem laterTrail_ne_zero_iff
    {m n : Nat} :
    laterTrail m n ≠ 0 ↔ m ≠ 0 ∨ n ≠ 0 := by
  unfold laterTrail
  by_cases hNone : n = 0
  · simp [hNone]
  · simp [hNone]

mutual

/-
  How many blocks end with a condition: its second one, that of
  the last condition in there, and so on.
-/
def Statement.trail :
    Statement →
    Nat
  | .phrase _ => 0
  | .returned _ => 0
  | .branch _ _ no => no.trail + 1
  | .loop .. => 0

/- How many end with the last condition of a suite. -/
def Suite.trail :
    Suite →
    Nat
  | .last s => s.trail
  | .more s others => laterTrail s.trail others.trail

end

/- How many end with an item. -/
def Item.trail :
    Item →
    Nat
  | external _ => 0
  | function _ body => body.trail + 1

/- How many end with the last function. -/
def Item.lastTrail :
    List Item →
    Nat
  | [] => 0
  | item :: items => laterTrail item.trail (lastTrail items)

/-
  The level after lines of the indentation `width`, if so many
  blocks end with the last condition in them.
-/
def levelAfter
    (step width level : Int)
    (trail : Nat) :
    Int :=
  if trail = 0 then level else width + trail * (step - 2)

/-
  Whether a block in which so many blocks end leaves a level
  from which one of the same indentation can be opened.
-/
def Settles
    (step : Int)
    (trail : Nat) :
    Prop :=
  trail * (step - 2) < 2

variable {step width level : Int}

theorem levelAfter_zero :
    levelAfter step width level 0 = level :=
  if_pos rfl

/- A block ends with one more than the last condition in it. -/
theorem levelAfter_succ
    (n : Nat) :
    levelAfter step (width + step) (width + step) n - 2 =
      levelAfter step width level (n + 1) := by
  unfold levelAfter
  rw [if_neg (Nat.succ_ne_zero n)]
  by_cases hNone : n = 0
  · rw [if_pos hNone, hNone]
    push_cast
    ring
  · rw [if_neg hNone]
    push_cast
    ring

/- The last condition counts. -/
theorem levelAfter_levelAfter
    (m n : Nat) :
    levelAfter step width (levelAfter step width level m) n =
      levelAfter step width level (laterTrail m n) := by
  unfold levelAfter laterTrail
  by_cases hNone : n = 0
  · rw [if_pos hNone, if_pos hNone]
  · rw [if_neg hNone, if_neg hNone, if_neg hNone]

/- What a block opens is what its end takes off. -/
theorem levelAfter_two
    (n : Nat) :
    levelAfter 2 width width n = width := by
  unfold levelAfter
  by_cases hNone : n = 0
  · rw [if_pos hNone]
  · rw [if_neg hNone]
    ring

/- When the level after a condition is below a block's indentation. -/
theorem levelAfter_lt_iff
    {n : Nat}
    (hSome : n ≠ 0) :
    levelAfter step width level n < width + step ↔
      Settles step (n - 1) := by
  obtain ⟨m, rfl⟩ := Nat.exists_eq_succ_of_ne_zero hSome
  rw [levelAfter, if_neg hSome, Settles, Nat.succ_sub_one]
  push_cast
  constructor
  · intro hLess
    linarith
  · intro hLess
    linarith

theorem levelAfter_lt
    (hLevel : level < width + step)
    {n : Nat}
    (hSettles : Settles step (n - 1)) :
    levelAfter step width level n < width + step := by
  by_cases hNone : n = 0
  · rw [hNone, levelAfter_zero]
    exact hLevel
  · exact (levelAfter_lt_iff hNone).mpr hSettles

/- Conversely, what can be opened after a condition tells of it. -/
theorem settles_of_levelAfter_lt
    {n : Nat}
    (hLess : levelAfter step width level n < width + step) :
    Settles step (n - 1) := by
  by_cases hNone : n = 0
  · rw [hNone, Settles, Nat.zero_sub, Nat.cast_zero, zero_mul]
    exact two_pos
  · exact (levelAfter_lt_iff hNone).mp hLess

/- And what can be opened somewhere tells of the level at first. -/
theorem level_lt_of_laterTrail
    {m n : Nat}
    (hFirst : m ≠ 0 → level < width + step)
    (hSecond :
      n ≠ 0 → levelAfter step width level m < width + step)
    (hSome : laterTrail m n ≠ 0) :
    level < width + step := by
  by_cases hNone : m = 0
  · rcases laterTrail_ne_zero_iff.mp hSome with hSome | hSome
    · exact hFirst hSome
    · have hLess := hSecond hSome
      rwa [hNone, levelAfter_zero] at hLess
  · exact hFirst hNone

theorem settles_of_le_two
    (hStep : step ≤ 2)
    (n : Nat) :
    Settles step n := by
  have hDown : (n : Int) * (step - 2) ≤ 0 :=
    mul_nonpos_of_nonneg_of_nonpos (Int.natCast_nonneg n) (by omega)
  exact lt_of_le_of_lt hDown (by decide)

end Offside

------------------------------------------------------------
-- Steady Programs
------------------------------------------------------------

namespace Offside

mutual

/-
  Whether the second block of every condition can be opened after
  the first one.
-/
def Statement.Steady
    (step : Int) :
    Statement →
    Prop
  | .phrase _ => True
  | .returned _ => True
  | .branch _ yes no =>
      yes.Steady step ∧ Settles step yes.trail ∧ no.Steady step
  | .loop .. => True

/-
  Whether, besides, those of every condition can be opened after
  the conditions before it.
-/
def Suite.Steady
    (step : Int) :
    Suite →
    Prop
  | .last s => s.Steady step
  | .more s others =>
      s.Steady step ∧ others.Steady step ∧
        (others.trail ≠ 0 → Settles step (s.trail - 1))

end

/- Whether this is so in the body of a function. -/
def Item.Steady
    (step : Int) :
    Item →
    Prop
  | external _ => True
  | function _ body => body.Steady step

/- Whether, besides, every body can be opened after the ones before it. -/
def Item.AllSteady
    (step : Int) :
    List Item →
    Prop
  | [] => True
  | item :: items =>
      item.Steady step ∧ AllSteady step items ∧
        (lastTrail items ≠ 0 → Settles step (item.trail - 1))

/- Whether all blocks of a program can be opened. -/
def Program.Steady
    (step : Int)
    (program : Program) :
    Prop :=
  Item.AllSteady step program.items

variable {step : Int}

mutual

theorem Statement.steady_of_le_two
    (hStep : step ≤ 2)
    (s : Statement) :
    s.Steady step := by
  cases s with
  | phrase e => trivial
  | returned e => trivial
  | branch cond yes no =>
      exact ⟨yes.steady_of_le_two hStep, settles_of_le_two hStep _,
        no.steady_of_le_two hStep⟩
  | loop x first last step body => trivial

theorem Suite.steady_of_le_two
    (hStep : step ≤ 2)
    (suite : Suite) :
    suite.Steady step := by
  cases suite with
  | last s => exact s.steady_of_le_two hStep
  | more s others =>
      exact ⟨s.steady_of_le_two hStep, others.steady_of_le_two hStep,
        fun _ => settles_of_le_two hStep _⟩

end

theorem Item.allSteady_of_le_two
    (hStep : step ≤ 2)
    (items : List Item) :
    AllSteady step items := by
  induction items with
  | nil => trivial
  | cons item items ih =>
      refine ⟨?_, ih, fun _ => settles_of_le_two hStep _⟩
      cases item with
      | external signature => trivial
      | function signature body => exact body.steady_of_le_two hStep

/- With one or two blanks for a level, every program is steady. -/
theorem Program.steady_of_le_two
    (hStep : step ≤ 2)
    (program : Program) :
    program.Steady step :=
  Item.allSteady_of_le_two hStep program.items

end Offside
