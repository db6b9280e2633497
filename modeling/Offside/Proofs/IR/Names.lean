import Mathlib
import Offside.IR.Module

/-
  Names in use: a name that is taken into use was free before.

  Main statements:
    * `Offside.IR.Scope.register_notMem`: the name that is taken
      into use is a new one.
    * `Offside.IR.Scope.used_register`: it is in use from then
      on, and so are all the others.
-/

------------------------------------------------------------
-- Numbered Names
------------------------------------------------------------

namespace Offside.IR.Scope

/- Different numbers make different names. -/
theorem numbered_injective
    (name : String) :
    Function.Injective (numbered name) := by
  intro m n hSame
  have hChars := congrArg String.toList hSame
  simp only [numbered, String.toList_append, Nat.toString_eq_repr,
    Nat.toList_repr] at hChars
  have hDigits := List.append_cancel_left hChars
  have hRead := congrArg (Nat.ofDigitChars 10 · 0) hDigits
  simpa [Nat.ofDigitChars_toDigits] using hRead

/- A number makes another name. -/
theorem numbered_ne
    (name : String)
    (n : Nat) :
    numbered name n ≠ name := by
  intro hSame
  have hLength := congrArg (List.length ∘ String.toList) hSame
  simp [numbered] at hLength

end Offside.IR.Scope

------------------------------------------------------------
-- Free Names
------------------------------------------------------------

namespace Offside.IR.Scope

/- The search ends at a free name, or all it has tried are used. -/
theorem freeFrom_notMem_or
    (used : List String)
    (name : String)
    (fuel n : Nat) :
    numbered name (freeFrom used name fuel n) ∉ used ∨
      ∀ k < fuel, numbered name (n + k) ∈ used := by
  induction fuel generalizing n with
  | zero => exact .inr fun k hLess => absurd hLess k.not_lt_zero
  | succ fuel ih =>
      unfold freeFrom
      by_cases hMem : numbered name n ∈ used
      · rw [if_pos hMem]
        rcases ih (n + 1) with hFree | hUsed
        · exact .inl hFree
        · refine .inr fun k hLess => ?_
          cases k with
          | zero => exact hMem
          | succ k =>
              have hNext := hUsed k (by omega)
              rwa [Nat.add_right_comm, Nat.add_assoc] at hNext
      · rw [if_neg hMem]
        exact .inl hMem

/-
  Of as many numbers as there are used names one gives a free
  name, since the name without a number is used as well.
-/
theorem exists_notMem
    {used : List String}
    {name : String}
    (hName : name ∈ used)
    (n : Nat) :
    ∃ k < used.length, numbered name (n + k) ∉ used := by
  by_contra hNone
  push Not at hNone
  let tried : List String :=
    (List.range used.length).map fun k => numbered name (n + k)
  have hNodup : (name :: tried).Nodup := by
    rw [List.nodup_cons]
    constructor
    · intro hMem
      rcases List.mem_map.mp hMem with ⟨k, _, hSame⟩
      exact numbered_ne name (n + k) hSame
    · refine List.Nodup.map ?_ List.nodup_range
      intro j k hSame
      exact Nat.add_left_cancel (numbered_injective name hSame)
  have hSubset : name :: tried ⊆ used := by
    intro x hMem
    rcases List.mem_cons.mp hMem with rfl | hMem
    · exact hName
    · rcases List.mem_map.mp hMem with ⟨k, hLess, rfl⟩
      exact hNone k (List.mem_range.mp hLess)
  have hLength := (hNodup.subperm hSubset).length_le
  simp [tried] at hLength

/- The name that is taken into use was free. -/
theorem register_notMem
    (s : Scope)
    (name : String) :
    (s.register name).1 ∉ s.used := by
  unfold register
  by_cases hMem : name ∈ s.used
  · rw [if_pos hMem]
    rcases freeFrom_notMem_or s.used name s.used.length
        ((s.counters.lookup name).getD 0 + 1) with hFree | hUsed
    · exact hFree
    · rcases
          exists_notMem hMem
            ((s.counters.lookup name).getD 0 + 1) with
        ⟨k, hLess, hFree⟩
      exact absurd (hUsed k hLess) hFree
  · rw [if_neg hMem]
    exact hMem

/- It is in use from then on. -/
theorem used_register
    (s : Scope)
    (name : String) :
    (s.register name).2.used = (s.register name).1 :: s.used := by
  unfold register
  by_cases hMem : name ∈ s.used
  · rw [if_pos hMem]
  · rw [if_neg hMem]

end Offside.IR.Scope
