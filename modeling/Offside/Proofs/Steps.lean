import Mathlib

/-
  Running steps that keep a state: what a sequence of steps
  does, and what is known when it has succeeded.

  Main statements:
    * `Offside.Steps.bind_apply`
    * `Offside.Steps.bind_eq_ok`
-/

------------------------------------------------------------
-- Running Steps
------------------------------------------------------------

namespace Offside.Steps

variable {ε σ α β : Type}

theorem bind_apply
    (p : EStateM ε σ α)
    (k : α → EStateM ε σ β)
    (s : σ) :
    (p >>= k) s =
      match p s with
      | .ok a s => k a s
      | .error e s => .error e s := by
  change EStateM.bind p k s = _
  unfold EStateM.bind
  cases p s <;> rfl

theorem map_apply
    (f : α → β)
    (p : EStateM ε σ α)
    (s : σ) :
    (f <$> p) s =
      match p s with
      | .ok a s => .ok (f a) s
      | .error e s => .error e s := by
  change EStateM.map f p s = _
  unfold EStateM.map
  cases p s <;> rfl

@[simp] theorem pure_apply
    (a : α)
    (s : σ) :
    (pure a : EStateM ε σ α) s = .ok a s :=
  rfl

@[simp] theorem throw_apply
    (e : ε)
    (s : σ) :
    (throw e : EStateM ε σ α) s = .error e s :=
  rfl

@[simp] theorem get_apply
    (s : σ) :
    (get : EStateM ε σ σ) s = .ok s s :=
  rfl

@[simp] theorem modify_apply
    (f : σ → σ)
    (s : σ) :
    (modify f : EStateM ε σ Unit) s = .ok () (f s) :=
  rfl

/- A sequence goes on where its first step has succeeded. -/
theorem bind_ok
    {p : EStateM ε σ α}
    {s s' : σ}
    {a : α}
    (hRun : p s = .ok a s')
    (k : α → EStateM ε σ β) :
    (p >>= k) s = k a s' := by
  rw [bind_apply, hRun]

/- A sequence of two steps succeeds when both do. -/
theorem bind_eq_ok
    {p : EStateM ε σ α}
    {k : α → EStateM ε σ β}
    {s s' : σ}
    {b : β}
    (hRun : (p >>= k) s = .ok b s') :
    ∃ a t, p s = .ok a t ∧ k a t = .ok b s' := by
  rw [bind_apply] at hRun
  cases h : p s with
  | error e t =>
      rw [h] at hRun
      cases hRun
  | ok a t =>
      rw [h] at hRun
      exact ⟨a, t, rfl, hRun⟩

/- A sequence of two steps fails when one of them does. -/
theorem bind_eq_error
    {p : EStateM ε σ α}
    {k : α → EStateM ε σ β}
    {s s' : σ}
    {e : ε}
    (hRun : (p >>= k) s = .error e s') :
    p s = .error e s' ∨
      ∃ a t, p s = .ok a t ∧ k a t = .error e s' := by
  rw [bind_apply] at hRun
  cases h : p s with
  | error e t =>
      rw [h] at hRun
      cases hRun
      exact .inl rfl
  | ok a t =>
      rw [h] at hRun
      exact .inr ⟨a, t, rfl, hRun⟩

theorem map_eq_ok
    {f : α → β}
    {p : EStateM ε σ α}
    {s s' : σ}
    {b : β}
    (hRun : (f <$> p) s = .ok b s') :
    ∃ a, p s = .ok a s' ∧ f a = b := by
  rw [map_apply] at hRun
  cases h : p s with
  | error e t =>
      rw [h] at hRun
      cases hRun
  | ok a t =>
      rw [h] at hRun
      cases hRun
      exact ⟨a, rfl, rfl⟩

end Offside.Steps
