import Mathlib
import Offside.Proofs.Parser.Tally

/-
  Trailing semicolons: those directly before an indentation or the
  end of a text, and the tokens without them.

  Key definitions include:
    * `Offside.Token.trails`
    * `Offside.Token.stripped`
    * `Offside.Token.IsText`

  Main statements:
    * `Offside.Token.stripped_append`: what is stripped in front of
      tokens is no solid token.
    * `Offside.Token.stripped_cases`: there is no trailing semicolon,
      or there is a first one.
-/

------------------------------------------------------------
-- Stripping
------------------------------------------------------------

namespace Offside.Token

/- Whether a line or the text ends after the token. -/
def endsLine
    (u : Token) :
    Bool :=
  u.kind = .indent || u.kind = .endOfText

/- Whether a token before others is a trailing semicolon. -/
def trails
    (t : Token)
    (ts : List Token) :
    Bool :=
  t.isOperator ";" && ts.head?.any endsLine

/- The tokens without the trailing semicolons. -/
def stripped :
    List Token →
    List Token
  | [] => []
  | t :: ts => if trails t ts then stripped ts else t :: stripped ts

theorem trails_eq_true_iff
    {t : Token}
    {ts : List Token} :
    trails t ts = true ↔
      t.isOperator ";" = true ∧
        ∃ u us, ts = u :: us ∧
          (u.kind = .indent ∨ u.kind = .endOfText) := by
  cases ts with
  | nil => simp [trails]
  | cons u us => simp [trails, endsLine]

theorem stripped_cons_of_trails
    {t : Token}
    {ts : List Token}
    (hTrails : trails t ts = true) :
    stripped (t :: ts) = stripped ts := by
  rw [stripped, if_pos hTrails]

theorem stripped_cons_of_not_trails
    {t : Token}
    {ts : List Token}
    (hOther : trails t ts = false) :
    stripped (t :: ts) = t :: stripped ts := by
  rw [stripped, if_neg (by simp [hOther])]

theorem stripped_cons_of_ne
    {t : Token}
    (hOther : t.isOperator ";" = false)
    (ts : List Token) :
    stripped (t :: ts) = t :: stripped ts :=
  stripped_cons_of_not_trails (by simp [trails, hOther])

theorem stripped_sublist
    (ts : List Token) :
    (stripped ts).Sublist ts := by
  induction ts with
  | nil => exact List.Sublist.refl []
  | cons t ts ih =>
      by_cases hTrails : trails t ts = true
      · rw [stripped_cons_of_trails hTrails]
        exact ih.cons t
      · rw [stripped_cons_of_not_trails (by simpa using hTrails)]
        exact ih.cons_cons t

theorem isSolid_of_isOperator
    {t : Token}
    {operator : String}
    (hOperator : t.isOperator operator = true) :
    t.isSolid = false := by
  simp only [isOperator, Bool.and_eq_true, decide_eq_true_eq]
    at hOperator
  simp [isSolid, hOperator.1]

/-
  Of the tokens in front of others the solid ones stay, and
  semicolons can only be lost.
-/
theorem stripped_append
    (ts us : List Token) :
    ∃ front,
      stripped (ts ++ us) = front ++ stripped us ∧
      front ⊆ ts ∧
      solid front = solid ts ∧
      (tallyAll front).semicolons ≤ (tallyAll ts).semicolons := by
  induction ts with
  | nil => exact ⟨[], rfl, List.Subset.refl [], rfl, le_rfl⟩
  | cons t ts ih =>
      rcases ih with ⟨front, hStripped, hSubset, hSolid, hFewer⟩
      by_cases hTrails : trails t (ts ++ us) = true
      · refine ⟨front, ?_, List.subset_cons_of_subset t hSubset, ?_, ?_⟩
        · rw [List.cons_append, stripped_cons_of_trails hTrails, hStripped]
        · have hOther := isSolid_of_isOperator
            (trails_eq_true_iff.mp hTrails).1
          rw [solid_cons_of_not_isSolid hOther, hSolid]
        · simp only [tallyAll_cons, Tally.semicolons_mul]
          omega
      · refine ⟨t :: front, ?_, List.cons_subset_cons t hSubset, ?_, ?_⟩
        · rw [List.cons_append,
            stripped_cons_of_not_trails (by simpa using hTrails),
            hStripped, List.cons_append]
        · simp only [solid, List.filter_cons] at hSolid ⊢
          rw [hSolid]
        · simp only [tallyAll_cons, Tally.semicolons_mul]
          omega

theorem solid_stripped
    (ts : List Token) :
    solid (stripped ts) = solid ts := by
  rcases stripped_append ts [] with ⟨front, hStripped, _, hSolid, _⟩
  have hFront : stripped ts = front := by simpa [stripped] using hStripped
  rw [hFront, hSolid]

/-
  A semicolon before a solid token is taken with some tokens, and
  others are taken where it is stripped.  If both have the same
  solid tokens and equally many semicolons, then the second end
  with a semicolon that the first do not have.
-/
theorem not_sealed_of_counts
    {t u : Token}
    (hSemicolon : t.isOperator ";" = true)
    (hSolid : u.isSolid = true)
    {more xs ys left right : List Token}
    (hXs : t :: u :: more = xs ++ left)
    (hYs : u :: stripped more = ys ++ right)
    (hSome : ys ≠ [])
    (hSame : solid xs = solid ys)
    (hCounts : (tallyAll xs).semicolons = (tallyAll ys).semicolons) :
    ¬Sealed ys := by
  intro hSealed
  have hKept : stripped (u :: more) = u :: stripped more := by
    apply stripped_cons_of_ne
    by_contra hOther
    rw [isSolid_of_isOperator (by simpa using hOther)] at hSolid
    cases hSolid
  have hFirst : ∃ zs, ys = u :: zs := by
    cases ys with
    | nil => exact absurd rfl hSome
    | cons y zs =>
        rw [List.cons_append, List.cons.injEq] at hYs
        exact ⟨zs, by rw [hYs.1]⟩
  cases xs with
  | nil =>
      rcases hFirst with ⟨zs, rfl⟩
      rw [solid_cons_of_isSolid hSolid] at hSame
      cases hSame
  | cons x xs =>
      rw [List.cons_append, List.cons.injEq] at hXs
      rcases hXs with ⟨rfl, hXs⟩
      rw [solid_cons_of_not_isSolid (isSolid_of_isOperator hSemicolon)]
        at hSame
      rw [tallyAll_cons, Tally.semicolons_mul,
        semicolons_tally_of_isOperator hSemicolon] at hCounts
      rcases stripped_append xs left with
        ⟨front, hFront, _, hSolids, hFewer⟩
      rw [← hXs, hKept, hYs] at hFront
      -- one of the two is in front of the other
      rcases List.prefix_or_prefix_of_prefix (List.prefix_append ys right)
          (hFront ▸ List.prefix_append front _) with
        ⟨ds, hLonger⟩ | ⟨ds, hLonger⟩
      · rw [← hLonger, tallyAll_append, Tally.semicolons_mul] at hFewer
        omega
      · have hNone : solid ds = [] := by
          rw [← hLonger, solid_append, hSolids] at hSame
          simpa using hSame.symm
        rw [← hLonger] at hSealed hCounts
        rw [tallyAll_append, Tally.semicolons_mul,
          hSealed.of_append.semicolons_eq_zero hNone] at hCounts
        omega

/-
  There is no trailing semicolon, or there is a first one, and
  nothing in front of it is stripped.
-/
theorem stripped_cases
    (ts : List Token) :
    (stripped ts = ts ∧ ∀ front t us, ts = front ++ t :: us →
      trails t us = false) ∨
    ∃ front t us,
      ts = front ++ t :: us ∧
      trails t us = true ∧
      (∀ late, late <:+ front →
        stripped (late ++ t :: us) = late ++ stripped us) ∧
      ∀ front' t' us', ts = front' ++ t' :: us' →
        trails t' us' = true → front <+: front' := by
  induction ts with
  | nil => exact .inl ⟨rfl, by simp⟩
  | cons t ts ih =>
      by_cases hTrails : trails t ts = true
      · refine .inr ⟨[], t, ts, rfl, hTrails, ?_, ?_⟩
        · intro late hLate
          rw [List.suffix_nil.mp hLate]
          exact stripped_cons_of_trails hTrails
        · exact fun _ _ _ _ _ => List.nil_prefix
      · have hKept : stripped (t :: ts) = t :: stripped ts :=
          stripped_cons_of_not_trails (by simpa using hTrails)
        rcases ih with ⟨hSame, hNone⟩ |
          ⟨front, u, us, rfl, hFirst, hLater, hLeast⟩
        · refine .inl ⟨by rw [hKept, hSame], ?_⟩
          intro front u us hSplit
          cases front with
          | nil =>
              cases hSplit
              simpa using hTrails
          | cons v front =>
              cases hSplit
              exact hNone front u us rfl
        · refine .inr ⟨t :: front, u, us, rfl, hFirst, ?_, ?_⟩
          · intro late hLate
            rcases List.suffix_cons_iff.mp hLate with rfl | hShorter
            · rw [List.cons_append, hKept,
                hLater front List.suffix_rfl, List.cons_append]
            · exact hLater late hShorter
          · intro front' t' us' hSplit hThere
            cases front' with
            | nil =>
                cases hSplit
                exact absurd hThere hTrails
            | cons v front' =>
                injection hSplit with hSame hRest
                rw [hSame]
                exact (List.prefix_cons_inj v).mpr
                  (hLeast front' t' us' hRest hThere)

end Offside.Token

------------------------------------------------------------
-- Texts
------------------------------------------------------------

namespace Offside.Token

/- The tokens of a text: regular ones, with the end at the end. -/
structure IsText
    (table : Precedence)
    (ts : List Token) :
    Prop where
  regular : ∀ t ∈ ts, t.Regular table
  ends : ∃ us e, ts = us ++ [e] ∧ e.kind = .endOfText ∧
    ∀ t ∈ us, t.kind ≠ .endOfText

namespace IsText

variable {table : Precedence}
variable {ts : List Token}

theorem ne_nil
    (hText : IsText table ts) :
    ts ≠ [] := by
  rcases hText.ends with ⟨us, e, rfl, _⟩
  simp

/- What is left of a text is a text, if anything is left. -/
theorem of_append
    {us : List Token}
    (hText : IsText table (us ++ ts))
    (hSome : ts ≠ []) :
    IsText table ts where
  regular t hMem := hText.regular t (List.mem_append_right us hMem)
  ends := by
    rcases hText.ends with ⟨vs, e, hSplit, hEnd, hInner⟩
    rcases List.eq_nil_or_concat' ts with rfl | ⟨inner, last, rfl⟩
    · exact absurd rfl hSome
    · rw [← List.append_assoc] at hSplit
      rcases List.append_inj' hSplit rfl with ⟨rfl, hLast⟩
      cases hLast
      exact ⟨inner, e, rfl, hEnd, fun t hMem =>
        hInner t (List.mem_append_right us hMem)⟩

theorem stripped
    (hText : IsText table ts) :
    IsText table (stripped ts) where
  regular t hMem := hText.regular t ((stripped_sublist ts).subset hMem)
  ends := by
    rcases hText.ends with ⟨us, e, rfl, hEnd, hInner⟩
    rcases stripped_append us [e] with ⟨front, hFront, hSubset, _⟩
    refine ⟨front, e, ?_, hEnd, fun t hMem => hInner t (hSubset hMem)⟩
    rw [hFront, stripped_cons_of_not_trails (by simp [trails])]
    rfl

/- Only the last token ends the text. -/
theorem eq_nil_of_endOfText
    {us : List Token}
    {e : Token}
    (hText : IsText table (us ++ e :: ts))
    (hEnd : e.kind = .endOfText) :
    ts = [] := by
  rcases hText.ends with ⟨vs, last, hSplit, _, hInner⟩
  rcases List.eq_nil_or_concat' ts with rfl | ⟨inner, last', rfl⟩
  · rfl
  · rw [← List.cons_append, ← List.append_assoc] at hSplit
    rcases List.append_inj' hSplit rfl with ⟨rfl, _⟩
    exact absurd hEnd (hInner e (by simp))

end IsText

end Offside.Token
