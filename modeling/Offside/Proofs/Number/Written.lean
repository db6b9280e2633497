import Mathlib
import Offside.Number.Shortest
import Offside.Proofs.Number.Rounding
import Offside.Proofs.Token.Piece

/-
  Written numbers: the text of a number is read back as the same
  number, so that two numbers never have one text.

  Key definitions include:
    * `Offside.Literal.number`

  Main statements:
    * `Offside.Binary64.toBinary64_shortest`: the digits that are
      chosen for a number stand for it.
    * `Offside.NumberLayout.exists_write`: digits are written as a
      literal, with an exponent or without one, that stands for
      the same decimal.
    * `Offside.Binary64.ofChars?_chars`: a number is read back.
    * `Offside.Binary64.text_injective`: two numbers have two texts.
-/

------------------------------------------------------------
-- Rows of Digits
------------------------------------------------------------

namespace Offside.Literal

/- The number that a row of digits stands for. -/
def number
    (ds : List (Fin 10)) :
    Nat :=
  Decimal.ofDigitValues (ds.map Fin.val)

theorem decimal_eq
    (l : Literal) :
    l.decimal =
      ⟨number (l.whole ++ l.fraction.getD []),
        -((l.fraction.getD []).length : Int)⟩ :=
  rfl

theorem number_concat
    (ds : List (Fin 10))
    (d : Fin 10) :
    number (ds ++ [d]) = 10 * number ds + d := by
  simp [number, Decimal.ofDigitValues]

theorem number_append
    (ds es : List (Fin 10)) :
    number (ds ++ es) = number ds * 10 ^ es.length + number es := by
  induction es using List.reverseRecOn with
  | nil => simp [number, Decimal.ofDigitValues]
  | append_singleton es e ih =>
      rw [← List.append_assoc, number_concat, number_concat, ih,
        List.length_append, List.length_singleton, pow_succ]
      ring

theorem number_zeros
    (n : Nat) :
    number (List.replicate n 0) = 0 := by
  induction n with
  | zero => rfl
  | succ n ih =>
      rw [List.replicate_succ', number_concat, ih]
      rfl

theorem digits_append
    (ds es : List (Fin 10)) :
    digits (ds ++ es) = digits ds ++ digits es := by
  simp [digits]

theorem digits_zeros
    (n : Nat) :
    digits (List.replicate n 0) = List.replicate n '0' := by
  simp only [digits, List.map_replicate]
  rfl

/- The digits of a number stand for it. -/
theorem exists_digits
    (n : Nat) :
    ∃ ds, Nat.toDigits 10 n = digits ds ∧ number ds = n := by
  induction n using Nat.strong_induction_on with
  | _ n ih =>
      by_cases hSmall : n < 10
      · refine ⟨[⟨n, hSmall⟩], Nat.toDigits_of_lt_base hSmall, ?_⟩
        simp [number, Decimal.ofDigitValues]
      · rcases ih (n / 10) (by omega) with ⟨ds, hDigits, hNumber⟩
        have hLast : n % 10 < 10 := Nat.mod_lt _ (by omega)
        refine ⟨ds ++ [⟨n % 10, hLast⟩], ?_, ?_⟩
        · rw [Nat.toDigits_of_base_le (by omega) (by omega), hDigits,
            digits_append]
          rfl
        · rw [number_concat, hNumber]
          exact Nat.div_add_mod n 10

/- What is dropped at the end of a row are zeros. -/
theorem exists_dropTrailingZeros
    (ds : List (Fin 10)) :
    ∃ es zeros,
      Binary64.dropTrailingZeros (digits ds) = digits es ∧
      ds = es ++ List.replicate zeros 0 := by
  induction ds using List.reverseRecOn with
  | nil => exact ⟨[], 0, rfl, rfl⟩
  | append_singleton ds d ih =>
      by_cases hZero : d = 0
      · subst hZero
        rcases ih with ⟨es, zeros, hDropped, hSplit⟩
        refine ⟨es, zeros + 1, ?_, ?_⟩
        · rw [← hDropped]
          simp [Binary64.dropTrailingZeros, digits]
        · rw [List.replicate_succ', ← List.append_assoc, ← hSplit]
      · refine ⟨ds ++ [d], 0, ?_, by simp⟩
        have hChar : Nat.digitChar d.val ≠ '0' := by
          revert d
          decide
        simp [Binary64.dropTrailingZeros, digits, hChar]

end Offside.Literal

------------------------------------------------------------
-- Writing Digits
------------------------------------------------------------

namespace Offside

namespace Literal

variable {ds : List (Fin 10)}

/- A literal with one digit before the dot. -/
theorem exists_scientific
    (hSome : ds ≠ []) :
    ∃ l : Literal,
      l.decimal = ⟨number ds, 1 - ds.length⟩ ∧
      l.chars = (digits ds).take 1 ++
        if ((digits ds).drop 1).isEmpty then []
        else '.' :: (digits ds).drop 1 := by
  rcases List.exists_cons_of_ne_nil hSome with ⟨d, tail, rfl⟩
  cases tail with
  | nil => exact ⟨⟨[d], none, hSome⟩, rfl, rfl⟩
  | cons e tail =>
      refine ⟨⟨[d], some (e :: tail), hSome⟩, ?_, rfl⟩
      simp only [decimal_eq, Option.getD_some, List.singleton_append,
        List.length_cons, Decimal.mk.injEq, true_and]
      omega

/- A literal with zeros after the dot. -/
theorem exists_fractional
    (ds : List (Fin 10))
    (zeros : Nat) :
    ∃ l : Literal,
      l.decimal = ⟨number ds, -(zeros + ds.length : Int)⟩ ∧
      l.chars = '0' :: '.' :: List.replicate zeros '0' ++ digits ds := by
  refine ⟨⟨[0], some (List.replicate zeros 0 ++ ds), by simp⟩, ?_, ?_⟩
  · have hNumber : number ([0] ++ (List.replicate zeros 0 ++ ds)) =
        number ds := by
      rw [← List.append_assoc, number_append, List.singleton_append,
        ← List.replicate_succ, number_zeros, zero_mul, zero_add]
    simp only [decimal_eq, Option.getD_some, hNumber, List.length_append,
      List.length_replicate, Nat.cast_add]
  · simp only [chars, digits_append, digits_zeros]
    rfl

/- A literal with some digits before the dot, and zeros for others. -/
theorem exists_positional
    (hSome : ds ≠ [])
    (places : Nat) :
    ∃ (l : Literal) (zeros : Nat),
      l.decimal = ⟨number ds * 10 ^ zeros, places - ds.length - zeros⟩ ∧
      l.chars = (digits ds).take places ++
        List.replicate (places - (digits ds).length) '0' ++
        '.' :: if ((digits ds).drop places).isEmpty then ['0']
          else (digits ds).drop places := by
  have hLength : (digits ds).length = ds.length := List.length_map _
  have hDrop : (digits ds).drop places = digits (ds.drop places) :=
    (List.map_drop ..).symm
  have hTake : (digits ds).take places = digits (ds.take places) :=
    (List.map_take ..).symm
  rw [hLength, hDrop, hTake]
  by_cases hFew : ds.length ≤ places
  · refine ⟨⟨ds ++ List.replicate (places - ds.length) 0, some [0],
      by simp⟩, places - ds.length + 1, ?_, ?_⟩
    · have hZeros : List.replicate (places - ds.length) 0 ++ [(0 : Fin 10)] =
          List.replicate (places - ds.length + 1) 0 :=
        List.replicate_succ'.symm
      simp only [decimal_eq, Option.getD_some, List.append_assoc, hZeros,
        number_append, number_zeros, add_zero, List.length_singleton,
        List.length_replicate, Decimal.mk.injEq, true_and]
      omega
    · rw [List.take_of_length_le hFew, List.drop_eq_nil_of_le hFew]
      simp only [chars, digits_append, digits_zeros]
      rfl
  · refine ⟨⟨ds.take places, some (ds.drop places), by simpa using hSome⟩,
      0, ?_, ?_⟩
    · simp only [decimal_eq, Option.getD_some, List.take_append_drop,
        pow_zero, mul_one, List.length_drop, Decimal.mk.injEq, true_and]
      omega
    · have hMore : (digits (ds.drop places)).isEmpty = false := by
        simpa [digits] using hFew
      rw [hMore, Nat.sub_eq_zero_of_le (not_le.mp hFew).le]
      simp [chars]

end Literal

namespace NumberLayout

open Literal (digits number)

/-
  Digits whose first one counts powers `10 ^ exponent` are written
  as a literal, with that exponent or without it, which stands for
  the same number; there can be more zeros at its end.
-/
theorem exists_write
    (layout : NumberLayout)
    {ds : List (Fin 10)}
    (hSome : ds ≠ [])
    (exponent : Int) :
    ∃ l : Literal,
      (layout.write (digits ds) exponent = l.chars ∧
        ∃ zeros : Nat, l.decimal =
          ⟨number ds * 10 ^ zeros, exponent + 1 - ds.length - zeros⟩) ∨
      (layout.write (digits ds) exponent =
          l.chars ++ layout.exponentChars exponent ∧
        l.decimal = ⟨number ds, 1 - ds.length⟩) := by
  unfold write
  split_ifs with hFar hBelow
  · rcases Literal.exists_scientific hSome with ⟨l, hDecimal, hChars⟩
    exact ⟨l, .inr ⟨by rw [hChars], hDecimal⟩⟩
  · rcases Literal.exists_fractional ds (-exponent - 1).toNat with
      ⟨l, hDecimal, hChars⟩
    refine ⟨l, .inl ⟨hChars.symm, 0, ?_⟩⟩
    rw [hDecimal, pow_zero, mul_one, Decimal.mk.injEq]
    omega
  · rcases Literal.exists_positional hSome (exponent.toNat + 1) with
      ⟨l, zeros, hDecimal, hChars⟩
    refine ⟨l, .inl ⟨hChars.symm, zeros, ?_⟩⟩
    rw [hDecimal, Decimal.mk.injEq]
    omega

end NumberLayout

end Offside

------------------------------------------------------------
-- Reading Numbers Back
------------------------------------------------------------

namespace Offside.Binary64

open Literal (digits number)

/- The exponent of a written number is read back. -/
theorem exists_exponentChars
    (layout : NumberLayout)
    (n : Int) :
    ∃ chars, layout.exponentChars n = 'e' :: chars ∧
      exponentOfChars? chars = some n := by
  rcases Literal.exists_digits n.natAbs with ⟨ds, hDigits, hNumber⟩
  have hMagnitude : ∀ zeros,
      exponentOfChars?.magnitude (List.replicate zeros '0' ++ digits ds) =
        some n.natAbs := by
    intro zeros
    have hDigit : digits ds ≠ [] := hDigits ▸ Nat.toDigits_ne_nil
    rw [exponentOfChars?.magnitude, if_neg (by simp [hDigit]),
      ← Literal.digits_zeros, ← Literal.digits_append, Literal.mapM_digits]
    change some (number _) = _
    rw [Literal.number_append, Literal.number_zeros, hNumber, zero_mul,
      zero_add]
  unfold NumberLayout.exponentChars
  simp only [hDigits, List.cons_append]
  refine ⟨_, rfl, ?_⟩
  split_ifs with hSign
  · have hNegative : -(n.natAbs : Int) = n := by omega
    rw [exponentOfChars?, hMagnitude]
    exact congrArg some hNegative
  · have hPositive : (n.natAbs : Int) = n := by omega
    rw [exponentOfChars?, hMagnitude]
    exact congrArg some hPositive

/- A literal begins with a digit or a dot. -/
theorem chars_append_ne
    (l : Literal)
    {c : Char}
    (hDigit : ∀ d : Fin 10, c ≠ Nat.digitChar d.val)
    (hDot : c ≠ '.')
    (more chars : List Char) :
    l.chars ++ more ≠ c :: chars := by
  intro hSame
  have hSome : l.chars ≠ [] := by
    intro hNone
    have hRead := Literal.ofLiteral?_chars l
    rw [hNone] at hRead
    cases hRead
  rcases List.exists_cons_of_ne_nil hSome with ⟨first, others, hChars⟩
  rw [hChars, List.cons_append, List.cons.injEq] at hSame
  have hFirst : first ∈ l.chars := by
    rw [hChars]
    exact List.mem_cons_self
  rcases Literal.digit_or_dot_of_mem_chars hFirst with ⟨d, hChar⟩ | hChar
  · exact hDigit d (hSame.1.symm.trans hChar)
  · exact hDot (hSame.1.symm.trans hChar)

theorem ne_e_of_mem_chars
    {l : Literal}
    {c : Char}
    (hMem : c ∈ l.chars) :
    decide (c ≠ 'e') = true := by
  have hDigit : ∀ d : Fin 10, Nat.digitChar d.val ≠ 'e' := by
    decide
  apply decide_eq_true
  rcases Literal.digit_or_dot_of_mem_chars hMem with ⟨d, rfl⟩ | rfl
  · exact hDigit d
  · decide

/- What follows a literal is nothing, or an exponent. -/
theorem magnitudeOfChars?_chars_append
    (negative : Bool)
    (l : Literal)
    {more : List Char}
    (hMore : more.takeWhile (· ≠ 'e') = []) :
    magnitudeOfChars? negative (l.chars ++ more) =
      match more with
      | [] => some (l.decimal.toBinary64 negative)
      | _ :: chars => (exponentOfChars? chars).map fun n =>
          Decimal.toBinary64 negative
            ⟨l.decimal.digits, l.decimal.exponent + n⟩ := by
  have hDrop : more.dropWhile (· ≠ 'e') = more := by
    have hSplit := List.takeWhile_append_dropWhile (p := (· ≠ 'e'))
      (l := more)
    rwa [hMore] at hSplit
  rw [magnitudeOfChars?,
    if_neg (chars_append_ne l (by decide) (by decide) _ _),
    if_neg (chars_append_ne l (by decide) (by decide) _ _)]
  simp only [List.takeWhile_append_of_pos fun c hMem => ne_e_of_mem_chars hMem,
    List.dropWhile_append_of_pos fun c hMem => ne_e_of_mem_chars hMem,
    hMore, hDrop, List.append_nil, Literal.ofLiteral?_chars]
  cases more <;> rfl

/- Written digits are read as the decimal that they stand for. -/
theorem magnitudeOfChars?_write
    (negative : Bool)
    (layout : NumberLayout)
    {ds : List (Fin 10)}
    (hSome : ds ≠ [])
    (exponent : Int) :
    magnitudeOfChars? negative (layout.write (digits ds) exponent) =
      some (Decimal.toBinary64 negative
        ⟨number ds, exponent + 1 - ds.length⟩) := by
  rcases layout.exists_write hSome exponent with ⟨l, hPlain | hShifted⟩
  · rcases hPlain with ⟨hChars, zeros, hDecimal⟩
    have hRead := magnitudeOfChars?_chars_append negative l
      (List.takeWhile_nil)
    rw [List.append_nil, ← hChars, hDecimal] at hRead
    rw [hRead]
    exact congrArg some (Decimal.toBinary64_shift ..)
  · rcases hShifted with ⟨hChars, hDecimal⟩
    rcases exists_exponentChars layout exponent with ⟨more, hMore, hExponent⟩
    have hRead : magnitudeOfChars? negative (l.chars ++ 'e' :: more) = _ :=
      magnitudeOfChars?_chars_append negative l rfl
    simp only [hExponent, hDecimal, Option.map_some] at hRead
    rw [hChars, hMore, hRead]
    congr 3
    omega

/- Written digits do not begin with a sign. -/
theorem write_ne
    (layout : NumberLayout)
    {ds : List (Fin 10)}
    (hSome : ds ≠ [])
    (exponent : Int)
    (chars : List Char) :
    layout.write (digits ds) exponent ≠ '-' :: chars := by
  rcases layout.exists_write hSome exponent with ⟨l, hPlain | hShifted⟩
  · rw [hPlain.1, ← List.append_nil l.chars]
    exact chars_append_ne l (by decide) (by decide) _ _
  · rw [hShifted.1]
    exact chars_append_ne l (by decide) (by decide) _ _

end Offside.Binary64

------------------------------------------------------------
-- The Text of a Number
------------------------------------------------------------

namespace Offside.Binary64

open Literal (digits number)

variable {significand : Nat}
variable {exponent : Int}

/- The number nearest to a decimal, up to its sign. -/
theorem toBinary64_eq_finite_iff
    (negative : Bool)
    (d : Decimal) :
    d.toBinary64 negative = finite negative significand exponent ↔
      Format.double.round (d.digits * 10 ^ d.exponent.toNat)
          (10 ^ (-d.exponent).toNat) =
        some (significand, exponent) := by
  rw [Decimal.toBinary64_eq_ofRatio, ofRatio]
  split
  · rename_i hRound
    rw [hRound]
    simp
  · rename_i hRound
    rw [hRound]
    simp

/- The exact decimal of a number stands for it. -/
theorem toBinary64_exactDecimal
    (hHolds : Format.double.Holds significand exponent)
    (negative : Bool) :
    (exactDecimal significand exponent).toBinary64 negative =
      finite negative significand exponent := by
  rw [toBinary64_eq_finite_iff]
  apply Format.round_of_holds hHolds (by positivity)
  unfold exactDecimal
  simp only [Nat.pow_eq]
  split_ifs with hSign
  · simp [Int.toNat_of_nonpos (neg_nonpos.mpr hSign)]
  · have hTen : 10 ^ (-exponent).toNat =
        5 ^ (-exponent).toNat * 2 ^ (-exponent).toNat :=
      mul_pow 5 2 _
    simp only [Int.toNat_of_nonpos (not_le.mp hSign).le, pow_zero, mul_one,
      hTen, mul_assoc]

/- The digits that are chosen for a number stand for it. -/
theorem toBinary64_shortest
    (hHolds : Format.double.Holds significand exponent)
    (negative : Bool) :
    (shortest significand exponent).toBinary64 negative =
      finite negative significand exponent := by
  unfold shortest
  dsimp only
  generalize hFound : List.findSome? _ _ = found
  cases found with
  | none => exact toBinary64_exactDecimal hHolds negative
  | some d =>
      rcases List.exists_of_findSome?_eq_some hFound with ⟨extra, _, hFind⟩
      have hReads := List.find?_some hFind
      rw [decide_eq_true_iff, toBinary64_eq_finite_iff] at hReads
      exact (toBinary64_eq_finite_iff negative d).mpr hReads

/- The digits of a number are those of the decimal, without zeros. -/
theorem exists_magnitudeChars
    (hHolds : Format.double.Holds significand exponent)
    (hSome : significand ≠ 0) :
    ∃ ds ≠ [], ∃ n,
      magnitudeChars significand exponent =
        numberLayout.write (digits ds) n ∧
      ∀ negative,
        Decimal.toBinary64 negative ⟨number ds, n + 1 - ds.length⟩ =
          finite negative significand exponent := by
  have hShortest := toBinary64_shortest hHolds
  unfold magnitudeChars
  rw [if_neg hSome]
  dsimp only
  generalize shortest significand exponent = d at hShortest ⊢
  rcases d with ⟨whole, scale⟩
  rcases Literal.exists_digits whole with ⟨ds, hDigits, rfl⟩
  rcases Literal.exists_dropTrailingZeros ds with ⟨es, zeros, hDropped, rfl⟩
  have hNumber : number (es ++ List.replicate zeros 0) =
      number es * 10 ^ zeros := by
    rw [Literal.number_append, Literal.number_zeros, List.length_replicate,
      add_zero]
  have hLength : (digits (es ++ List.replicate zeros 0)).length =
      es.length + zeros := by
    simp [digits]
  refine ⟨es, ?_, _, by rw [hDigits, hDropped], fun negative => ?_⟩
  · rintro rfl
    have hZero := (toBinary64_eq_finite_iff false _).mp (hShortest false)
    rw [hNumber] at hZero
    simp [number, Decimal.ofDigitValues, Format.round] at hZero
    exact hSome hZero.1.symm
  · rw [← hShortest negative, ← Decimal.toBinary64_shift negative
      (number es) _ zeros, hLength, hNumber]
    congr 2
    push_cast
    ring

/- A number without its sign is read back. -/
theorem magnitudeOfChars?_magnitudeChars
    (hHolds : Format.double.Holds significand exponent)
    (negative : Bool) :
    magnitudeOfChars? negative (magnitudeChars significand exponent) =
      some (finite negative significand exponent) := by
  by_cases hZero : significand = 0
  · subst hZero
    have hExponent : exponent = Format.double.minExponent :=
      hHolds.full.resolve_right (by decide)
    subst hExponent
    cases negative <;> rfl
  · rcases exists_magnitudeChars hHolds hZero with
      ⟨ds, hSome, n, hChars, hReads⟩
    rw [hChars, magnitudeOfChars?_write negative numberLayout hSome n,
      hReads]

theorem magnitudeChars_ne
    (hHolds : Format.double.Holds significand exponent)
    (chars : List Char) :
    magnitudeChars significand exponent ≠ '-' :: chars := by
  by_cases hZero : significand = 0
  · simp [magnitudeChars, hZero]
  · rcases exists_magnitudeChars hHolds hZero with ⟨ds, hSome, n, hChars, _⟩
    rw [hChars]
    exact write_ne numberLayout hSome n chars

/- The text of a number is read back as that number. -/
theorem ofChars?_chars
    {x : Binary64}
    (hProper : x.Proper) :
    ofChars? x.chars = some x := by
  cases x with
  | nan => rfl
  | infinite negative => cases negative <;> rfl
  | finite negative significand exponent =>
      cases negative with
      | true => exact magnitudeOfChars?_magnitudeChars hProper true
      | false =>
          have hPlain : ofChars? (magnitudeChars significand exponent) =
              magnitudeOfChars? false (magnitudeChars significand exponent) := by
            unfold ofChars?
            split
            · rename_i chars hChars
              exact absurd hChars (magnitudeChars_ne hProper chars)
            · rfl
          exact hPlain.trans (magnitudeOfChars?_magnitudeChars hProper false)

/- Two numbers have two texts. -/
theorem text_injective
    {x y : Binary64}
    (hProper : x.Proper)
    (hProper' : y.Proper)
    (hSame : x.text = y.text) :
    x = y := by
  have hChars : x.chars = y.chars := String.ofList_injective hSame
  have hRead := ofChars?_chars hProper
  rw [hChars, ofChars?_chars hProper'] at hRead
  exact (Option.some.inj hRead).symm

end Offside.Binary64
