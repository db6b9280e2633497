import Mathlib
import Offside.Number.Decimal

/-
  Rounding: a quotient is rounded to a number of the format, the
  numbers of the format are kept, and only the value of a quotient
  matters, not the way it is given.

  Key definitions include:
    * `Offside.Format.Holds`
    * `Offside.Binary64.Proper`

  Main statements:
    * `Offside.Format.holds_of_round`: what is rounded to is a
      number of the format.
    * `Offside.Format.round_of_holds`: such a number is rounded to
      itself.
    * `Offside.Format.round_congr`: equal quotients are rounded to
      the same number.
    * `Offside.Decimal.toBinary64_shift`: zeros at the end of a
      decimal do not change the number nearest to it.
-/

------------------------------------------------------------
-- Rounding to an Integer
------------------------------------------------------------

namespace Offside

theorem roundDiv_mul_right
    (num den : Nat)
    {c : Nat}
    (hPositive : 0 < c) :
    roundDiv (num * c) (den * c) = roundDiv num den := by
  have hTwice : 2 * (num * c % (den * c)) = 2 * (num % den) * c := by
    rw [Nat.mul_mod_mul_right, Nat.mul_assoc]
  unfold roundDiv
  simp only [hTwice, Nat.mul_div_mul_right _ _ hPositive,
    Nat.mul_lt_mul_right hPositive]

/- Equal quotients are rounded to the same integer. -/
theorem roundDiv_congr
    {num den num' den' : Nat}
    (hDen : 0 < den)
    (hDen' : 0 < den')
    (hSame : num * den' = num' * den) :
    roundDiv num den = roundDiv num' den' := by
  rw [← roundDiv_mul_right num den hDen', hSame, Nat.mul_comm den den',
    roundDiv_mul_right num' den' hDen]

/- An integer is rounded to itself. -/
theorem roundDiv_mul
    (n : Nat)
    {den : Nat}
    (hDen : 0 < den) :
    roundDiv (n * den) den = n := by
  simp [roundDiv, hDen]

theorem le_roundDiv
    {n num den : Nat}
    (hDen : 0 < den)
    (hLe : n * den ≤ num) :
    n ≤ roundDiv num den := by
  have hQuotient : n ≤ num / den := (Nat.le_div_iff_mul_le hDen).mpr hLe
  unfold roundDiv
  dsimp only
  split_ifs
  all_goals omega

theorem roundDiv_le
    {n num den : Nat}
    (hDen : 0 < den)
    (hLe : num ≤ n * den) :
    roundDiv num den ≤ n := by
  rcases hLe.eq_or_lt with rfl | hLess
  · exact (roundDiv_mul n hDen).le
  · have hQuotient : num / den < n := (Nat.div_lt_iff_lt_mul hDen).mpr hLess
    unfold roundDiv
    dsimp only
    split_ifs
    all_goals omega

end Offside

------------------------------------------------------------
-- Powers and Quotients
------------------------------------------------------------

namespace Offside

/- An integral power as a quotient of two natural ones. -/
theorem zpow_eq_div
    (k : Int) :
    (2 : ℚ) ^ k = 2 ^ k.toNat / 2 ^ (-k).toNat := by
  have hParts : k = (k.toNat : Int) - ((-k).toNat : Int) := by
    omega
  conv_lhs => rw [hParts]
  rw [zpow_sub₀ two_ne_zero, zpow_natCast, zpow_natCast]

variable {num den : Nat}

/- The logarithm of a quotient, in integers. -/
theorem add_le_log_iff
    (hNum : 0 < num)
    (hDen : 0 < den)
    (k : Int)
    (n : Nat) :
    k + n ≤ Int.log 2 ((num : ℚ) / den) ↔
      2 ^ n * (den * 2 ^ k.toNat) ≤ num * 2 ^ (-k).toNat := by
  have hQuotient : (0 : ℚ) < num / den := by positivity
  have hDen' : (0 : ℚ) < den := by exact_mod_cast hDen
  rw [← Int.zpow_le_iff_le_log one_lt_two hQuotient, Nat.cast_ofNat,
    zpow_add₀ two_ne_zero, zpow_eq_div, zpow_natCast, div_mul_eq_mul_div,
    div_le_div_iff₀ (by positivity) hDen']
  have hOrder : (2 : ℚ) ^ k.toNat * 2 ^ n * den =
      2 ^ n * (den * 2 ^ k.toNat) := by
    ring
  rw [hOrder]
  exact_mod_cast Iff.rfl

/- The greatest power of two in a quotient. -/
theorem floorLog2_eq_log
    (hNum : 0 < num)
    (hDen : 0 < den) :
    floorLog2 num den = Int.log 2 ((num : ℚ) / den) := by
  have hNum' : (0 : ℚ) < num := by exact_mod_cast hNum
  have hDen' : (0 : ℚ) < den := by exact_mod_cast hDen
  have hQuotient : (0 : ℚ) < num / den := div_pos hNum' hDen'
  -- The difference of the two logarithms is right or one too large.
  have hBelow : (num.log2 : Int) - den.log2 - 1 ≤
      Int.log 2 ((num : ℚ) / den) := by
    have hNumLe : (2 : ℚ) ^ num.log2 ≤ num := by
      exact_mod_cast Nat.log2_self_le hNum.ne'
    have hDenLt : (den : ℚ) ≤ 2 ^ (den.log2 + 1) := by
      exact_mod_cast Nat.lt_log2_self.le
    apply (Int.zpow_le_iff_le_log one_lt_two hQuotient).mp
    rw [sub_sub, zpow_sub₀ (by norm_num), div_le_div_iff₀ (by positivity) hDen']
    exact mul_le_mul (by exact_mod_cast hNumLe) (by exact_mod_cast hDenLt)
      hDen'.le hNum'.le
  have hAbove : Int.log 2 ((num : ℚ) / den) <
      (num.log2 : Int) + 1 - den.log2 := by
    have hNumLt : (num : ℚ) < 2 ^ (num.log2 + 1) := by
      exact_mod_cast Nat.lt_log2_self
    have hDenLe : (2 : ℚ) ^ den.log2 ≤ den := by
      exact_mod_cast Nat.log2_self_le hDen.ne'
    apply (Int.lt_zpow_iff_log_lt one_lt_two hQuotient).mp
    rw [zpow_sub₀ (by norm_num), div_lt_div_iff₀ hDen' (by positivity)]
    exact mul_lt_mul (by exact_mod_cast hNumLt) (by exact_mod_cast hDenLe)
      (by positivity) (by positivity)
  have hReached :=
    add_le_log_iff hNum hDen ((num.log2 : Int) - den.log2) 0
  rw [Nat.cast_zero, add_zero, pow_zero, one_mul] at hReached
  unfold floorLog2
  simp only [Nat.pow_eq]
  generalize hDifference : (num.log2 : Int) - den.log2 = k at hReached ⊢
  have hTest : (if 0 ≤ k then den * 2 ^ k.toNat ≤ num
      else den ≤ num * 2 ^ (-k).toNat) ↔
      k ≤ Int.log 2 ((num : ℚ) / den) := by
    rw [hReached]
    split_ifs with hSign
    · rw [Int.toNat_of_nonpos (neg_nonpos.mpr hSign), pow_zero, mul_one]
    · rw [Int.toNat_of_nonpos (not_le.mp hSign).le, pow_zero, mul_one]
  rw [if_congr hTest rfl rfl]
  split_ifs
  all_goals omega

end Offside

------------------------------------------------------------
-- Numbers of a Format
------------------------------------------------------------

namespace Offside.Format

/-
  The numbers of a format: significands have no more than its
  bits, and only with the least exponent they can have fewer.
-/
structure Holds
    (format : Format)
    (significand : Nat)
    (exponent : Int) :
    Prop where
  below : significand < 2 ^ format.precision
  full :
    exponent = format.minExponent ∨
      2 ^ (format.precision - 1) ≤ significand
  least : format.minExponent ≤ exponent
  greatest : exponent ≤ format.maxExponent

/- The exponent that a quotient is rounded at. -/
def exponentFor
    (format : Format)
    (num den : Nat) :
    Int :=
  max format.minExponent (floorLog2 num den + 1 - format.precision)

/- The quotient as an integral multiple of a power of two. -/
def multipleAt
    (num den : Nat)
    (exponent : Int) :
    Nat :=
  roundDiv (num * 2 ^ (-exponent).toNat) (den * 2 ^ exponent.toNat)

variable {format : Format}
variable {num den significand : Nat}
variable {exponent : Int}

theorem multipleAt_eq
    (num den : Nat)
    (exponent : Int) :
    (if 0 ≤ exponent then roundDiv num (den * 2 ^ exponent.toNat)
      else roundDiv (num * 2 ^ (-exponent).toNat) den) =
      multipleAt num den exponent := by
  unfold multipleAt
  split_ifs with hSign
  · rw [Int.toNat_of_nonpos (neg_nonpos.mpr hSign), pow_zero, mul_one]
  · rw [Int.toNat_of_nonpos (not_le.mp hSign).le, pow_zero, mul_one]

theorem round_eq
    (hNum : num ≠ 0)
    (hExponent : format.exponentFor num den = exponent)
    (hSignificand : multipleAt num den exponent = significand) :
    format.round num den =
      if significand = 2 ^ format.precision then
        if exponent + 1 ≤ format.maxExponent then
          some (2 ^ (format.precision - 1), exponent + 1)
        else none
      else if exponent ≤ format.maxExponent then
        some (significand, exponent)
      else none := by
  subst hExponent hSignificand
  unfold round exponentFor
  simp only [hNum, if_false, Nat.pow_eq, multipleAt_eq]
  split_ifs <;> simp_all

theorem le_multipleAt
    {n : Nat}
    (hNum : 0 < num)
    (hDen : 0 < den)
    (hBelow : exponent + n ≤ floorLog2 num den) :
    2 ^ n ≤ multipleAt num den exponent := by
  rw [floorLog2_eq_log hNum hDen, add_le_log_iff hNum hDen] at hBelow
  exact le_roundDiv (by positivity) hBelow

theorem multipleAt_le
    {n : Nat}
    (hNum : 0 < num)
    (hDen : 0 < den)
    (hAbove : floorLog2 num den < exponent + n) :
    multipleAt num den exponent ≤ 2 ^ n := by
  rw [← not_le, floorLog2_eq_log hNum hDen, add_le_log_iff hNum hDen,
    not_le] at hAbove
  exact roundDiv_le (by positivity) hAbove.le

/- A quotient is rounded to a number of the format. -/
theorem holds_of_round
    (hPrecision : 0 < format.precision)
    (hRange : format.minExponent ≤ format.maxExponent)
    (hDen : 0 < den)
    (hRound : format.round num den = some (significand, exponent)) :
    format.Holds significand exponent := by
  by_cases hNum : num = 0
  · rw [round, if_pos hNum] at hRound
    cases hRound
    exact ⟨by positivity, .inl rfl, le_rfl, hRange⟩
  have hNum' := Nat.pos_of_ne_zero hNum
  have hLeast : format.minExponent ≤ format.exponentFor num den :=
    le_max_left _ _
  have hMost : multipleAt num den (format.exponentFor num den) ≤
      2 ^ format.precision := by
    apply multipleAt_le hNum' hDen
    unfold exponentFor
    omega
  have hFull : format.exponentFor num den = format.minExponent ∨
      2 ^ (format.precision - 1) ≤
        multipleAt num den (format.exponentFor num den) := by
    rcases max_choice format.minExponent
      (floorLog2 num den + 1 - format.precision) with hMin | hLog
    · exact .inl hMin
    · refine .inr (le_multipleAt hNum' hDen ?_)
      unfold exponentFor
      omega
  have hHalf : 2 ^ (format.precision - 1) < 2 ^ format.precision :=
    Nat.pow_lt_pow_right one_lt_two (by omega)
  rw [round_eq hNum rfl rfl] at hRound
  split_ifs at hRound with hCarry hGreatest hGreatest
  · cases hRound
    exact ⟨hHalf, .inr le_rfl, by omega, hGreatest⟩
  · cases hRound
    exact ⟨lt_of_le_of_ne hMost hCarry, hFull, hLeast, hGreatest⟩

/- A number of the format is rounded to itself. -/
theorem round_of_holds
    (hHolds : format.Holds significand exponent)
    (hDen : 0 < den)
    (hSame :
      num * 2 ^ (-exponent).toNat =
        significand * (den * 2 ^ exponent.toNat)) :
    format.round num den = some (significand, exponent) := by
  have hUnit : 0 < den * 2 ^ exponent.toNat := by positivity
  by_cases hNum : num = 0
  · have hZero : significand = 0 := by
      rw [hNum, zero_mul, eq_comm, mul_eq_zero] at hSame
      omega
    have hExponent : exponent = format.minExponent := by
      refine hHolds.full.resolve_right (not_le.mpr ?_)
      rw [hZero]
      positivity
    rw [round, if_pos hNum, hZero, hExponent]
  have hNum' := Nat.pos_of_ne_zero hNum
  have hMultiple : multipleAt num den exponent = significand := by
    rw [multipleAt, hSame, roundDiv_mul _ hUnit]
  have hReached : ∀ n : Nat,
      exponent + n ≤ floorLog2 num den ↔ 2 ^ n ≤ significand := by
    intro n
    rw [floorLog2_eq_log hNum' hDen, add_le_log_iff hNum' hDen, hSame,
      Nat.mul_le_mul_right_iff hUnit]
  have hExponent : format.exponentFor num den = exponent := by
    have hAbove := (hReached format.precision).not.mpr
      (not_le.mpr hHolds.below)
    have hLeast := hHolds.least
    unfold exponentFor
    rcases hHolds.full with hMin | hFull
    · omega
    · have hBelow := (hReached (format.precision - 1)).mpr hFull
      omega
  rw [round_eq hNum hExponent hMultiple, if_neg hHolds.below.ne,
    if_pos hHolds.greatest]

/- Equal quotients are rounded to the same number. -/
theorem round_congr
    (format : Format)
    {num' den' : Nat}
    (hDen : 0 < den)
    (hDen' : 0 < den')
    (hSame : num * den' = num' * den) :
    format.round num den = format.round num' den' := by
  have hNone : num = 0 ↔ num' = 0 := by
    have hZero := congrArg (· = 0) hSame
    simpa [hDen.ne', hDen'.ne'] using hZero
  by_cases hNum : num = 0
  · rw [round, round, if_pos hNum, if_pos (hNone.mp hNum)]
  have hQuotient : (num : ℚ) / den = num' / den' := by
    rw [div_eq_div_iff (by positivity) (by positivity)]
    exact_mod_cast hSame
  have hLog : floorLog2 num den = floorLog2 num' den' := by
    rw [floorLog2_eq_log (by omega) hDen, floorLog2_eq_log (by omega) hDen',
      hQuotient]
  have hMultiple : ∀ e, multipleAt num den e = multipleAt num' den' e := by
    intro e
    apply roundDiv_congr (by positivity) (by positivity)
    calc num * 2 ^ (-e).toNat * (den' * 2 ^ e.toNat)
        = num * den' * (2 ^ (-e).toNat * 2 ^ e.toNat) := by ring
      _ = num' * den * (2 ^ (-e).toNat * 2 ^ e.toNat) := by rw [hSame]
      _ = num' * 2 ^ (-e).toNat * (den * 2 ^ e.toNat) := by ring
  have hExponent : format.exponentFor num den =
      format.exponentFor num' den' := by
    rw [exponentFor, exponentFor, hLog]
  rw [round_eq hNum rfl rfl, round_eq (by omega) rfl rfl, hExponent,
    hMultiple]

end Offside.Format

------------------------------------------------------------
-- Double-Precision Numbers
------------------------------------------------------------

namespace Offside

namespace Binary64

/- Numbers of the format, and those that are not finite. -/
def Proper :
    Binary64 →
    Prop
  | finite _ significand exponent =>
      Format.double.Holds significand exponent
  | _ => True

theorem proper_ofRatio
    (negative : Bool)
    (num : Nat)
    {den : Nat}
    (hDen : 0 < den) :
    (ofRatio negative num den).Proper := by
  unfold ofRatio
  split
  · rename_i significand exponent hRound
    exact Format.holds_of_round (by decide) (by decide) hDen hRound
  · trivial

theorem ofRatio_congr
    (negative : Bool)
    {num den num' den' : Nat}
    (hDen : 0 < den)
    (hDen' : 0 < den')
    (hSame : num * den' = num' * den) :
    ofRatio negative num den = ofRatio negative num' den' := by
  rw [ofRatio, ofRatio, Format.round_congr _ hDen hDen' hSame]

end Binary64

namespace Decimal

/- A decimal as a quotient, whatever the sign of its exponent. -/
theorem toBinary64_eq_ofRatio
    (negative : Bool)
    (d : Decimal) :
    d.toBinary64 negative =
      Binary64.ofRatio negative (d.digits * 10 ^ d.exponent.toNat)
        (10 ^ (-d.exponent).toNat) := by
  unfold toBinary64
  simp only [Nat.pow_eq]
  split_ifs with hSign
  · rw [Int.toNat_of_nonpos (neg_nonpos.mpr hSign), pow_zero]
  · rw [Int.toNat_of_nonpos (not_le.mp hSign).le, pow_zero, mul_one]

theorem proper_toBinary64
    (negative : Bool)
    (d : Decimal) :
    (d.toBinary64 negative).Proper := by
  rw [toBinary64_eq_ofRatio]
  exact Binary64.proper_ofRatio negative _ (by positivity)

/- Zeros at the end of a decimal do not count. -/
theorem toBinary64_shift
    (negative : Bool)
    (digits : Nat)
    (exponent : Int)
    (zeros : Nat) :
    toBinary64 negative ⟨digits * 10 ^ zeros, exponent - zeros⟩ =
      toBinary64 negative ⟨digits, exponent⟩ := by
  rw [toBinary64_eq_ofRatio, toBinary64_eq_ofRatio]
  apply Binary64.ofRatio_congr negative (by positivity) (by positivity)
  have hPlaces : zeros + (exponent - zeros).toNat + (-exponent).toNat =
      exponent.toNat + (-(exponent - zeros)).toNat := by
    omega
  simp only [mul_assoc, ← pow_add]
  rw [← hPlaces, add_assoc]

end Decimal

end Offside
