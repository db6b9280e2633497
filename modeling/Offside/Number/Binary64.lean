/-
  Binary floating-point numbers with 53 bits of precision, kept
  as a sign, a significand and an exponent, and the correct
  rounding of a quotient to such a number.

  Key definitions include:
    * `Offside.Binary64`
    * `Offside.Format.round`
    * `Offside.Binary64.ofRatio`
    * `Offside.Binary64.toSingle`
    * `Offside.Binary64.toBits`

  All arithmetic is on natural numbers and exact, so rounding
  takes place once, in `Format.round`.
-/

------------------------------------------------------------
-- Rounding a Quotient
------------------------------------------------------------

namespace Offside

/- The quotient to the nearest integer, a half to the even one. -/
def roundDiv
    (num den : Nat) :
    Nat :=
  let quotient := num / den
  let twice := 2 * (num % den)
  if twice < den then quotient
  else if den < twice then quotient + 1
  else quotient + quotient % 2

/- The greatest `k` with `2 ^ k ≤ num / den`, for `num` positive. -/
def floorLog2
    (num den : Nat) :
    Int :=
  let k : Int := num.log2 - den.log2
  let reached :=
    if 0 ≤ k then den * Nat.pow 2 k.toNat ≤ num
    else den ≤ num * Nat.pow 2 (-k).toNat
  if reached then k else k - 1

end Offside

------------------------------------------------------------
-- Formats
------------------------------------------------------------

namespace Offside

/-
  A binary format: the bits of a significand and the least and
  greatest exponent of its last bit.
-/
structure Format where
  precision : Nat
  minExponent : Int
  maxExponent : Int
  deriving DecidableEq, Repr

namespace Format

/- Double precision. -/
def double : Format := ⟨53, -1074, 971⟩

/- Single precision. -/
def single : Format := ⟨24, -149, 104⟩

/-
  The significand and exponent nearest to a quotient, or
  nothing when it lies beyond the greatest finite number.
-/
def round
    (format : Format)
    (num den : Nat) :
    Option (Nat × Int) :=
  if num = 0 then some (0, format.minExponent)
  else
    let exponent :=
      max format.minExponent
        (floorLog2 num den + 1 - format.precision)
    let significand :=
      if 0 ≤ exponent then roundDiv num (den * Nat.pow 2 exponent.toNat)
      else roundDiv (num * Nat.pow 2 (-exponent).toNat) den
    let (significand, exponent) :=
      if significand = Nat.pow 2 format.precision then
        (Nat.pow 2 (format.precision - 1), exponent + 1)
      else (significand, exponent)
    if exponent ≤ format.maxExponent then some (significand, exponent)
    else none

end Format

end Offside

------------------------------------------------------------
-- Double-Precision Numbers
------------------------------------------------------------

namespace Offside

/-
  A double-precision number.  The finite one stands for
  `significand * 2 ^ exponent`, with its sign; zero and the
  numbers below the normal range have the least exponent.
-/
inductive Binary64 where
  | nan
  | infinite (negative : Bool)
  | finite (negative : Bool) (significand : Nat) (exponent : Int)
  deriving DecidableEq, Repr

namespace Binary64

/- The number nearest to a signed quotient. -/
def ofRatio
    (negative : Bool)
    (num den : Nat) :
    Binary64 :=
  match Format.double.round num den with
  | some (significand, exponent) =>
      finite negative significand exponent
  | none => infinite negative

/- The numerator of `significand * 2 ^ exponent`. -/
def numerator
    (significand : Nat)
    (exponent : Int) :
    Nat :=
  significand * Nat.pow 2 exponent.toNat

/- The denominator of `significand * 2 ^ exponent`. -/
def denominator
    (exponent : Int) :
    Nat :=
  Nat.pow 2 (-exponent).toNat

/- Positive zero. -/
def zero : Binary64 := ofRatio false 0 1

/- One. -/
def one : Binary64 := ofRatio false 1 1

/-
  The number rounded to single precision; what is too large
  becomes infinite.
-/
def toSingle :
    Binary64 →
    Binary64
  | finite negative significand exponent =>
      match Format.single.round
          (numerator significand exponent)
          (denominator exponent) with
      | some (significand, exponent) =>
          ofRatio negative
            (numerator significand exponent)
            (denominator exponent)
      | none => infinite negative
  | number => number

/- The bits of the number in the interchange encoding. -/
def toBits :
    Binary64 →
    Nat
  | nan => 0x7ff8000000000000
  | infinite negative =>
      0x7ff0000000000000 + cond negative (Nat.pow 2 63) 0
  | finite negative significand exponent =>
      let magnitude :=
        if significand < Nat.pow 2 52 then significand
        else
          (exponent + 1075).toNat * Nat.pow 2 52
            + (significand - Nat.pow 2 52)
      magnitude + cond negative (Nat.pow 2 63) 0

end Binary64

end Offside

------------------------------------------------------------
-- Comparison and Difference
------------------------------------------------------------

namespace Offside.Binary64

/-
  Where a number lies on the extended line: a signed fraction
  over a positive denominator, or one of the two ends.
-/
inductive Place where
  | below
  | at (num : Int) (den : Nat)
  | above
  deriving DecidableEq, Repr

/- The place of a number; a number that is no number has none. -/
def place? :
    Binary64 →
    Option Place
  | nan => none
  | infinite true => some .below
  | infinite false => some .above
  | finite negative significand exponent =>
      let magnitude : Int := numerator significand exponent
      some (.at (cond negative (-magnitude) magnitude)
        (denominator exponent))

/- Strict order of places. -/
def Place.less :
    Place →
    Place →
    Bool
  | .below, .below => false
  | .below, _ => true
  | _, .below => false
  | .above, _ => false
  | _, .above => true
  | .at a b, .at c d => a * d < c * b

/- Equality of places. -/
def Place.same
    (p q : Place) :
    Bool :=
  !p.less q && !q.less p

/- The difference to a whole number, rounded to the nearest. -/
def minus :
    Binary64 →
    Int →
    Binary64
  | finite negative significand exponent, n =>
      let magnitude : Int := numerator significand exponent
      let den := denominator exponent
      let difference := cond negative (-magnitude) magnitude - n * den
      ofRatio (difference < 0) difference.natAbs den
  | number, _ => number

end Offside.Binary64
