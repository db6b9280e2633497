import Offside.Number.Decimal

/-
  The text of a number: the fewest digits that read back as the
  same number, in positional or exponent form.

  Key definitions include:
    * `Offside.Binary64.shortest`
    * `Offside.Binary64.text`

  Candidates come from a decimal grid of 1, 2, ... digits.  On
  each grid only the two neighbours of the number can be
  nearest to it, and a candidate is taken when it reads back.
-/

------------------------------------------------------------
-- Decimal Grids
------------------------------------------------------------

namespace Offside.Binary64

/- How many decimal digits a natural number has. -/
def digitCount
    (n : Nat) :
    Nat :=
  (Nat.toDigits 10 n).length

/- The `k` with `10 ^ (k - 1) ≤ num / den < 10 ^ k`. -/
def decimalScale
    (num den : Nat) :
    Int :=
  let k : Int := (digitCount num : Int) - digitCount den
  let reached :=
    if 0 ≤ k then den * Nat.pow 10 k.toNat ≤ num
    else den ≤ num * Nat.pow 10 (-k).toNat
  if reached then k + 1 else k

/-
  The two neighbours of a quotient among the multiples of
  `10 ^ exponent`, the nearer one first; of two at the same
  distance the one with an even last digit.
-/
def neighbours
    (num den : Nat)
    (exponent : Int) :
    List Decimal :=
  let num := num * Nat.pow 10 (-exponent).toNat
  let den := den * Nat.pow 10 exponent.toNat
  let low : Decimal := ⟨num / den, exponent⟩
  let high : Decimal := ⟨num / den + 1, exponent⟩
  if roundDiv num den = num / den then [low, high] else [high, low]

/- The exact decimal value of `significand * 2 ^ exponent`. -/
def exactDecimal
    (significand : Nat)
    (exponent : Int) :
    Decimal :=
  if 0 ≤ exponent then ⟨significand * Nat.pow 2 exponent.toNat, 0⟩
  else ⟨significand * Nat.pow 5 (-exponent).toNat, exponent⟩

/-
  The shortest decimal that reads back as the given positive
  number, and of the shortest ones the nearest.
-/
def shortest
    (significand : Nat)
    (exponent : Int) :
    Decimal :=
  let num := numerator significand exponent
  let den := denominator exponent
  let scale := decimalScale num den
  let found := (List.range 17).findSome? fun extra =>
    (neighbours num den (scale - (extra + 1 : Nat))).find? fun d =>
      d.toBinary64 false = finite false significand exponent
  found.getD (exactDecimal significand exponent)

end Offside.Binary64

------------------------------------------------------------
-- Layout
------------------------------------------------------------

namespace Offside

/- Where positional notation ends, on both sides. -/
structure NumberLayout where
  leastPositional : Int
  greatestPositional : Int
  exponentWidth : Nat
  deriving DecidableEq, Repr

/-
  Numbers from `1e-04` up to but excluding `1e+16` are written
  positionally; an exponent has a sign and two digits or more.
-/
def numberLayout : NumberLayout := ⟨-4, 15, 2⟩

namespace NumberLayout

/- A signed exponent of at least the layout's width. -/
def exponentChars
    (layout : NumberLayout)
    (exponent : Int) :
    List Char :=
  let digits := Nat.toDigits 10 exponent.natAbs
  let sign := if exponent < 0 then '-' else '+'
  'e' :: sign ::
    List.replicate (layout.exponentWidth - digits.length) '0' ++ digits

/-
  Writes digits whose first one counts powers `10 ^ exponent`.
-/
def write
    (layout : NumberLayout)
    (digits : List Char)
    (exponent : Int) :
    List Char :=
  if exponent < layout.leastPositional ∨
      layout.greatestPositional < exponent then
    let tail := digits.drop 1
    digits.take 1
      ++ (if tail.isEmpty then [] else '.' :: tail)
      ++ layout.exponentChars exponent
  else if exponent < 0 then
    '0' :: '.' ::
      List.replicate (-exponent - 1).toNat '0' ++ digits
  else
    let places := exponent.toNat + 1
    let whole :=
      digits.take places
        ++ List.replicate (places - digits.length) '0'
    let fraction := digits.drop places
    whole ++ '.' :: (if fraction.isEmpty then ['0'] else fraction)

end NumberLayout

namespace Binary64

/- Drops the zeros at the end of a row of digits. -/
def dropTrailingZeros
    (digits : List Char) :
    List Char :=
  (digits.reverse.dropWhile (· = '0')).reverse

/- The text of a number without its sign. -/
def magnitudeChars
    (significand : Nat)
    (exponent : Int) :
    List Char :=
  if significand = 0 then ['0', '.', '0']
  else
    let d := shortest significand exponent
    let digits := Nat.toDigits 10 d.digits
    numberLayout.write (dropTrailingZeros digits)
      (d.exponent + digits.length - 1)

/- The text of a number, as characters. -/
def chars :
    Binary64 →
    List Char
  | nan => ['n', 'a', 'n']
  | infinite negative => signed negative ['i', 'n', 'f']
  | finite negative significand exponent =>
      signed negative (magnitudeChars significand exponent)
where
  signed (negative : Bool) (chars : List Char) : List Char :=
    if negative then '-' :: chars else chars

/- The text of a number. -/
def text
    (number : Binary64) :
    String :=
  String.ofList number.chars

end Binary64

end Offside
