import Offside.Number.Binary64
import Offside.Text.Numeric

/-
  Decimal numbers, the numbers nearest to them, and the reading
  of decimal literals and of written numbers.

  Key definitions include:
    * `Offside.Decimal`
    * `Offside.Decimal.toBinary64`
    * `Offside.Decimal.ofLiteral?`
    * `Offside.Binary64.ofChars?`
-/

------------------------------------------------------------
-- Decimals
------------------------------------------------------------

namespace Offside

/- The decimal number `digits * 10 ^ exponent`. -/
structure Decimal where
  digits : Nat
  exponent : Int
  deriving DecidableEq, Repr

namespace Decimal

/- The number nearest to a decimal, with a sign. -/
def toBinary64
    (negative : Bool)
    (d : Decimal) :
    Binary64 :=
  if 0 ≤ d.exponent then
    Binary64.ofRatio negative (d.digits * Nat.pow 10 d.exponent.toNat) 1
  else
    Binary64.ofRatio negative d.digits (Nat.pow 10 (-d.exponent).toNat)

/- The number that a row of digit values stands for. -/
def ofDigitValues
    (values : List Nat) :
    Nat :=
  values.foldl (fun n value => 10 * n + value) 0

end Decimal

end Offside

------------------------------------------------------------
-- Literals
------------------------------------------------------------

namespace Offside.Decimal

/-
  Reads digits with at most one dot among them.  There has to
  be a digit, and all digits have to be decimal ones.
-/
def ofLiteral?
    (literal : List Char) :
    Option Decimal :=
  let whole := literal.takeWhile (· ≠ '.')
  let fraction := (literal.dropWhile (· ≠ '.')).drop 1
  match (whole ++ fraction).mapM Text.decimalValue? with
  | none => none
  | some [] => none
  | some values =>
      some ⟨ofDigitValues values, -(fraction.length : Int)⟩

end Offside.Decimal

------------------------------------------------------------
-- Written Numbers
------------------------------------------------------------

namespace Offside.Binary64

/- Reads an integer exponent with an optional sign. -/
def exponentOfChars? :
    List Char →
    Option Int
  | '-' :: digits => magnitude digits |>.map fun n => -(n : Int)
  | '+' :: digits => magnitude digits |>.map fun n => (n : Int)
  | digits => magnitude digits |>.map fun n => (n : Int)
where
  magnitude (digits : List Char) : Option Nat :=
    if digits.isEmpty then none
    else (digits.mapM Text.decimalValue?).map Decimal.ofDigitValues

/- Reads a number without a sign. -/
def magnitudeOfChars?
    (negative : Bool)
    (chars : List Char) :
    Option Binary64 :=
  if chars = ['i', 'n', 'f'] then some (infinite negative)
  else if chars = ['n', 'a', 'n'] then some nan
  else
    let literal := chars.takeWhile (· ≠ 'e')
    let exponent := chars.dropWhile (· ≠ 'e')
    match Decimal.ofLiteral? literal, exponent with
    | some d, [] => some (d.toBinary64 negative)
    | some d, _ :: exponent =>
        (exponentOfChars? exponent).map fun n =>
          Decimal.toBinary64 negative ⟨d.digits, d.exponent + n⟩
    | none, _ => none

/- Reads a number that `Binary64.chars` has written. -/
def ofChars? :
    List Char →
    Option Binary64
  | '-' :: chars => magnitudeOfChars? true chars
  | chars => magnitudeOfChars? false chars

end Offside.Binary64
