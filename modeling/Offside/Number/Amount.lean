import Offside.Number.Shortest

/-
  Amounts: whole numbers and double-precision numbers side by
  side, compared by their exact values.

  Key definitions include:
    * `Offside.Amount`
    * `Offside.Amount.same`
    * `Offside.Amount.less`
    * `Offside.Amount.minus`
-/

------------------------------------------------------------
-- Amounts
------------------------------------------------------------

namespace Offside

/- A whole number or a double-precision number. -/
inductive Amount where
  | whole (n : Int)
  | real (x : Binary64)
  deriving DecidableEq, Repr

namespace Amount

/- Where an amount lies on the extended line. -/
def place? :
    Amount →
    Option Binary64.Place
  | whole n => some (.at n 1)
  | real x => x.place?

/- Exact equality of values; what is no number equals nothing. -/
def same
    (a b : Amount) :
    Bool :=
  match a.place?, b.place? with
  | some p, some q => p.same q
  | _, _ => false

/- Exact order of values; what is no number has no order. -/
def less
    (a b : Amount) :
    Bool :=
  match a.place?, b.place? with
  | some p, some q => p.less q
  | _, _ => false

/- Takes a whole number away and keeps the kind of amount. -/
def minus
    (a : Amount)
    (n : Int) :
    Amount :=
  match a with
  | whole m => whole (m - n)
  | real x => real (x.minus n)

/- The text of an amount. -/
def text :
    Amount →
    String
  | whole n => toString n
  | real x => x.text

/- The name of the kind of amount, as messages give it. -/
def kindName :
    Amount →
    String
  | whole _ => "int"
  | real _ => "float"

end Amount

end Offside
