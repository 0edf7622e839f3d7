import SourcePages.Decimal.Binary64

namespace SourcePages

structure Decimal where
  digits : Nat
  exponent : Int
  deriving DecidableEq, Repr

namespace Decimal

inductive Tie where
  | toEven
  | up
  deriving DecidableEq, Repr

/-- The quarters of a unit in the last place, as a quotient; all that rounds to a double lies
between whole numbers of them. -/
structure Quarter where
  num : Nat
  den : Nat

def Quarter.onGrid (exponent grid : Int) : Quarter :=
  let e := exponent - 2
  ⟨Nat.pow 2 e.toNat * Nat.pow 10 (-grid).toNat, Nat.pow 2 (-e).toNat * Nat.pow 10 grid.toNat⟩

/-- Whether a grid point rounds to the double: the ends of its interval do so if the significand is
even. Below a power of two the interval is half as wide. -/
def readsBack (m : Nat) (exponent : Int) (quarter : Quarter) (point : Nat) : Bool :=
  let half :=
    if m = Nat.pow 2 (Binary64.precision - 1) && Binary64.minExponent < exponent then 1 else 2
  let low := (4 * m - half) * quarter.num
  let high := (4 * m + 2) * quarter.num
  let p := point * quarter.den
  if m % 2 = 0 then low ≤ p && p ≤ high else low < p && p < high

def onGrid? (tie : Tie) (m : Nat) (exponent grid : Int) : Option Nat :=
  let quarter := Quarter.onGrid exponent grid
  let value := 4 * m * quarter.num
  let below := value / quarter.den
  let above := below + 1
  let lower := value - below * quarter.den
  let upper := above * quarter.den - value
  match readsBack m exponent quarter below, readsBack m exponent quarter above with
  | true, true =>
    if lower < upper then some below
    else if upper < lower then some above
    else match tie with
      | .toEven => some (if below % 2 = 0 then below else above)
      | .up => some above
  | true, false => some below
  | false, true => some above
  | false, false => none

def pointPosition (m : Nat) (exponent : Int) : Int :=
  let scaled := m * Nat.pow 2 exponent.toNat * Nat.pow 10 400 / Nat.pow 2 (-exponent).toNat
  ((Nat.toDigits 10 scaled).length : Int) - 400

/-- The fewest digits that read back as a positive double. Seventeen always do. -/
def shortest (tie : Tie) (m : Nat) (exponent : Int) : Decimal :=
  let p := pointPosition m exponent
  let candidates := (List.range 17).findSome? fun (n : Nat) =>
    let grid := p - (n + 1)
    (onGrid? tie m exponent grid).map (Decimal.mk · grid)
  candidates.getD ⟨0, 0⟩

def hundredths (m : Nat) (exponent : Int) : Nat :=
  Binary64.roundHalfEven (100 * m * Nat.pow 2 exponent.toNat) (Nat.pow 2 (-exponent).toNat)

end Decimal

end SourcePages
