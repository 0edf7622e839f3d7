import SourcePages.Decimal.Layout

/-!
Numbers of JSON. A number without point and exponent is an integer if it fits 64 bits; every other
number is a double.
-/

namespace SourcePages.Json

inductive Number where
  | natural (n : Nat)
  /-- The integer `-(n + 1)`. -/
  | negative (n : Nat)
  | real (x : Binary64)
  deriving DecidableEq, Repr

structure Written where
  negative : Bool
  whole : List Char
  fraction : List Char
  exponent : Option (Bool × List Char)

def decimalValue (digits : List Char) : Nat :=
  digits.foldl (fun n c => 10 * n + (c.toNat - 0x30)) 0

def exponentPart? (text : List Char) : Option (Option (Bool × List Char)) :=
  let digits? (negative : Bool) (digits : List Char) : Option (Option (Bool × List Char)) :=
    if digits.isEmpty || !digits.all Char.isDigit then none else some (some (negative, digits))
  match text with
  | [] => some none
  | c :: rest =>
    if c = 'e' || c = 'E' then
      match rest with
      | '+' :: digits => digits? false digits
      | '-' :: digits => digits? true digits
      | digits => digits? false digits
    else none

/-- Takes a written number apart. The whole part has a digit and no needless zero in front; a point
has digits on both sides. -/
def written? (text : List Char) : Option Written :=
  let (negative, text) := match text with
    | '-' :: rest => (true, rest)
    | rest => (false, rest)
  let whole := text.takeWhile Char.isDigit
  if whole.isEmpty || (whole.head? = some '0' && whole.length ≠ 1) then none
  else
    match text.drop whole.length with
    | '.' :: rest =>
      let fraction := rest.takeWhile Char.isDigit
      if fraction.isEmpty then none
      else
        (exponentPart? (rest.drop fraction.length)).map fun e => ⟨negative, whole, fraction, e⟩
    | rest => (exponentPart? rest).map fun e => ⟨negative, whole, [], e⟩

def absorb (n : Nat) : List Char → Nat × List Char
  | [] => (n, [])
  | c :: rest =>
    let next := 10 * n + (c.toNat - 0x30)
    if next < Nat.pow 2 64 then absorb next rest else (n, c :: rest)

/-- The double of a written number: its first digits as far as they fit 64 bits, scaled by a power
of ten. None where it is too large. -/
def Written.real? (w : Written) : Option Binary64 :=
  let (n, wholeLeft) := absorb 0 w.whole
  let (n, fractionLeft) := absorb n w.fraction
  let shift : Int := wholeLeft.length - (w.fraction.length - fractionLeft.length : Nat)
  let exponent : Int := match w.exponent with
    | none => 0
    | some (true, digits) => -(decimalValue digits : Int)
    | some (false, digits) => decimalValue digits
  (Binary64.steppedDecimal? n (shift + exponent)).map (Binary64.signed w.negative)

def Written.number? (w : Written) : Option Number :=
  let n := decimalValue w.whole
  if w.fraction.isEmpty && w.exponent.isNone then
    if !w.negative && n < Nat.pow 2 64 then some (.natural n)
    else if w.negative && 0 < n && n ≤ Nat.pow 2 63 then some (.negative (n - 1))
    else w.real?.map .real
  else w.real?.map .real

def Number.read? (text : List Char) : Option Number :=
  (written? text).bind Written.number?

/-- Doubles are positional below `10 ^ 16` and down to `10 ^ (-5)`; a tie between two shortest
decimals goes to the even one. -/
def numberStyle : NumberStyle where
  tie := .toEven
  positional p := -5 < p && p ≤ 16
  plus := ['+']

def Number.format : Number → String
  | .natural n => toString n
  | .negative n => "-" ++ toString (n + 1)
  | .real x => numberStyle.format x

end SourcePages.Json
