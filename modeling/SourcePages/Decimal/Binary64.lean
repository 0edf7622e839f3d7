namespace SourcePages

/-- The number `±significand · 2 ^ exponent`. The sign of zero counts. -/
structure Binary64 where
  negative : Bool
  significand : Nat
  exponent : Int
  deriving DecidableEq, Repr

namespace Binary64

def roundHalfEven (num den : Nat) : Nat :=
  let q := num / den
  let r := num % den
  if 2 * r < den then q
  else if den < 2 * r then q + 1
  else q + q % 2

def precision : Nat := 53

def minExponent : Int := -1074

def maxExponent : Int := 971

def quotientExponent (num den : Nat) : Int :=
  let guess : Int := (num.log2 : Int) - den.log2 - (precision - 1)
  let full :=
    if num * Nat.pow 2 (-guess).toNat < den * Nat.pow 2 (guess.toNat + (precision - 1)) then
      guess - 1
    else guess
  max full minExponent

def roundQuotient? (num den : Nat) : Option (Nat × Int) :=
  if num = 0 then some (0, minExponent)
  else
    let e := quotientExponent num den
    let m := roundHalfEven (num * Nat.pow 2 (-e).toNat) (den * Nat.pow 2 e.toNat)
    let (m, e) := if m = Nat.pow 2 precision then (Nat.pow 2 (precision - 1), e + 1) else (m, e)
    if maxExponent < e then none else some (m, e)

def signed (negative : Bool) (magnitude : Nat × Int) : Binary64 :=
  ⟨negative, magnitude.1, magnitude.2⟩

def zero : Binary64 := ⟨false, 0, minExponent⟩

def roundScaled? (num den : Nat) (e : Int) : Option (Nat × Int) :=
  roundQuotient? (num * Nat.pow 2 e.toNat) (den * Nat.pow 2 (-e).toNat)

def mul? (a b : Nat × Int) : Option (Nat × Int) :=
  roundScaled? (a.1 * b.1) 1 (a.2 + b.2)

def div? (a b : Nat × Int) : Option (Nat × Int) :=
  roundScaled? a.1 b.1 (a.2 - b.2)

def powerOfTen? (k : Nat) : Option (Nat × Int) :=
  roundQuotient? (Nat.pow 10 k) 1

def ofInt? (i : Int) : Option Binary64 :=
  (roundQuotient? i.natAbs 1).map (signed (i < 0))

def nearestDecimal? (digits : Nat) (k : Int) : Option (Nat × Int) :=
  let width : Int := (Nat.toDigits 10 digits).length
  if digits = 0 || width + k < -400 then some (0, minExponent)
  else if 400 < width + k then none
  else roundQuotient? (digits * Nat.pow 10 k.toNat) (Nat.pow 10 (-k).toNat)

/-- The magnitude of `digits · 10 ^ k` in steps that are each rounded: the digits first, then a
multiplication or division by a power of ten, and below `10 ^ (-308)` a division by `10 ^ 308`
before that. -/
def steppedDecimal? (digits : Nat) (k : Int) : Option (Nat × Int) := do
  let start ← roundQuotient? digits 1
  if start.1 = 0 then pure start
  else if 308 < k then none
  else if 0 ≤ k then mul? start (← powerOfTen? k.toNat)
  else if -308 ≤ k then div? start (← powerOfTen? (-k).toNat)
  else
    let step ← div? start (← powerOfTen? 308)
    if -616 ≤ k then div? step (← powerOfTen? (-k - 308).toNat)
    else pure (0, minExponent)

end Binary64

end SourcePages
