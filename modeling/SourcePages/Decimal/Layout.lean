import SourcePages.Decimal.Shortest

namespace SourcePages

structure NumberStyle where
  tie : Decimal.Tie
  /-- The positions of the point at which the digits are written out. Position zero is in front of
  the first digit. -/
  positional : Int → Bool
  plus : List Char

namespace NumberStyle

def significantDigits (d : Decimal) : List Char :=
  ((Nat.toDigits 10 d.digits).reverse.dropWhile (· = '0')).reverse

def withPoint (digits : List Char) (position : Int) : List Char :=
  let width : Int := digits.length
  if position ≤ 0 then "0.".toList ++ List.replicate (-position).toNat '0' ++ digits
  else if width ≤ position then
    digits ++ List.replicate (position - width).toNat '0' ++ ".0".toList
  else digits.take position.toNat ++ '.' :: digits.drop position.toNat

def withExponent (plus digits : List Char) (position : Int) : List Char :=
  let fraction := match digits.drop 1 with
    | [] => []
    | rest => '.' :: rest
  let e := position - 1
  digits.take 1 ++ fraction ++ 'e' :: (if e < 0 then ['-'] else plus) ++
    (toString e.natAbs).toList

def format (style : NumberStyle) (x : Binary64) : String :=
  let magnitude :=
    if x.significand = 0 then "0.0".toList
    else
      let d := Decimal.shortest style.tie x.significand x.exponent
      let position := ((Nat.toDigits 10 d.digits).length : Int) + d.exponent
      if style.positional position then withPoint (significantDigits d) position
      else withExponent style.plus (significantDigits d) position
  String.ofList (if x.negative then '-' :: magnitude else magnitude)

end NumberStyle

def Binary64.toTwoPlaces (x : Binary64) : String :=
  let h := Decimal.hundredths x.significand x.exponent
  let places := (toString (h % 100)).toList
  let magnitude := (toString (h / 100)).toList ++ '.' ::
    (List.replicate (2 - places.length) '0' ++ places)
  String.ofList (if x.negative then '-' :: magnitude else magnitude)

end SourcePages
