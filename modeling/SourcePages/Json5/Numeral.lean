import SourcePages.Json.Escape
import SourcePages.Json.Number
import SourcePages.Json5.Fault

namespace SourcePages.Json5

def isHexDigit (c : Char) : Bool := (Json.hexDigit? c).isSome

def hexBody? : List Char → Option (List Char)
  | '0' :: 'x' :: digits => if digits.isEmpty then none else some digits
  | '0' :: 'X' :: digits => if digits.isEmpty then none else some digits
  | _ => none

def decimal? (text : List Char) : Option Json.Written :=
  let whole := text.takeWhile Char.isDigit
  if whole.head? = some '0' && whole.length ≠ 1 then none
  else
    match text.drop whole.length with
    | '.' :: rest =>
      let fraction := rest.takeWhile Char.isDigit
      if whole.isEmpty && fraction.isEmpty then none
      else (Json.exponentPart? (rest.drop fraction.length)).map (⟨false, whole, fraction, ·⟩)
    | rest =>
      if whole.isEmpty then none
      else (Json.exponentPart? rest).map (⟨false, whole, [], ·⟩)

def withoutSign : List Char → List Char
  | '+' :: rest => rest
  | '-' :: rest => rest
  | text => text

def isNumeral (text : List Char) : Bool :=
  let body := withoutSign text
  body = "Infinity".toList || body = "NaN".toList ||
    ((hexBody? body).map (·.all isHexDigit)).getD (decimal? body).isSome

inductive Numeral where
  | integer (i : Int)
  | real (x : Json.Real)
  deriving DecidableEq, Repr

def integerValue (text : List Char) : Except Fault Int :=
  let digits := withoutSign text
  if digits.isEmpty || !digits.all Char.isDigit then .error .badInteger
  else
    let n := Json.decimalValue digits
    if text.head? = some '-' then if n ≤ Nat.pow 2 63 then .ok (-n) else .error .badInteger
    else if n < Nat.pow 2 63 then .ok n else .error .badInteger

def realValue (text : List Char) : Except Fault Json.Real :=
  match decimal? (withoutSign text) with
  | none => .error .badNumber
  | some w =>
    let e : Int := match w.exponent with
      | none => 0
      | some (negative, digits) =>
        if negative then -(Json.decimalValue digits : Int) else Json.decimalValue digits
    match Binary64.nearestDecimal? (Json.decimalValue (w.whole ++ w.fraction))
        (e - w.fraction.length) with
    | none => .error .tooLarge
    | some m => .ok (.finite (Binary64.signed (text.head? = some '-') m))

def hexValue (digits : List Char) : Except Fault Int :=
  match Json.hexNumber? digits with
  | some n => if n < Nat.pow 2 32 then .ok n else .error .badHex
  | none => .error .badHex

/-- The value of a number. Only a number without a sign counts as hexadecimal, and a plus sign makes
an integer of what is none. -/
def Numeral.ofText (text : List Char) : Except Fault Numeral :=
  if text = "Infinity".toList then .ok (.real (.infinite false))
  else if text = "-Infinity".toList then .ok (.real (.infinite true))
  else if text = "NaN".toList || text = "-NaN".toList then .ok (.real .notANumber)
  else
    match hexBody? text with
    | some digits => (hexValue digits).map .integer
    | none =>
      if text.contains '.' || text.contains 'e' || text.contains 'E' then
        (realValue text).map .real
      else (integerValue text).map .integer

end SourcePages.Json5
