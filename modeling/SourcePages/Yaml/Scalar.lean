import SourcePages.Decimal.Binary64

/-!
Texts as YAML scalars. A text is written plainly where that reads back as the same text; otherwise
in single quotes, as a literal block, or with escapes in double quotes.
-/

namespace SourcePages.Yaml

def isBreak (c : Char) : Bool :=
  c = '\n' || c = '\r' || c = '\x85' || c = '\u2028' || c = '\u2029'

def isBlank (c : Char) : Bool :=
  c = ' ' || c = '\t' || isBreak c

def isPrintable (c : Char) : Bool :=
  let n := c.toNat
  n == 0x0A || (0x20 ≤ n && n ≤ 0x7E) ||
    (0xA0 ≤ n && n != 0xFEFF && n != 0xFFFE && n != 0xFFFF)

def hasPair (first second : Char → Bool) : List Char → Bool
  | a :: b :: rest => (first a && second b) || hasPair first second (b :: rest)
  | _ => false

def withoutSign : List Char → List Char
  | '+' :: rest => rest
  | '-' :: rest => rest
  | text => text

def isPaddedInteger (text : List Char) : Bool :=
  match withoutSign text with
  | '0' :: rest => !rest.isEmpty && rest.all Char.isDigit
  | _ => false

def isDigitOf (radix : Nat) (c : Char) : Bool :=
  let n := c.toNat
  (0x30 ≤ n && n ≤ 0x39 && n - 0x30 < radix) ||
    (radix == 16 && ((0x41 ≤ n && n ≤ 0x46) || (0x61 ≤ n && n ≤ 0x66)))

def digitValue (c : Char) : Nat :=
  let n := c.toNat
  if n ≤ 0x39 then n - 0x30 else if n ≤ 0x46 then n - 0x37 else n - 0x57

def radixValue? (radix : Nat) (digits : List Char) : Option Nat :=
  if digits.isEmpty || !digits.all (isDigitOf radix) then none
  else some (digits.foldl (fun n c => radix * n + digitValue c) 0)

def magnitude? (text : List Char) : Option Nat :=
  match text with
  | '0' :: 'x' :: digits => radixValue? 16 digits
  | '0' :: 'o' :: digits => radixValue? 8 digits
  | '0' :: 'b' :: digits => radixValue? 2 digits
  | digits => radixValue? 10 digits

def isInteger (text : List Char) : Bool :=
  if isPaddedInteger text then false
  else
    let (negative, rest) := match text with
      | '-' :: rest => (true, rest)
      | '+' :: rest => (false, rest)
      | rest => (false, rest)
    match magnitude? rest with
    | some n => if negative then n ≤ Nat.pow 2 127 else n < Nat.pow 2 128
    | none => false

def exponent? (text : List Char) : Option Int :=
  match text with
  | [] => some 0
  | c :: rest =>
    if c = 'e' || c = 'E' then
      match rest with
      | '-' :: digits => (radixValue? 10 digits).map fun n => -(n : Int)
      | '+' :: digits => (radixValue? 10 digits).map Int.ofNat
      | digits => (radixValue? 10 digits).map Int.ofNat
    else none

def isDecimal (text : List Char) : Bool :=
  let whole := text.takeWhile Char.isDigit
  let rest := text.drop whole.length
  let (fraction, rest) := match rest with
    | '.' :: tail => (tail.takeWhile Char.isDigit, tail.dropWhile Char.isDigit)
    | rest => ([], rest)
  match radixValue? 10 (whole ++ fraction), exponent? rest with
  | some n, some e => (Binary64.nearestDecimal? n (e - fraction.length)).isSome
  | _, _ => false

def isReal (text : List Char) : Bool :=
  let unsigned := withoutSign text
  [".inf".toList, ".Inf".toList, ".INF".toList].contains unsigned ||
    [".nan".toList, ".NaN".toList, ".NAN".toList].contains text ||
    isDecimal unsigned

/-- Whether a text reads as something else than a text when it is written plainly. -/
def isAmbiguous (text : List Char) : Bool :=
  ["", "~", "null", "Null", "NULL", "true", "True", "TRUE", "false", "False", "FALSE"].contains
      (String.ofList text) ||
    isInteger text || isPaddedInteger text || isReal text

def beginsWithIndicator (text : List Char) : Bool :=
  match text with
  | [] => false
  | c :: rest =>
    "---".toList.isPrefixOf text || "...".toList.isPrefixOf text ||
      "#,[]\x7b\x7d&*!|>'\"%@`".toList.contains c ||
      ((c = '?' || c = ':' || c = '-') && (rest.head?.map isBlank).getD true)

def hasIndicator (text : List Char) : Bool :=
  hasPair (· = ':') isBlank text || text.getLast? == some ':' || hasPair isBlank (· = '#') text

def allowsPlain (text : List Char) : Bool :=
  !beginsWithIndicator text && !hasIndicator text && text.head? != some ' ' &&
    text.getLast? != some ' ' && text.all (fun c => isPrintable c && !isBreak c)

def allowsSingle (text : List Char) : Bool :=
  !hasPair isBreak (· = ' ') text && !hasPair (· = ' ') isBreak text && text.all isPrintable

def allowsLiteral (text : List Char) : Bool :=
  text.getLast? != some ' ' && !hasPair (· = ' ') isBreak text && text.all isPrintable

inductive Style where
  | plain
  | single
  | double
  | literal
  deriving DecidableEq, Repr

def styleOf (text : List Char) : Style :=
  if text.contains '\n' then
    if allowsLiteral text then .literal else .double
  else if !isAmbiguous text && allowsPlain text then .plain
  else if allowsSingle text then .single
  else .double

def hexadecimal (width n : Nat) : List Char :=
  let digits := (Nat.toDigits 16 n).map Char.toUpper
  List.replicate (width - digits.length) '0' ++ digits

def doubleChar (c : Char) : List Char :=
  if isPrintable c && !isBreak c && c ≠ '"' && c ≠ '\\' then [c]
  else
    '\\' :: match c with
    | '\x00' => ['0']
    | '\x07' => ['a']
    | '\x08' => ['b']
    | '\t' => ['t']
    | '\n' => ['n']
    | '\x0b' => ['v']
    | '\x0c' => ['f']
    | '\r' => ['r']
    | '\x1b' => ['e']
    | '"' => ['"']
    | '\\' => ['\\']
    | '\x85' => ['N']
    | '\u2028' => ['L']
    | '\u2029' => ['P']
    | c =>
      let n := c.toNat
      if n ≤ 0xFF then 'x' :: hexadecimal 2 n
      else if n ≤ 0xFFFF then 'u' :: hexadecimal 4 n
      else 'U' :: hexadecimal 8 n

def indentFrom (indent : List Char) (write : Char → List Char) : Bool → List Char → List Char
  | _, [] => []
  | fresh, c :: rest =>
    if isBreak c then c :: indentFrom indent write true rest
    else (if fresh then indent else []) ++ write c ++ indentFrom indent write false rest

def single (indent : List Char) (text : List Char) : List Char :=
  let double c := if c = '\'' then ['\'', '\''] else [c]
  let tail := if (text.getLast?.map isBreak).getD false then indent else []
  '\'' :: indentFrom indent double false text ++ tail ++ ['\'']

/-- The mark in front of a literal block: an indentation hint if the text begins with a blank, and
what becomes of breaks at its end. -/
def literalMark (text : List Char) : List Char :=
  let hint := match text with
    | c :: _ => if c = ' ' || isBreak c then ['2'] else []
    | [] => []
  let ends := match text.reverse with
    | [] => ['-']
    | [c] => if isBreak c then ['+'] else ['-']
    | c :: d :: _ => if !isBreak c then ['-'] else if isBreak d then ['+'] else []
  '|' :: hint ++ ends

def scalar (indent : Nat) (text : List Char) : List Char :=
  let blanks := List.replicate indent ' '
  match styleOf text with
  | .plain => text
  | .single => single blanks text
  | .double => '"' :: text.flatMap doubleChar ++ ['"']
  | .literal => literalMark text ++ '\n' :: indentFrom blanks (fun c => [c]) true text

end SourcePages.Yaml
