import SourcePages.Json.Escape
import SourcePages.Json5.Fault
import SourcePages.Text.Letters

namespace SourcePages.Json5

def isLineEnd (c : Char) : Bool :=
  c = '\n' || c = '\r' || c = '\u2028' || c = '\u2029'

inductive Part where
  | char (c : Char) (written : List Char)
  | unit (n : Nat)
  deriving DecidableEq, Repr

def escaped (c : Char) : Char :=
  match c with
  | 'b' => '\x08'
  | 'f' => '\x0c'
  | 'n' => '\n'
  | 'r' => '\r'
  | 't' => '\t'
  | 'v' => '\x0b'
  | c => c

def textParts? : List Char → Option (List Part)
  | [] => some []
  | '\\' :: '\r' :: '\n' :: rest => textParts? rest
  | '\\' :: 'u' :: a :: b :: c :: d :: rest => do
    let n ← Json.hexNumber? [a, b, c, d]
    return .unit n :: (← textParts? rest)
  | '\\' :: 'x' :: a :: b :: rest => do
    let n ← Json.hexNumber? [a, b]
    return .char (Char.ofNat n) [a, b] :: (← textParts? rest)
  | '\\' :: c :: rest =>
    if isLineEnd c then textParts? rest
    else if c = '0' then (textParts? rest).map (.char '\x00' ['0'] :: ·)
    else if c.isDigit || c = 'x' || c = 'u' then none
    else (textParts? rest).map (.char (escaped c) [c] :: ·)
  | c :: rest =>
    if c = '\\' || isLineEnd c then none
    else (textParts? rest).map (.char c [c] :: ·)

def beginsIdentifier (c : Char) : Bool :=
  c = '$' || c = '_' || Text.letters.contains c

def continuesIdentifier (c : Char) : Bool :=
  beginsIdentifier c || Text.letterAttachments.contains c || c = '\u200C' || c = '\u200D'

def identifierParts? (first : Bool) : List Char → Option (List Part)
  | [] => if first then none else some []
  | '\\' :: 'u' :: a :: b :: c :: d :: rest => do
    let n ← Json.hexNumber? [a, b, c, d]
    return .unit n :: (← identifierParts? false rest)
  | c :: rest =>
    if (if first then beginsIdentifier c else continuesIdentifier c) then
      (identifierParts? false rest).map (.char c [c] :: ·)
    else none

/-- The text of some parts. Two units that make a pair are put together by their bits, without the
carry from the second into the first. -/
def joinParts : List Part → Except Fault (List Char)
  | [] => .ok []
  | .char c _ :: rest => (joinParts rest).map (c :: ·)
  | .unit n :: rest =>
    if Json.isLowSurrogate n then .error .trailAlone
    else if Json.isHighSurrogate n then
      match rest with
      | [] => .error .trailMissing
      | .char _ written :: _ =>
        .error (if (Json.hexNumber? written).isSome then .trailWanted else .badHex)
      | .unit m :: tail =>
        if Json.isLowSurrogate m then
          (joinParts tail).map
            (Char.ofNat (((n - 0xD800) <<< 10) ||| (m - 0xDC00 + 0x10000)) :: ·)
        else .error .trailWanted
    else (joinParts rest).map (Char.ofNat n :: ·)

end SourcePages.Json5
