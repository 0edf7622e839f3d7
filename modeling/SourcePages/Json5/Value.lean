import SourcePages.Json.Grammar
import SourcePages.Json5.Numeral
import SourcePages.Json5.Text

/-!
Relaxed JSON: comments, bare keys, single quotes, trailing commas and more ways to write numbers. A
text is checked as a whole when it is read; what its texts and numbers are worth is found out later,
from front to back.
-/

namespace SourcePages.Json5

inductive Leaf where
  | null
  | bool (b : Bool)
  | numeral (text : List Char)
  | text (parts : List Part)
  deriving DecidableEq, Repr

abbrev Value : Type := Json.Tree (List Part) Leaf

def isBlank (c : Char) : Bool :=
  let n := c.toNat
  c = '\t' || c = '\x0b' || c = '\x0c' || c = ' ' || n == 0xA0 || n == 0xFEFF || n == 0x1680 ||
    (0x2000 ≤ n && n ≤ 0x200A) || n == 0x202F || n == 0x205F || n == 0x3000 || isLineEnd c

def key? : Json.Atom → Option (List Part)
  | .bare word => identifierParts? true word
  | .quoted _ body => textParts? body

def leaf? : Json.Atom → Option Leaf
  | .bare word =>
    if word = "null".toList then some .null
    else if word = "true".toList then some (.bool true)
    else if word = "false".toList then some (.bool false)
    else if isNumeral word then some (.numeral word)
    else none
  | .quoted _ body => (textParts? body).map .text

def grammar : Json.Grammar (List Part) Leaf where
  lexicon := {
    isBlank := isBlank
    isMark := fun c => c = '"' || c = '\''
    comments := true
    endsLine := isLineEnd }
  key? := key?
  leaf? := leaf?
  trailingComma := true

def Value.read? (text : String) : Option Value := grammar.read? text

def partsText (parts : List Part) : Except Fault String :=
  (joinParts parts).map String.ofList

def Leaf.found : Leaf → Except Fault Json.Found
  | .null => .ok .null
  | .bool b => .ok (.bool b)
  | .numeral word => do
    match ← Numeral.ofText word with
    | .integer i => return .integer i
    | .real x => return .real x
  | .text parts => (partsText parts).map .text

mutual

def Value.check : Value → Except Fault Unit
  | .leaf x => do
    let _ ← x.found
  | .array items => checkItems items
  | .object fields => checkFields fields

def checkItems : List Value → Except Fault Unit
  | [] => .ok ()
  | item :: rest => do
    Value.check item
    checkItems rest

def checkFields : List (List Part × Value) → Except Fault Unit
  | [] => .ok ()
  | (key, value) :: rest => do
    let _ ← partsText key
    Value.check value
    checkFields rest

end

def Value.found : Value → Except Fault Json.Found
  | .leaf x => x.found
  | .array _ => .ok .sequence
  | .object _ => .ok .map

def unlike {α : Type} (wanted : String) (v : Value) : Except Fault α := do
  throw (.mismatch (.wrongType (← Value.found v) wanted))

def optionalText : Value → Except Fault (Option String)
  | .leaf .null => .ok none
  | .leaf (.text parts) => (partsText parts).map some
  | v => unlike "a string" v

def text? : Value → Except Fault (Option String)
  | .leaf (.text parts) => (partsText parts).map some
  | _ => .ok none

/-- One text or a list of texts, null being the empty list. The value is checked as a whole before
its kind counts. -/
def textList (v : Value) : Except Fault (List String) := do
  Value.check v
  match v with
  | .leaf .null => return []
  | .leaf (.text parts) => return [← partsText parts]
  | .array items =>
    match (← items.mapM text?).mapM id with
    | some texts => return texts
    | none => throw .noPatterns
  | _ => throw .noPatterns

end SourcePages.Json5
