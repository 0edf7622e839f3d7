import SourcePages.Json.Escape
import SourcePages.Json.Grammar
import SourcePages.Json.Number

namespace SourcePages.Json

inductive Scalar where
  | null
  | bool (b : Bool)
  | number (n : Number)
  | text (s : String)
  deriving DecidableEq, Repr

abbrev Value : Type := Tree String Scalar

namespace Value

def null : Value := .leaf .null

def bool (b : Bool) : Value := .leaf (.bool b)

def text (s : String) : Value := .leaf (.text s)

def natural (n : Nat) : Value := .leaf (.number (.natural n))

def real (x : Binary64) : Value := .leaf (.number (.real x))

def texts (ss : List String) : Value := .array (ss.map text)

end Value

def quotedText? : Atom → Option String
  | .quoted '"' body => (unescape? body).map String.ofList
  | _ => none

def scalar? : Atom → Option Scalar
  | .bare word =>
    if word = "null".toList then some .null
    else if word = "true".toList then some (.bool true)
    else if word = "false".toList then some (.bool false)
    else (Number.read? word).map .number
  | atom => (quotedText? atom).map .text

def grammar : Grammar String Scalar where
  lexicon := {
    isBlank := fun c => c = ' ' || c = '\t' || c = '\n' || c = '\r'
    isMark := (· = '"')
    comments := false
    endsLine := fun _ => false }
  key? := quotedText?
  leaf? := scalar?
  trailingComma := false

def insertField (field : String × Value) : List (String × Value) → List (String × Value)
  | [] => [field]
  | other :: rest =>
    if field.1 < other.1 then field :: other :: rest
    else if field.1 = other.1 then field :: rest
    else other :: insertField field rest

mutual

/-- The value with the fields of each object ordered by key; of fields with one key the last
stays. -/
def Value.ordered : Value → Value
  | .leaf x => .leaf x
  | .array items => .array (orderedItems items)
  | .object fields => .object (orderedFields fields [])

def orderedItems : List Value → List Value
  | [] => []
  | item :: rest => Value.ordered item :: orderedItems rest

def orderedFields : List (String × Value) → List (String × Value) → List (String × Value)
  | [], done => done
  | (key, value) :: rest, done => orderedFields rest (insertField (key, Value.ordered value) done)

end

def Value.read? (text : String) : Option Value :=
  (grammar.read? text).map Value.ordered

def quote (text : String) : List Char :=
  '"' :: escape text.toList ++ ['"']

def Scalar.format : Scalar → List Char
  | .null => "null".toList
  | .bool true => "true".toList
  | .bool false => "false".toList
  | .number n => n.format.toList
  | .text s => quote s

mutual

def Value.compactChars : Value → List Char
  | .leaf x => x.format
  | .array items => '[' :: compactItems items ++ [']']
  | .object fields => '\x7b' :: compactFields fields ++ ['\x7d']

def compactItems : List Value → List Char
  | [] => []
  | [item] => Value.compactChars item
  | item :: rest => Value.compactChars item ++ ',' :: compactItems rest

def compactFields : List (String × Value) → List Char
  | [] => []
  | [(key, value)] => quote key ++ ':' :: Value.compactChars value
  | (key, value) :: rest =>
    quote key ++ ':' :: Value.compactChars value ++ ',' :: compactFields rest

end

def newLine (level : Nat) : List Char :=
  '\n' :: List.replicate (2 * level) ' '

mutual

def Value.prettyChars (level : Nat) : Value → List Char
  | .leaf x => x.format
  | .array [] => ['[', ']']
  | .array items => '[' :: prettyItems (level + 1) items ++ newLine level ++ [']']
  | .object [] => ['\x7b', '\x7d']
  | .object fields => '\x7b' :: prettyFields (level + 1) fields ++ newLine level ++ ['\x7d']

def prettyItems (level : Nat) : List Value → List Char
  | [] => []
  | [item] => newLine level ++ Value.prettyChars level item
  | item :: rest =>
    newLine level ++ Value.prettyChars level item ++ ',' :: prettyItems level rest

def prettyFields (level : Nat) : List (String × Value) → List Char
  | [] => []
  | [(key, value)] => newLine level ++ quote key ++ ':' :: ' ' :: Value.prettyChars level value
  | (key, value) :: rest =>
    newLine level ++ quote key ++ ':' :: ' ' :: Value.prettyChars level value ++
      ',' :: prettyFields level rest

end

def Value.compact (value : Value) : String := String.ofList (Value.compactChars value)

def Value.pretty (value : Value) : String := String.ofList (Value.prettyChars 0 value)

end SourcePages.Json
