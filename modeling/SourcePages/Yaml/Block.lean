import SourcePages.Json.Value
import SourcePages.Yaml.Scalar

namespace SourcePages.Yaml

open Json (Value)

def numberStyle : NumberStyle :=
  { Json.numberStyle with plus := [] }

def leaf (indent : Nat) : Json.Scalar → List Char
  | .null => "null".toList
  | .bool b => (if b then "true" else "false").toList
  | .number (.real x) => (numberStyle.format x).toList
  | .number n => n.format.toList
  | .text s => scalar indent s.toList

def endLine (written : List Char) : List Char :=
  if (written.getLast?.map isBreak).getD false then written else written ++ ['\n']

mutual

def fieldValue (indent : Nat) : Value → List Char
  | .leaf x => ' ' :: endLine (leaf (indent + 2) x)
  | .array [] => " []\n".toList
  | .array items => '\n' :: sequence indent items
  | .object [] => " \x7b\x7d\n".toList
  | .object fields => '\n' :: mapping (indent + 2) fields

def sequence (indent : Nat) : List Value → List Char
  | [] => []
  | item :: rest =>
    List.replicate indent ' ' ++ '-' :: ' ' :: itemValue indent item ++ sequence indent rest

/-- What follows the dash of an item. Its first line has the dash for its indentation. -/
def itemValue (indent : Nat) : Value → List Char
  | .leaf x => endLine (leaf (indent + 2) x)
  | .array [] => "[]\n".toList
  | .array items => (sequence (indent + 2) items).drop (indent + 2)
  | .object [] => "\x7b\x7d\n".toList
  | .object fields => (mapping (indent + 2) fields).drop (indent + 2)

def mapping (indent : Nat) : List (String × Value) → List Char
  | [] => []
  | (key, value) :: rest =>
    List.replicate indent ' ' ++ key.toList ++ ':' :: fieldValue indent value ++
      mapping indent rest

end

def document : Value → String
  | .object [] => "\x7b\x7d\n"
  | .object fields => String.ofList (mapping 0 fields)
  | .array [] => "[]\n"
  | .array items => String.ofList (sequence 0 items)
  | .leaf x => String.ofList (endLine (leaf 0 x))

end SourcePages.Yaml
