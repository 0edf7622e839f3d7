import SourcePages.Json.Token
import SourcePages.Json.Tree

namespace SourcePages.Json

structure Grammar (κ α : Type) where
  lexicon : Lexicon
  key? : Atom → Option κ
  leaf? : Atom → Option α
  trailingComma : Bool

/-- An array or object around the place of reading, what it holds so far listed backwards. -/
inductive Frame (κ α : Type) where
  | array (items : List (Tree κ α))
  | field (fields : List (κ × Tree κ α)) (key : κ)

inductive Reading (κ α : Type) where
  | value (outer : List (Frame κ α)) (mayClose : Bool)
  | key (outer : List (Frame κ α)) (fields : List (κ × Tree κ α)) (mayClose : Bool)
  | colon (outer : List (Frame κ α)) (fields : List (κ × Tree κ α)) (key : κ)
  | complete (outer : List (Frame κ α)) (value : Tree κ α)

namespace Grammar

variable {κ α : Type}

def step (g : Grammar κ α) : Reading κ α → Token → Option (Reading κ α)
  | .value outer _, .openArray => some (.value (.array [] :: outer) true)
  | .value outer _, .openObject => some (.key outer [] true)
  | .value outer _, .atom a => (g.leaf? a).map fun x => .complete outer (.leaf x)
  | .value (.array items :: outer) true, .closeArray =>
    some (.complete outer (.array items.reverse))
  | .key outer fields _, .atom a => (g.key? a).map fun key => .colon outer fields key
  | .key outer fields true, .closeObject => some (.complete outer (.object fields.reverse))
  | .colon outer fields key, .colon => some (.value (.field fields key :: outer) false)
  | .complete (.array items :: outer) value, .comma =>
    some (.value (.array (value :: items) :: outer) g.trailingComma)
  | .complete (.array items :: outer) value, .closeArray =>
    some (.complete outer (.array (value :: items).reverse))
  | .complete (.field fields key :: outer) value, .comma =>
    some (.key outer ((key, value) :: fields) g.trailingComma)
  | .complete (.field fields key :: outer) value, .closeObject =>
    some (.complete outer (.object ((key, value) :: fields).reverse))
  | _, _ => none

def ofTokens? (g : Grammar κ α) (tokens : List Token) : Option (Tree κ α) :=
  match tokens.foldlM g.step (.value [] false) with
  | some (.complete [] value) => some value
  | _ => none

def read? (g : Grammar κ α) (text : String) : Option (Tree κ α) :=
  (g.lexicon.tokens? text.toList).bind g.ofTokens?

end Grammar

end SourcePages.Json
