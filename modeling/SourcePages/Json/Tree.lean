namespace SourcePages.Json

inductive Tree (κ α : Type) where
  | leaf (value : α)
  | array (items : List (Tree κ α))
  | object (fields : List (κ × Tree κ α))

end SourcePages.Json
