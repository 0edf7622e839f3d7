import SourcePages.FileTree.Basic

namespace SourcePages.Node

mutual

/-- The changes that lead from an old node to a new one at some location, directories before what is
in them. Nothing is taken away. -/
def changes (location : Location) (old : Option Node) : Node → List (Location × Node)
  | .dir entries =>
    match old with
    | some (.dir before) => entryChanges location before entries
    | _ => (location, .dir []) :: entryChanges location [] entries
  | .file bytes =>
    match old with
    | some (.file before) => if before = bytes then [] else [(location, .file bytes)]
    | _ => [(location, .file bytes)]
  | .link _ => []

def entryChanges (location : Location) (before : List (String × Node)) :
    List (String × Node) → List (Location × Node)
  | [] => []
  | (name, node) :: rest =>
    changes (location ++ [name]) (before.lookup name) node ++ entryChanges location before rest

end

def graft (n new : Node) : Location → Node
  | [] => new
  | name :: rest =>
    let entries := match n with
      | .dir entries => entries
      | _ => []
    .dir (setEntry name (((entries.lookup name).getD (.dir [])).graft new rest) entries)

end SourcePages.Node
