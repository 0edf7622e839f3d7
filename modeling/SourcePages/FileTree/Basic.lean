namespace SourcePages

inductive Node where
  | file (bytes : List UInt8)
  | link (target : String)
  | dir (entries : List (String × Node))

abbrev Location : Type := List String

def setEntry (name : String) (node : Node) : List (String × Node) → List (String × Node)
  | [] => [(name, node)]
  | (other, old) :: rest =>
    if other = name then (name, node) :: rest else (other, old) :: setEntry name node rest

namespace Node

def child? : Node → String → Option Node
  | .dir entries, name => entries.lookup name
  | _, _ => none

def at? (n : Node) : Location → Option Node
  | [] => some n
  | name :: rest => (n.child? name).bind fun child => child.at? rest

/-- The tree with another node at a location. Nothing changes where there is no directory to hold
it. -/
def put (n : Node) (new : Node) : Location → Node
  | [] => new
  | name :: rest =>
    match n with
    | .dir entries =>
      match entries.lookup name with
      | some child => .dir (setEntry name (child.put new rest) entries)
      | none => if rest = [] then .dir (setEntry name new entries) else n
    | _ => n

def erase (n : Node) : Location → Node
  | [] => n
  | [name] =>
    match n with
    | .dir entries => .dir (entries.filter (·.1 ≠ name))
    | _ => n
  | name :: rest =>
    match n with
    | .dir entries =>
      match entries.lookup name with
      | some child => .dir (setEntry name (child.erase rest) entries)
      | none => n
    | _ => n

def isDir : Node → Bool
  | .dir _ => true
  | _ => false

end Node

structure FileTree where
  top : Node
  workingDir : Location

end SourcePages
