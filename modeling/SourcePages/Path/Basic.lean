import SourcePages.Text.Split

/-!
Paths as they are spelled. Nothing is looked up and nothing is tidied; two spellings name the same
place if they have the same components.
-/

namespace SourcePages

structure Path where
  text : String
  deriving DecidableEq, Repr

/-- Which paths are texts. One that is not is kept as it is shown, with marks for what is no text. -/
class Path.Encoding where
  isText : Path → Bool

/-- Where nothing else is said, all paths are texts. -/
instance (priority := low) Path.Encoding.total : Path.Encoding where
  isText _ := true

inductive Component where
  | root
  /-- A dot at the front; other dots name nothing. -/
  | current
  | parent
  | normal (name : String)
  deriving DecidableEq, Repr

namespace Path

def isAbsolute (p : Path) : Bool :=
  p.text.toList.head? == some '/'

def join (p q : Path) : Path :=
  if q.isAbsolute then q
  else if p.text = "" || p.text.toList.getLast? = some '/' then ⟨p.text ++ q.text⟩
  else ⟨p.text ++ "/" ++ q.text⟩

/-- The part at the front that is no name: the root, or a dot that is a segment of its own. -/
def anchor (p : Path) : List Char :=
  match p.text.toList with
  | '/' :: _ => ['/']
  | ['.'] => ['.']
  | '.' :: '/' :: _ => ['.']
  | _ => []

def body (p : Path) : List (List Char) :=
  Text.split '/' (p.text.toList.drop p.anchor.length)

def isIdle (segment : List Char) : Bool :=
  segment = [] || segment = ['.']

def anchorComponents (p : Path) : List Component :=
  match p.anchor with
  | ['/'] => [.root]
  | ['.'] => [.current]
  | _ => []

def segmentComponent (segment : List Char) : Component :=
  if segment = ['.', '.'] then .parent else .normal (String.ofList segment)

def components (p : Path) : List Component :=
  p.anchorComponents ++ (p.body.filter (!isIdle ·)).map segmentComponent

def same (p q : Path) : Bool :=
  p.components == q.components

def dropEndWhile {α : Type} (test : α → Bool) (items : List α) : List α :=
  (items.reverse.dropWhile test).reverse

def withBody (p : Path) (body : List (List Char)) : Path :=
  ⟨String.ofList (p.anchor ++ Text.join ['/'] body)⟩

def parent? (p : Path) : Option Path :=
  match (dropEndWhile isIdle p.body).reverse with
  | _ :: before => some (p.withBody (dropEndWhile isIdle before.reverse))
  | [] => if p.anchor = ['.'] then some ⟨""⟩ else none

def fileName? (p : Path) : Option String :=
  match p.components.getLast? with
  | some (.normal name) => some name
  | _ => none

def names (p : Path) : List String :=
  p.components.filterMap fun
    | .normal name => some name
    | _ => none

end Path

end SourcePages
