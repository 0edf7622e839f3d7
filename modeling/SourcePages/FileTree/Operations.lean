import SourcePages.FileTree.Resolve
import SourcePages.Text.Utf8

/-!
Reading and changing a tree. An operation that is refused leaves the tree as it was, but for the
creation of several directories, which keeps those it has made.
-/

namespace SourcePages

def Location.path (location : Location) : Path :=
  ⟨String.ofList ('/' :: Text.join ['/'] (location.map String.toList))⟩

namespace FileTree

def node? (t : FileTree) (p : Path) : Except IoFault (Location × Node) :=
  match t.resolve true p with
  | .ok (.node location n) => .ok (location, n)
  | .ok (.vacant _ _ _) => .error .notFound
  | .error e => .error e

def has (t : FileTree) (p : Path) : Bool :=
  match t.node? p with
  | .ok _ => true
  | .error _ => false

def hasDirectory (t : FileTree) (p : Path) : Bool :=
  match t.node? p with
  | .ok (_, n) => n.isDir
  | .error _ => false

def read (t : FileTree) (p : Path) : Except IoFault (List UInt8) :=
  match t.node? p with
  | .ok (_, .file bytes) => .ok bytes
  | .ok (_, _) => .error .isDirectory
  | .error e => .error e

def readText (t : FileTree) (p : Path) : Except IoFault String :=
  match t.read p with
  | .error e => .error e
  | .ok bytes =>
    match Text.decode? bytes with
    | some text => .ok (String.ofList text)
    | none => .error .notText

def put (t : FileTree) (location : Location) (n : Node) : FileTree :=
  { t with top := t.top.put n location }

/-- Writes a file in place of an old one or as a new one. A link at the end of the path is
followed. -/
def write (t : FileTree) (p : Path) (bytes : List UInt8) : Except IoFault FileTree :=
  match t.resolve true p with
  | .ok (.node _ (.dir _)) => .error .isDirectory
  | .ok (.node location _) => .ok (t.put location (.file bytes))
  | .ok (.vacant directory name wantsDirectory) =>
    if wantsDirectory then .error .isDirectory
    else .ok (t.put (directory ++ [name]) (.file bytes))
  | .error e => .error e

def endsInDots (p : Path) : Bool :=
  match ((Text.segments p.text).filter (· ≠ "")).getLast? with
  | some s => s = "." || s = ".."
  | none => true

def makeDirectory (t : FileTree) (p : Path) : Except IoFault FileTree :=
  if p.text = "" then .error .notFound
  else if endsInDots p then
    match t.node? p with
    | .ok _ => .error .exists
    | .error e => .error e
  else
    match walk t.top false linkLimit (if p.isAbsolute then [] else t.workingDir) false p.steps with
    | .ok (.node _ _) => .error .exists
    | .ok (.vacant directory name _) => .ok (t.put (directory ++ [name]) (.dir []))
    | .error e => .error e

def chain : Nat → Path → List Path
  | 0, _ => []
  | n + 1, p =>
    p :: match p.parent? with
      | some parent => chain n parent
      | none => []

def makeChain (t : FileTree) : List Path → FileTree × Except IoFault Unit
  | [] => (t, .error .notFound)
  | p :: above =>
    let settle (t : FileTree) (e : IoFault) : FileTree × Except IoFault Unit :=
      (t, if t.hasDirectory p then .ok () else .error e)
    if p.components.isEmpty then (t, .ok ())
    else
      match t.makeDirectory p with
      | .ok t => (t, .ok ())
      | .error .notFound =>
        match t.makeChain above with
        | (t, .error e) => (t, .error e)
        | (t, .ok ()) =>
          match t.makeDirectory p with
          | .ok t => (t, .ok ())
          | .error e => settle t e
      | .error e => settle t e

/-- Makes a directory together with those above it, unless it is there. A path has at most as many
others above it as it has components. -/
def makeDirectories (t : FileTree) (p : Path) : FileTree × Except IoFault Unit :=
  t.makeChain (chain (p.components.length + 1) p)

def canonical (t : FileTree) (p : Path) : Except IoFault Path :=
  (t.node? p).map fun (location, _) => location.path

end FileTree

end SourcePages
