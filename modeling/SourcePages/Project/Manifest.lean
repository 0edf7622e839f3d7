import SourcePages.FileTree.Operations
import SourcePages.Json5.Record
import SourcePages.Page
import SourcePages.Project.Fault

namespace SourcePages

def parseManifest {α : Type} (path : Path) (decode : Json5.Value → Except Json5.Fault α)
    (text : String) : Except ConfigFault α :=
  match Json5.Value.read? text with
  | none => .error (.parse path .malformed)
  | some v =>
    match decode v with
    | .ok a => .ok a
    | .error fault => .error (.parse path fault)

def readManifest {α : Type} (t : FileTree) (path : Path)
    (decode : Json5.Value → Except Json5.Fault α) : Except ConfigFault α :=
  match t.readText path with
  | .ok text => parseManifest path decode text
  | .error fault => .error (.read path fault)

def decodeIncludes (v : Json5.Value) : Except Json5.Fault (List String) := do
  let fields ← Json5.record "struct ProjectConfig" ["include"] Json5.textList v
  return (fields.lookup "include").getD []

structure Package where
  name : Option String
  homepage : Option String
  deriving DecidableEq, Repr

def Package.decode (v : Json5.Value) : Except Json5.Fault Package := do
  let fields ← Json5.record "struct PackageMetadata" ["name", "homepage"] Json5.optionalText v
  return ⟨(fields.lookup "name").getD none, (fields.lookup "homepage").getD none⟩

def readIncludes (t : FileTree) (path : Path) : Except ConfigFault (List String) :=
  readManifest t path decodeIncludes

def readPackage (t : FileTree) (path : Path) : Except ConfigFault Package :=
  readManifest t path Package.decode

def Package.repository (p : Package) (path : Path) : Except ConfigFault Repository :=
  match p.homepage with
  | some homepage => .ok (Repository.ofHomepage homepage p.name)
  | none => .error (.missingHomepage path)

end SourcePages
