import SourcePages.Command.Run
import SourcePages.FileTree.Changes
import Std.Time.DateTime.Timestamp

/-!
The command on a real disk. The parts of the disk that a run may look at are read into a tree, the
run is carried out on the tree, and what it adds is written back.
-/

namespace SourcePages.Disk

def locate? (path : String) : IO (Option Location) := do
  try
    let real ← IO.FS.realPath path
    return some (Path.mk real.toString).names
  catch _ => return none

/-- Reads what is at a path. Files are read only where that is wanted, and links are not followed
but point to where they lead in the end. -/
partial def load (wanted : String → Bool) (path : String) : IO Node := do
  let place := (← IO.currentDir) / path
  match (← place.symlinkMetadata).type with
  | .dir =>
    let mut entries : List (String × Node) := []
    for e in ← place.readDir do
      try
        let node ← load wanted (path ++ "/" ++ e.fileName)
        entries := entries ++ [(e.fileName, node)]
      catch _ => continue
    return .dir entries
  | .symlink =>
    match ← locate? path with
    | some location => return .link (Location.path location).text
    | none => return .link "missing"
  | _ =>
    if wanted path then return .file (← IO.FS.readBinFile path).toList
    else return .file []

def graftPath (wanted : String → Bool) (top : Node) (path : String) : IO Node := do
  match ← locate? path with
  | none => return top
  | some location =>
    return top.graft (← load wanted (Location.path location).text) location

def graftLinks (top : Node) (path : Path) : IO Node := do
  let mut top := top
  for p in (FileTree.chain (path.components.length + 1) path).reverse do
    match p.fileName? with
    | none => continue
    | some name =>
      let above := (p.parent?.map (·.text)).getD ""
      match ← locate? (if above = "" then "." else above) with
      | none => continue
      | some location =>
        try
          let place := (← IO.currentDir) / p.text
          if (← place.symlinkMetadata).type == .symlink then
            top := top.graft (← load (fun _ => false) p.text) (location ++ [name])
        catch _ => continue
  return top

def loadTree (c : Config) : IO FileTree := do
  let wanted (path : String) : Bool :=
    [some ".gitignore", c.projectFile.fileName?, c.packageFile.fileName?].contains
      (Path.mk path).fileName?
  let mut top : Node := .dir []
  let paths := [c.root, c.outputRoot, c.resolve c.projectFile, c.resolve c.packageFile]
  for p in paths do
    for q in FileTree.chain (p.components.length + 1) p do
      if let some location ← locate? q.text then
        top := top.graft ((top.at? location).getD (.dir [])) location
  for p in paths do
    top ← graftPath wanted top p.text
  for p in paths do
    top ← graftLinks top p
  let here ← locate? "."
  return ⟨top, here.getD []⟩

def fill (t : FileTree) (paths : List String) : IO FileTree := do
  let mut top := t.top
  for path in paths do
    try
      if let some location ← locate? path then
        let bytes ← IO.FS.readBinFile path
        top := top.graft (.file bytes.toList) location
    catch _ => continue
  return { t with top := top }

/-- The tree on which the command is run: with the sources, and with the pages that are there. -/
def prepare (args : List String) : IO FileTree := do
  match Command.readArguments args with
  | .error _ => return ⟨.dir [], []⟩
  | .ok a =>
    let c := a.toConfig
    let t ← loadTree c
    match Project.load t c with
    | .error _ => return t
    | .ok p =>
      let sources := p.sources t
      let pages := sources.map fun f => (pagePath c.outputRoot ⟨f.relative⟩).text
      fill t (sources.map (·.path.text) ++ pages)

def store (start finish : FileTree) : IO Unit := do
  for (location, node) in Node.changes [] (some start.top) finish.top do
    let path := (Location.path location).text
    match node with
    | .dir _ => IO.FS.createDirAll path
    | .file bytes => IO.FS.writeBinFile path ⟨bytes.toArray⟩
    | .link _ => continue

def timestamp : IO String := do
  let now := (← Std.Time.Timestamp.now).toNanosecondsSinceUnixEpoch.val.toNat
  return Command.Clock.pointInTime (now / 1000000000) (now % 1000000000)

def logLine (time : String) (n : Notice) : String :=
  let level := n.level.name
  time ++ " " ++ String.ofList (List.replicate (5 - level.length) ' ') ++ level ++ " " ++ n.message

def run (args : List String) : IO UInt32 := do
  let start ← IO.monoNanosNow
  let t ← prepare args
  let finish := Command.execute t args
  store t (finish.tree t)
  let stop ← IO.monoNanosNow
  let files := match finish with
    | .done _ _ outcome => outcome.report.stats.found
    | _ => 0
  let time ← timestamp
  let clock := Command.Clock.ofRun files (stop - start) time
  for n in finish.shownNotices clock (← IO.getEnv "RUST_LOG") do
    IO.eprintln (logLine time n)
  if finish.errorText ≠ "" then IO.eprintln finish.errorText
  IO.print (finish.output clock)
  return finish.status.toUInt32

end SourcePages.Disk

def main (args : List String) : IO UInt32 :=
  SourcePages.Disk.run args
