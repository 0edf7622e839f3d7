import SourcePages.Project.Basic
import SourcePages.Project.Notice

/-!
The source files of a project: all files below the root that a selector takes and the filter does
not leave out. The output directory is not entered, nor is a directory that the filter leaves out.
Links are not followed; they count as files.
-/

namespace SourcePages

structure SourceFile where
  path : Path
  relative : String
  deriving DecidableEq, Repr

structure Scan where
  files : List SourceFile := []
  notices : List Notice := []

def Scan.append (a b : Scan) : Scan :=
  ⟨a.files ++ b.files, a.notices ++ b.notices⟩

structure ScanRules where
  root : Path
  outputRoot : Path
  selectors : List Selector
  filter : IgnoreFilter

def relativeText (names : List String) : String := Text.joinWith "/" names

namespace ScanRules

def pathOf (r : ScanRules) (names : List String) : Path :=
  if names.isEmpty then r.root else r.root.join ⟨relativeText names⟩

def scanFile (r : ScanRules) (names : List String) : Scan :=
  let relative := relativeText names
  if !anyTakes r.selectors relative then {}
  else if r.filter.ignores relative false then { notices := [.ignoredMatch relative] }
  else { files := [⟨r.pathOf names, relative⟩], notices := [.found relative] }

def isOutput (r : ScanRules) (names : List String) : Bool :=
  (r.pathOf names).same r.outputRoot

mutual

def scanEntry (r : ScanRules) (names : List String) : Node → Scan
  | .dir entries =>
    if r.isOutput names then {}
    else if r.filter.ignores (relativeText names) true then
      { notices := [.ignoredDirectory (relativeText names)] }
    else r.scanEntries names entries
  | .file _ => r.scanFile names
  | .link _ => r.scanFile names

def scanEntries (r : ScanRules) (above : List String) : List (String × Node) → Scan
  | [] => {}
  | (name, node) :: rest =>
    (r.scanEntry (above ++ [name]) node).append (r.scanEntries above rest)

end

def scanRoot (r : ScanRules) : Node → Scan
  | .dir entries => r.scanEntries [] entries
  | _ => r.scanFile []

end ScanRules

def sortFiles (files : List SourceFile) : List SourceFile :=
  files.mergeSort fun a b => !decide (b.relative < a.relative)

namespace Project

def scanRules (p : Project) (t : FileTree) (root : Path) : ScanRules where
  root := root
  outputRoot :=
    match t.canonical p.config.outputRoot with
    | .ok path => path
    | .error _ => p.config.outputRoot
  selectors := p.selectors
  filter := p.filter

/-- The scan of a project. A root that cannot be reached has no files. -/
def scan (p : Project) (t : FileTree) : Scan :=
  let begun : Scan := { notices := [.looking p.patterns] }
  match t.node? p.config.root with
  | .ok (location, n) => begun.append ((p.scanRules t location.path).scanRoot n)
  | .error fault => begun.append { notices := [.unreadable p.config.root fault] }

def sources (p : Project) (t : FileTree) : List SourceFile :=
  sortFiles (p.scan t).files

end Project

end SourcePages
