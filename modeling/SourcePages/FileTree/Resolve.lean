import SourcePages.FileTree.Basic
import SourcePages.FileTree.Fault
import SourcePages.Path.Basic

/-!
Following paths through a tree. Each name but the last must lead to a directory, and symbolic links
are replaced by what they point to, up to a number of times.
-/

namespace SourcePages

inductive Place where
  | node (location : Location) (n : Node)
  /-- A name that a directory has no entry for, and whether only a directory may get it. -/
  | vacant (directory : Location) (name : String) (wantsDirectory : Bool)

namespace Path

def steps (p : Path) : List String :=
  (Text.segments p.text).filter fun s => s ≠ "" && s ≠ "."

def wantsDirectory (p : Path) : Bool :=
  match (Text.segments p.text).getLast? with
  | some s => s = "" || s = "."
  | none => false

end Path

namespace FileTree

def linkLimit : Nat := 40

/-- Follows names from a location on. The last name is followed through a link if that is asked for,
or if it must lead to a directory. -/
def walk (top : Node) (followLast : Bool) (budget : Nat) (here : Location)
    (wantsDirectory : Bool) (steps : List String) : Except IoFault Place :=
  match steps with
  | [] =>
    match top.at? here with
    | some n => if wantsDirectory && !n.isDir then .error .notDirectory else .ok (.node here n)
    | none => .error .notFound
  | name :: rest =>
    match top.at? here with
    | some (.dir entries) =>
      if name = ".." then walk top followLast budget here.dropLast wantsDirectory rest
      else
        match entries.lookup name with
        | none => if rest.isEmpty then .ok (.vacant here name wantsDirectory) else .error .notFound
        | some (.link target) =>
          if rest.isEmpty && !followLast && !wantsDirectory then
            .ok (.node (here ++ [name]) (.link target))
          else
            match budget with
            | 0 => .error .linkLoop
            | budget + 1 =>
              let target : Path := ⟨target⟩
              walk top followLast budget (if target.isAbsolute then [] else here)
                (wantsDirectory || (rest.isEmpty && target.wantsDirectory)) (target.steps ++ rest)
        | some _ => walk top followLast budget (here ++ [name]) wantsDirectory rest
    | some _ => .error .notDirectory
    | none => .error .notFound
termination_by (budget, steps.length)

def resolve (t : FileTree) (followLast : Bool) (p : Path) : Except IoFault Place :=
  if p.text = "" then .error .notFound
  else
    walk t.top followLast linkLimit (if p.isAbsolute then [] else t.workingDir) p.wantsDirectory
      p.steps

end FileTree

end SourcePages
