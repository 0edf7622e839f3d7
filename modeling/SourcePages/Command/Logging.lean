import SourcePages.Project.Notice
import SourcePages.Text.Split

namespace SourcePages.Command

inductive Directive where
  | all (rank : Nat)
  | part
  deriving DecidableEq, Repr

def rank? (word : String) : Option Nat :=
  match (String.ofList (word.toList.map Char.toLower)) with
  | "off" | "0" => some 0
  | "error" | "1" => some 1
  | "warn" | "2" => some 2
  | "info" | "3" => some 3
  | "debug" | "4" => some 4
  | "trace" | "5" => some 5
  | _ => none

def readDirective (text : String) : Option Directive :=
  match rank? text with
  | some rank => some (.all rank)
  | none =>
    match Text.split '=' text.toList with
    | [_] => some .part
    | [_, level] => (rank? (String.ofList level)).map fun _ => .part
    | _ => none

/-- The last level for all notices; off if directives are for parts only, and errors if there are
none. -/
def limitOf (directives : List Directive) : Nat :=
  let last := directives.foldl (fun rank d => match d with
    | .all rank => rank
    | .part => rank) 0
  if directives.isEmpty then 1 else last

def limit (verbose : Bool) (environment : Option String) : Nat :=
  let plain := if verbose then 4 else 3
  match environment with
  | none => plain
  | some text =>
    let words := ((Text.split ',' text.toList).map String.ofList).filter (· ≠ "")
    match words.mapM readDirective with
    | some directives => limitOf directives
    | none => plain

def shown (limit : Nat) (notices : List Notice) : List Notice :=
  notices.filter (·.level.rank ≤ limit)

end SourcePages.Command
