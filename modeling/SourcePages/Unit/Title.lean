import SourcePages.Text.Blank
import SourcePages.Unit.Basic

namespace SourcePages

def leftmost? {α : Type} (read? : List Char → Option α) : List Char → Option α
  | [] => read? []
  | c :: rest => (read? (c :: rest)).or (leftmost? read? rest)

def afterKeyword? (keyword : List Char) (text : List Char) : Option (List Char) :=
  if keyword.isPrefixOf text then some (text.drop keyword.length) else none

/-- The run of characters between the keyword of a type and an equals sign, if there is one and it
is not empty. It may run over several lines. -/
def typeNameHere? (text : List Char) : Option (List Char) := do
  let rest ← afterKeyword? "export type ".toList text
  let name := rest.takeWhile (· ≠ '=')
  if name.isEmpty || name.length = rest.length then none else some name

def functionTailHere? (text : List Char) : Option (List Char) := do
  let rest ← afterKeyword? "export function ".toList text
  let tail := rest.takeWhile (· ≠ '\n')
  if tail.isEmpty then none else some tail

/-- A function's name and nothing of its parameters. Type parameters come before the parameter
list, so the first `<` decides if there is one. -/
def cutParameters (tail : List Char) : List Char :=
  if tail.contains '<' then tail.takeWhile (· ≠ '<') else tail.takeWhile (· ≠ '(')

def typeTitle (line : List Char) : List Char :=
  match leftmost? typeNameHere? line with
  | some name => "type ".toList ++ Text.trim name
  | none => []

def functionTitle (line : List Char) : List Char :=
  match leftmost? functionTailHere? line with
  | some tail => Text.trim (cutParameters tail)
  | none => []

def ExportedUnit.title (u : ExportedUnit) : String :=
  String.ofList <| match u.kind with
    | .type => typeTitle u.firstLine.toList
    | .function => functionTitle u.firstLine.toList

end SourcePages
