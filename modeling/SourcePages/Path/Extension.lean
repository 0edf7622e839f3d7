import SourcePages.Path.Basic

namespace SourcePages

/-- A file name before and behind its last dot; a name without a dot, or with none but the first
character, has no extension. -/
def splitExtension (name : List Char) : List Char × Option (List Char) :=
  if name.contains '.' then
    let extension := (name.reverse.takeWhile (· ≠ '.')).reverse
    let stem := name.take (name.length - extension.length - 1)
    if stem.isEmpty then (name, none) else (stem, some extension)
  else (name, none)

def takeBytes (bytes : Nat) : List Char → List Char
  | [] => []
  | c :: rest => if bytes = 0 then [] else c :: takeBytes (bytes - c.utf8Size) rest

def byteSize : List Char → Nat
  | [] => 0
  | c :: rest => c.utf8Size + byteSize rest

def trimIdleEnd (p : Path) : List Char :=
  p.anchor ++ Text.join ['/'] (Path.dropEndWhile Path.isIdle p.body)

def Path.replaceStemEnd (p : Path) (extension : List Char) : Path :=
  match p.fileName? with
  | none => p
  | some name =>
    let kept := trimIdleEnd p
    let (stem, _) := splitExtension name.toList
    ⟨String.ofList (kept.take (kept.length - (name.toList.length - stem.length)) ++
      '.' :: extension)⟩

/-- The path with another extension. As many bytes as the old one has are taken off the end of the
whole text first, whether or not slashes follow the file name. -/
def Path.withExtension (p : Path) (extension : List Char) : Path :=
  match p.fileName? with
  | none => p
  | some name =>
    match (splitExtension name.toList).2 with
    | none => p.replaceStemEnd extension
    | some old =>
      let text := p.text.toList
      Path.replaceStemEnd ⟨String.ofList (takeBytes (byteSize text - byteSize old) text)⟩ extension

def pagePath (outputRoot relative : Path) : Path :=
  (outputRoot.join relative).withExtension ['m', 'd']

end SourcePages
