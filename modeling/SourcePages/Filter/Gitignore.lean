import SourcePages.Filter.Engine
import SourcePages.Glob.Member
import SourcePages.Path.Basic
import SourcePages.Text.Blank
import SourcePages.Text.Utf8

namespace SourcePages

structure IgnoreRule where
  pattern : Glob.Pattern
  negated : Bool
  onlyDirectories : Bool

inductive LineFault where
  | glob (e : Glob.Error)
  | notText
  | isDirectory
  deriving DecidableEq, Repr

structure BadLine where
  number : Nat
  fault : LineFault
  deriving DecidableEq, Repr

/-- Why the rules of a file are not taken. They are compiled to a set if no line is bad. -/
inductive GitignoreFault where
  | lines (bad : List BadLine)
  | limit (cause : String)
  deriving DecidableEq, Repr

def dropPrefix? (front text : List Char) : Option (List Char) :=
  if front.isPrefixOf text then some (text.drop front.length) else none

def trimRule (line : List Char) : List Char :=
  if "\\ ".toList.isSuffixOf line then line else Text.trimEnd line

namespace IgnoreRule

def marks (line : List Char) : Bool × Bool × List Char :=
  match line with
  | '\\' :: '!' :: rest => (false, false, '!' :: rest)
  | '\\' :: '#' :: rest => (false, false, '#' :: rest)
  | '!' :: '/' :: rest => (true, true, rest)
  | '!' :: rest => (true, false, rest)
  | '/' :: rest => (false, true, rest)
  | rest => (false, false, rest)

/-- Whether a slash ends a rule, and the rule without it. A backslash in front of the slash goes
with it. -/
def directoryMark (rule : List Char) : Bool × List Char :=
  match rule.reverse with
  | '/' :: '\\' :: rest => (true, rest.reverse)
  | '/' :: rest => (true, rest.reverse)
  | _ => (false, rule)

/-- The pattern of a rule: at any depth if the rule has no slash and is not anchored, and, where it
ends in `**`, below that directory only. -/
def patternText (anchored : Bool) (rule : List Char) : List Char :=
  let everywhere := "**/".toList
  let rule :=
    if anchored || rule.contains '/' || everywhere.isPrefixOf rule || rule = ['*', '*'] then rule
    else everywhere ++ rule
  if "/**".toList.isSuffixOf rule then rule ++ ['/', '*'] else rule

def read (line : List Char) : Except Glob.Error (Option IgnoreRule) :=
  let trimmed := trimRule line
  if line.head? = some '#' || trimmed.isEmpty then .ok none
  else
    let (negated, anchored, rule) := marks trimmed
    let (onlyDirectories, rule) := directoryMark rule
    match Glob.tokens true (patternText anchored rule) with
    | .ok tokens => .ok (some ⟨⟨tokens, true⟩, negated, onlyDirectories⟩)
    | .error fault => .error ⟨String.ofList trimmed, fault⟩

end IgnoreRule

/-- The lines of a file: what stands before a line feed is a line, and a carriage return in front of
the line feed is not part of it. -/
def fileLines (bytes : List UInt8) : List (List UInt8) :=
  match (Text.split (0x0A : UInt8) bytes).reverse with
  | [] => []
  | last :: ended =>
    let lines := ended.reverse.map fun line =>
      if line.getLast? = some 0x0D then line.dropLast else line
    if last.isEmpty then lines else lines ++ [last]

/-- Reads lines as rules, the first of them with the given number; gives the rules and the lines
that are bad. Nothing is read after a line that is no text. -/
def readRules (number : Nat) : List (List UInt8) → List IgnoreRule × List BadLine
  | [] => ([], [])
  | bytes :: rest =>
    match Text.decode? bytes with
    | none => ([], [⟨number, .notText⟩])
    | some line =>
      let line := if number = 1 then line.dropWhile (· = '\uFEFF') else line
      let (rules, bad) := readRules (number + 1) rest
      match IgnoreRule.read line with
      | .ok none => (rules, bad)
      | .ok (some rule) => (rule :: rules, bad)
      | .error e => (rules, ⟨number, .glob e⟩ :: bad)

structure Gitignore where
  root : Path
  rules : List IgnoreRule

namespace Gitignore

def read [Glob.Engine] (root : Path) (bytes : List UInt8) : Except GitignoreFault Gitignore :=
  let text := root.text.toList
  let root := ((dropPrefix? ['.', '/'] text).map fun rest => Path.mk (String.ofList rest)).getD root
  match readRules 1 (fileLines bytes) with
  | (rules, []) =>
    match Glob.Engine.objection? (rules.map (·.pattern)) with
    | none => .ok ⟨root, rules⟩
    | some cause => .error (.limit cause)
  | (_, bad) => .error (.lines bad)

/-- The path that rules are matched against: without `./` in front, and without the root if the text
begins with it and has a slash. -/
def strip (g : Gitignore) (path : String) : String :=
  let here := (dropPrefix? ['.', '/'] path.toList).getD path.toList
  if g.root.same ⟨"."⟩ || !here.contains '/' then String.ofList here
  else
    match dropPrefix? g.root.text.toList here with
    | none => String.ofList here
    | some rest => String.ofList ((dropPrefix? ['/'] rest).getD rest)

def ignores (g : Gitignore) (path : String) (isDirectory : Bool) : Bool :=
  let path := g.strip path
  let applies (rule : IgnoreRule) :=
    (!rule.onlyDirectories || isDirectory) && rule.pattern.accepts path
  match g.rules.reverse.find? applies with
  | some rule => !rule.negated
  | none => false

end Gitignore

end SourcePages
