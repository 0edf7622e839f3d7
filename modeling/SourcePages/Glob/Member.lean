import SourcePages.Glob.Matching
import SourcePages.Text.Split

/-!
Patterns as members of a set. A member that is decided by the name at the end of a path does not
match a path without one, even where the pattern itself would.
-/

namespace SourcePages.Glob

def Token.isNameChar : Token → Bool
  | .literal c => c ≠ '/'
  | _ => false

def Token.isLiteral : Token → Bool
  | .literal _ => true
  | _ => false

def Token.isExtensionChar : Token → Bool
  | .literal c => c ≠ '/' && c ≠ '.'
  | _ => false

def isDotted : List Token → Bool
  | .literal '.' :: rest => rest.all Token.isExtensionChar
  | _ => false

/-- Whether the tokens that end a pattern, listed backwards, are an extension and its dot. -/
def endsInExtension : List Token → Bool
  | .literal c :: rest => c = '.' || (c ≠ '/' && endsInExtension rest)
  | _ => false

namespace Pattern

def isName (p : Pattern) : Bool :=
  match p.tokens with
  | .leading :: rest => !rest.isEmpty && rest.all Token.isNameChar
  | _ => false

def isExtension (p : Pattern) : Bool :=
  match p.tokens with
  | .leading :: .run :: rest => isDotted rest
  | .run :: rest => !p.keepsSlashes && isDotted rest
  | _ => false

def isBeginning (p : Pattern) : Bool :=
  match p.tokens.reverse with
  | .run :: rest => !p.keepsSlashes && !rest.isEmpty && rest.all Token.isLiteral
  | .trailing :: rest => rest.all Token.isLiteral
  | tokens => !tokens.isEmpty && tokens.all Token.isLiteral

def isEnding (p : Pattern) : Bool :=
  let literal (tokens : List Token) := !tokens.isEmpty && tokens.all Token.isLiteral
  let beyondSlash (tokens : List Token) := literal tokens &&
    match tokens with
    | [.literal '/'] => false
    | _ => true
  match p.tokens with
  | .leading :: .run :: rest => !p.keepsSlashes && beyondSlash rest
  | .leading :: rest => literal rest
  | .run :: rest => !p.keepsSlashes && beyondSlash rest
  | tokens => beyondSlash tokens

def looksAtName (p : Pattern) : Bool :=
  p.isName || p.isExtension ||
    (!p.isBeginning && !p.isEnding && endsInExtension p.tokens.reverse)

end Pattern

def hasName (path : String) : Bool :=
  match (Text.split '/' path.toList).getLast? with
  | some name => name ≠ [] && name ≠ ['.', '.']
  | none => false

def Pattern.accepts (p : Pattern) (path : String) : Bool :=
  (!p.looksAtName || hasName path) && p.matches path

end SourcePages.Glob
