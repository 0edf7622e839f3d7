/-!
Tokens of object notations. Between punctuation there are only blanks, comments, quoted texts and
bare words; what words and quoted texts mean is left to the notation.
-/

namespace SourcePages.Json

inductive Atom where
  | bare (text : List Char)
  | quoted (mark : Char) (body : List Char)
  deriving DecidableEq, Repr

inductive Token where
  | openArray
  | closeArray
  | openObject
  | closeObject
  | colon
  | comma
  | atom (a : Atom)
  deriving DecidableEq, Repr

structure Lexicon where
  isBlank : Char → Bool
  isMark : Char → Bool
  comments : Bool
  endsLine : Char → Bool

/-- Where the scan stands. Texts that are not complete are kept last character first. -/
inductive Scan where
  | between
  | inBare (read : List Char)
  | inQuoted (mark : Char) (read : List Char)
  | afterBackslash (mark : Char) (read : List Char)
  | afterSlash
  | inLineComment
  | inBlockComment
  | afterStar
  deriving DecidableEq, Repr

def punctuation? (c : Char) : Option Token :=
  match c with
  | '[' => some .openArray
  | ']' => some .closeArray
  | '\x7b' => some .openObject
  | '\x7d' => some .closeObject
  | ':' => some .colon
  | ',' => some .comma
  | _ => none

namespace Lexicon

def stepBetween (l : Lexicon) (c : Char) : List Token × Scan :=
  if l.isBlank c then ([], .between)
  else if l.isMark c then ([], .inQuoted c [])
  else if l.comments && c = '/' then ([], .afterSlash)
  else match punctuation? c with
    | some token => ([token], .between)
    | none => ([], .inBare [c])

def step (l : Lexicon) : Scan → Char → Option (List Token × Scan)
  | .between, c => some (l.stepBetween c)
  | .inBare read, c =>
    match l.stepBetween c with
    | (_, .inBare _) => some ([], .inBare (c :: read))
    | (tokens, scan) => some (.atom (.bare read.reverse) :: tokens, scan)
  | .inQuoted mark read, c =>
    if c = mark then some ([.atom (.quoted mark read.reverse)], .between)
    else if c = '\\' then some ([], .afterBackslash mark (c :: read))
    else some ([], .inQuoted mark (c :: read))
  | .afterBackslash mark read, c => some ([], .inQuoted mark (c :: read))
  | .afterSlash, c =>
    match c with
    | '/' => some ([], .inLineComment)
    | '*' => some ([], .inBlockComment)
    | _ => none
  | .inLineComment, c => some ([], if l.endsLine c then .between else .inLineComment)
  | .inBlockComment, c => some ([], if c = '*' then .afterStar else .inBlockComment)
  | .afterStar, c =>
    match c with
    | '/' => some ([], .between)
    | '*' => some ([], .afterStar)
    | _ => some ([], .inBlockComment)

def finish? : Scan → Option (List Token)
  | .between | .inLineComment => some []
  | .inBare read => some [.atom (.bare read.reverse)]
  | _ => none

def tokensFrom? (l : Lexicon) : Scan → List Char → Option (List Token)
  | scan, [] => finish? scan
  | scan, c :: rest => do
    let (tokens, scan) ← l.step scan c
    return tokens ++ (← l.tokensFrom? scan rest)

def tokens? (l : Lexicon) (text : List Char) : Option (List Token) :=
  l.tokensFrom? .between text

end Lexicon

end SourcePages.Json
