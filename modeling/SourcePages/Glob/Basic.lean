namespace SourcePages.Glob

inductive Token where
  | literal (c : Char)
  | one
  | run
  /-- `**` in front: nothing, or everything up to some slash. -/
  | leading
  /-- `**` behind a slash at the end: the slash and all that follows. -/
  | trailing
  /-- `**` between slashes: a slash, or two slashes with anything between them. -/
  | between
  | oneOf (negated : Bool) (ranges : List (Char × Char))
  | either (branches : List (List Token))

inductive Fault where
  | unclosedClass
  | invalidRange (first last : Char)
  | unopenedGroup
  | unclosedGroup
  | danglingEscape
  deriving DecidableEq, Repr

def Fault.message : Fault → String
  | .unclosedClass => "unclosed character class; missing ']'"
  | .invalidRange first last =>
    "invalid range; '" ++ first.toString ++ "' > '" ++ last.toString ++ "'"
  | .unopenedGroup =>
    "unopened alternate group; missing '\x7b' (maybe escape '\x7d' with '[\x7d]'?)"
  | .unclosedGroup =>
    "unclosed alternate group; missing '\x7d' (maybe escape '\x7b' with '[\x7b]'?)"
  | .danglingEscape => "dangling '\\'"

structure Error where
  pattern : String
  fault : Fault
  deriving DecidableEq, Repr

def Error.message (e : Error) : String :=
  "error parsing glob '" ++ e.pattern ++ "': " ++ e.fault.message

/-- Why patterns are not taken: one is malformed, a set of them is beyond the limits of the engine,
which says so, or one of its own is, and then the engine gives up. -/
inductive Refusal where
  | malformed (e : Error)
  | limit (cause : String)
  | abort
  deriving DecidableEq, Repr

def Refusal.message : Refusal → String
  | .malformed e => e.message
  | .limit cause => cause
  | .abort => "the engine gave up"

/-- A pattern, and whether slashes are kept apart from other bytes: if so, `?` and `*` do not
stand for a slash. -/
structure Pattern where
  tokens : List Token
  keepsSlashes : Bool

end SourcePages.Glob
