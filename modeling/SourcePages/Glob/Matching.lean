import SourcePages.Glob.Basic
import SourcePages.Text.Utf8

/-!
Matching a pattern against the bytes of a path. A token that is read off the front of a text may
leave several rests; a pattern matches if it can leave nothing.
-/

namespace SourcePages.Glob

def slash : UInt8 := 0x2F

def suffixes : List UInt8 → List (List UInt8)
  | [] => [[]]
  | b :: rest => (b :: rest) :: suffixes rest

def afterSlashes : List UInt8 → List (List UInt8)
  | [] => []
  | b :: rest => if b = slash then rest :: afterSlashes rest else afterSlashes rest

def afterNonSlashes : List UInt8 → List (List UInt8)
  | [] => [[]]
  | b :: rest => (b :: rest) :: if b = slash then [] else afterNonSlashes rest

def afterByte (test : UInt8 → Bool) : List UInt8 → List (List UInt8)
  | [] => []
  | b :: rest => if test b then [rest] else []

def afterSlash : List UInt8 → List (List UInt8) :=
  afterByte (· = slash)

def afterBytes : List UInt8 → List UInt8 → List (List UInt8)
  | [], text => [text]
  | b :: bytes, c :: text => if b = c then afterBytes bytes text else []
  | _ :: _, [] => []

/-- Whether a range of characters takes in a byte. Of characters with several bytes all count, and
the range runs from the last byte of its first character to the first byte of its last. -/
def rangeTakes (range : Char × Char) (b : UInt8) : Bool :=
  let low := Text.encode [range.1]
  let high := Text.encode [range.2]
  if range.1 = range.2 then low.contains b
  else
    low.dropLast.contains b || high.tail.contains b ||
      (low.getLastD 0 ≤ b && b ≤ high.headD 0)

def classTakes (negated : Bool) (ranges : List (Char × Char)) (b : UInt8) : Bool :=
  (ranges.any (rangeTakes · b)) != negated

mutual

def Token.isSolid : Token → Bool
  | .either branches => anySolid branches
  | _ => true

def anySolid : List (List Token) → Bool
  | [] => false
  | branch :: rest => solid branch || anySolid rest

def solid : List Token → Bool
  | [] => false
  | t :: rest => t.isSolid || solid rest

end

mutual

/-- What a token can leave of a text. An empty branch of a group is none, and a group without
branches stands for nothing. -/
def Token.rests (keepsSlashes : Bool) : Token → List UInt8 → List (List UInt8)
  | .literal c, text => afterBytes (Text.encode [c]) text
  | .one, text => afterByte (fun b => !keepsSlashes || b != slash) text
  | .run, text => if keepsSlashes then afterNonSlashes text else suffixes text
  | .leading, text => text :: afterSlashes text
  | .trailing, text => (afterSlash text).flatMap suffixes
  | .between, text => (afterSlash text).flatMap fun rest => rest :: afterSlashes rest
  | .oneOf negated ranges, text => afterByte (classTakes negated ranges) text
  | .either branches, text =>
    if anySolid branches then branchRests keepsSlashes branches text else [text]

def branchRests (keepsSlashes : Bool) : List (List Token) → List UInt8 → List (List UInt8)
  | [], _ => []
  | branch :: branches, text =>
    (if solid branch then rests keepsSlashes branch [text] else []) ++
      branchRests keepsSlashes branches text

def rests (keepsSlashes : Bool) : List Token → List (List UInt8) → List (List UInt8)
  | [], texts => texts
  | t :: tokens, texts =>
    rests keepsSlashes tokens (texts.flatMap (t.rests keepsSlashes)).eraseDups

end

def Pattern.matchesBytes (p : Pattern) (bytes : List UInt8) : Bool :=
  match p.tokens with
  | [.leading] => true
  | tokens => (rests p.keepsSlashes tokens [bytes]).contains []

def Pattern.matches (p : Pattern) (text : String) : Bool :=
  p.matchesBytes (Text.encode text.toList)

end SourcePages.Glob
