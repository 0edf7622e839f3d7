/-!
UTF-8: the bytes of a text, and reading bytes back. Each maximal ill-formed run of bytes is one
defect; the strict reader refuses a text with a defect, the lossy one writes U+FFFD in its place.
-/

namespace SourcePages.Text

def encode (text : List Char) : List UInt8 :=
  text.flatMap String.utf8EncodeChar

structure Partial where
  bits : Nat
  following : Nat
  low : UInt8
  high : UInt8

/-- What one byte brings: pieces that end before or with it (`none` is a defect), and a
character that it leaves open. -/
structure Step where
  pieces : List (Option Char)
  open? : Option Partial

/-- Reads a byte that begins a character. The ranges for the second byte leave out overlong
forms, surrogates and code points above U+10FFFF. -/
def beginChar (b : UInt8) : Step :=
  if b < 0x80 then ⟨[some (Char.ofNat b.toNat)], none⟩
  else if b < 0xC2 then ⟨[none], none⟩
  else if b < 0xE0 then ⟨[], some ⟨b.toNat - 0xC0, 0, 0x80, 0xBF⟩⟩
  else if b == 0xE0 then ⟨[], some ⟨0, 1, 0xA0, 0xBF⟩⟩
  else if b == 0xED then ⟨[], some ⟨0xD, 1, 0x80, 0x9F⟩⟩
  else if b < 0xF0 then ⟨[], some ⟨b.toNat - 0xE0, 1, 0x80, 0xBF⟩⟩
  else if b == 0xF0 then ⟨[], some ⟨0, 2, 0x90, 0xBF⟩⟩
  else if b < 0xF4 then ⟨[], some ⟨b.toNat - 0xF0, 2, 0x80, 0xBF⟩⟩
  else if b == 0xF4 then ⟨[], some ⟨4, 2, 0x80, 0x8F⟩⟩
  else ⟨[none], none⟩

/-- Reads a byte after those of an open character. A byte that cannot continue it makes the open
one a defect and begins a character itself. -/
def continueChar (p : Partial) (b : UInt8) : Step :=
  if p.low ≤ b && b ≤ p.high then
    let bits := p.bits * 64 + (b.toNat - 0x80)
    match p.following with
    | 0 => ⟨[some (Char.ofNat bits)], none⟩
    | n + 1 => ⟨[], some ⟨bits, n, 0x80, 0xBF⟩⟩
  else
    let next := beginChar b
    ⟨none :: next.pieces, next.open?⟩

def readByte : Option Partial → UInt8 → Step
  | none, b => beginChar b
  | some p, b => continueChar p b

def piecesFrom : Option Partial → List UInt8 → List (Option Char)
  | none, [] => []
  | some _, [] => [none]
  | state, b :: rest =>
    let step := readByte state b
    step.pieces ++ piecesFrom step.open? rest

def pieces (bytes : List UInt8) : List (Option Char) :=
  piecesFrom none bytes

def decode? (bytes : List UInt8) : Option (List Char) :=
  (pieces bytes).mapM id

def decodeLossy (bytes : List UInt8) : List Char :=
  (pieces bytes).map (·.getD '\uFFFD')

end SourcePages.Text
