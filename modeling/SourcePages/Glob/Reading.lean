import SourcePages.Glob.Basic

/-!
Reading patterns, one character at a time. What two stars mean depends on the characters around
them and on whether anything precedes them in the pattern or in its branch of a group.
-/

namespace SourcePages.Glob

structure ClassRead where
  begun : Bool := false
  negated : Bool := false
  ranges : List (Char × Char) := []
  inRange : Bool := false

namespace ClassRead

def add (r : ClassRead) (c : Char) : ClassRead :=
  { r with ranges := (c, c) :: r.ranges, inRange := false }

def extend (r : ClassRead) (c : Char) : Except Fault ClassRead :=
  match r.ranges with
  | (first, _) :: rest =>
    if c < first then .error (.invalidRange first c)
    else .ok { r with ranges := (first, c) :: rest, inRange := false }
  | [] => .ok (r.add c)

def token (r : ClassRead) : Token :=
  .oneOf r.negated (if r.inRange then r.add '-' else r).ranges.reverse

/-- Reads a character behind the bracket; none where it closes the class. A closing bracket or a
dash that comes first stands for itself. -/
def step (r : ClassRead) (c : Char) : Except Fault (Option ClassRead) :=
  if !r.begun && !r.negated && (c = '!' || c = '^') then .ok (some { r with negated := true })
  else
    let first := !r.begun
    let r := { r with begun := true }
    if c = ']' then .ok (if first then some (r.add ']') else none)
    else if c = '-' && first then .ok (some (r.add '-'))
    else if r.inRange then (r.extend c).map some
    else if c = '-' then .ok (some { r with inRange := true })
    else .ok (some (r.add c))

def runsOut (r : ClassRead) : List Char → Bool
  | [] => true
  | c :: rest =>
    match r.step c with
    | .ok (some r) => r.runsOut rest
    | _ => false

end ClassRead

structure OpenGroup where
  branches : List (List Token)
  before : List Token

inductive Place where
  | plain
  | afterStar
  | afterStars
  | afterBackslash
  | inClass (read : ClassRead)

structure State where
  place : Place := .plain
  previous : Option Char := none
  tokens : List Token := []
  groups : List OpenGroup := []
  literalBrackets : Bool := false

namespace State

def push (s : State) (t : Token) : State := { s with tokens := t :: s.tokens }

def pushRuns (s : State) : State := (s.push .run).push .run

/-- What two stars become that have tokens before them and may stand for whole segments: they take
the place of the slash in front. A `**` in front stays as it is. -/
def merge (s : State) (token : Token) : State :=
  match s.tokens with
  | .leading :: rest => { s with tokens := .leading :: rest }
  | .trailing :: rest => { s with tokens := .trailing :: rest }
  | _ :: rest => { s with tokens := token :: rest }
  | [] => s.push token

/-- Reads two stars before a certain character; says whether that character is a slash that belongs
to them. -/
def stars (s : State) (next : Option Char) : State × Bool :=
  let grouped := !s.groups.isEmpty
  if s.tokens.isEmpty then
    match next with
    | none => (s.push .leading, false)
    | some '/' => (s.push .leading, true)
    | some _ => (s.pushRuns, false)
  else if s.previous = some '/' ||
      (grouped && (s.previous = some ',' || s.previous = some '\x7b')) then
    match next with
    | none => (s.merge .trailing, false)
    | some '/' => (s.merge .between, true)
    | some c =>
      if grouped && (c = ',' || c = '\x7d') then (s.merge .trailing, false)
      else (s.pushRuns, false)
  else (s.pushRuns, false)

def closeGroup (s : State) : Except Fault State :=
  match s.groups with
  | [] => .error .unopenedGroup
  | g :: outer =>
    .ok { s with
      tokens := .either (s.tokens.reverse :: g.branches).reverse :: g.before
      groups := outer }

def comma (s : State) : State :=
  match s.groups with
  | [] => s.push (.literal ',')
  | g :: outer =>
    let group := { g with branches := s.tokens.reverse :: g.branches }
    { s with tokens := [], groups := group :: outer }

def stepPlain (s : State) (lenient : Bool) (c : Char) (rest : List Char) : Except Fault State :=
  let read := { s with place := .plain, previous := some c }
  match c with
  | '?' => .ok (read.push .one)
  | '*' => .ok { s with place := .afterStar }
  | '[' =>
    if s.literalBrackets then .ok (read.push (.literal '['))
    else if lenient && ClassRead.runsOut {} rest then
      .ok { read.push (.literal '[') with literalBrackets := true }
    else .ok { read with place := .inClass {} }
  | '\x7b' => .ok { read with tokens := [], groups := ⟨[], s.tokens⟩ :: s.groups }
  | '\x7d' => read.closeGroup
  | ',' => .ok read.comma
  | '\\' => .ok { read with place := .afterBackslash }
  | c => .ok (read.push (.literal c))

def step (s : State) (lenient : Bool) (c : Char) (rest : List Char) : Except Fault State :=
  match s.place with
  | .plain => s.stepPlain lenient c rest
  | .afterStar =>
    if c = '*' then .ok { s with place := .afterStars }
    else { s.push .run with previous := some '*' }.stepPlain lenient c rest
  | .afterStars =>
    match s.stars (some c) with
    | (s, true) => .ok { s with place := .plain, previous := some c }
    | (s, false) => { s with previous := some '*' }.stepPlain lenient c rest
  | .afterBackslash =>
    .ok { s.push (.literal c) with place := .plain, previous := some c }
  | .inClass read =>
    match read.step c with
    | .error e => .error e
    | .ok (some read) => .ok { s with place := .inClass read, previous := some c }
    | .ok none => .ok { s.push read.token with place := .plain, previous := some c }

def closed (s : State) : Except Fault (List Token) :=
  if s.groups.isEmpty then .ok s.tokens.reverse else .error .unclosedGroup

def finish (s : State) : Except Fault (List Token) :=
  match s.place with
  | .plain => s.closed
  | .afterStar => (s.push .run).closed
  | .afterStars => (s.stars none).1.closed
  | .afterBackslash => .error .danglingEscape
  | .inClass _ => .error .unclosedClass

def read (s : State) (lenient : Bool) : List Char → Except Fault (List Token)
  | [] => s.finish
  | c :: rest =>
    match s.step lenient c rest with
    | .error e => .error e
    | .ok s => s.read lenient rest

end State

/-- Reads a pattern. A lenient reading takes brackets literally from the first class on that is not
closed. -/
def tokens (lenient : Bool) (text : List Char) : Except Fault (List Token) :=
  State.read {} lenient text

def read (keepsSlashes : Bool) (text : String) : Except Refusal Pattern :=
  match tokens false text.toList with
  | .ok ts => .ok ⟨ts, keepsSlashes⟩
  | .error fault => .error (.malformed ⟨text, fault⟩)

end SourcePages.Glob
