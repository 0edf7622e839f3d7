import SourcePages.Json.Mismatch
import SourcePages.Json.Value

/-!
Reading records, lists and scalars out of JSON values. A record is written as an object or as the
array of its fields in declared order. Of several faults the one told is that of the first bad
field as the value lists them, and only then that of the first missing field as declared.
-/

namespace SourcePages.Json

abbrev Decoder (α : Type) : Type := Value → Except Mismatch α

def wording : Wording := ⟨"null", numberStyle⟩

def Value.found : Value → Found
  | .leaf .null => .null
  | .leaf (.bool b) => .bool b
  | .leaf (.number (.natural n)) => .integer n
  | .leaf (.number (.negative n)) => .integer (-(n + 1 : Nat))
  | .leaf (.number (.real x)) => .real (.finite x)
  | .leaf (.text s) => .text s
  | .array _ => .sequence
  | .object _ => .map

def unlike {α : Type} (wanted : String) (v : Value) : Except Mismatch α :=
  .error (.wrongType (Value.found v) wanted)

namespace Decoder

def textAs (wanted : String) : Decoder String
  | .leaf (.text s) => .ok s
  | v => unlike wanted v

def text : Decoder String := textAs "a string"

def path : Decoder String := textAs "path string"

def bool : Decoder Bool
  | .leaf (.bool b) => .ok b
  | v => unlike "a boolean" v

def natural (wanted : String) : Decoder Nat
  | .leaf (.number (.natural n)) => .ok n
  | .leaf (.number (.negative n)) =>
    .error (.wrongValue (.integer (-(n + 1 : Nat))) wanted)
  | v => unlike wanted v

def real : Decoder Binary64
  | .leaf (.number (.real x)) => .ok x
  | .leaf (.number (.natural n)) => .ok ((Binary64.ofInt? n).getD Binary64.zero)
  | .leaf (.number (.negative n)) =>
    .ok ((Binary64.ofInt? (-(n + 1 : Nat))).getD Binary64.zero)
  | v => unlike "f64" v

def optional {α : Type} (decode : Decoder α) : Decoder (Option α)
  | .leaf .null => .ok none
  | v => (decode v).map some

def list {α : Type} (decode : Decoder α) : Decoder (List α)
  | .array items => items.mapM decode
  | v => unlike "a sequence" v

/-- One of some named values, written as its name or as an object with its name and null. -/
def variant {α : Type} (named? : String → Option α) (wanted : String) : Decoder α
  | .leaf (.text name) => choose name
  | .object [(name, value)] => do
    let x ← choose name
    match value with
    | .leaf .null => return x
    | v => unlike "unit" v
  | .object _ => .error (.wrongValue .map "map with a single key")
  | v => unlike "string or map" v
where
  choose (name : String) : Except Mismatch α :=
    match named? name with
    | some x => .ok x
    | none => .error (.unknownVariant name wanted)

end Decoder

structure Given where
  value? : String → Option Value

/-- Fields read so far: the faults of those with bad values, the names of those that are missing,
and what they make if there is no fault. -/
structure Fields (α : Type) where
  bad : List (String × Mismatch)
  missing : List String
  result? : Option α

abbrev FieldReader (α : Type) : Type := Given → Fields α

namespace FieldReader

def done {α : Type} (a : α) : FieldReader α := fun _ => ⟨[], [], some a⟩

def andField {α β : Type} (f : FieldReader (α → β)) (x : FieldReader α) : FieldReader β :=
  fun given =>
    let f := f given
    let x := x given
    ⟨f.bad ++ x.bad, f.missing ++ x.missing, do return (← f.result?) (← x.result?)⟩

def fieldOr? {α : Type} (default? : Option α) (name : String) (decode : Decoder α) :
    FieldReader α := fun given =>
  match given.value? name with
  | none =>
    match default? with
    | some a => ⟨[], [], some a⟩
    | none => ⟨[], [name], none⟩
  | some v =>
    match decode v with
    | .ok a => ⟨[], [], some a⟩
    | .error e => ⟨[(name, e)], [], none⟩

def field {α : Type} (name : String) (decode : Decoder α) : FieldReader α :=
  fieldOr? none name decode

def fieldOr {α : Type} (fallback : α) (name : String) (decode : Decoder α) : FieldReader α :=
  fieldOr? (some fallback) name decode

end FieldReader

def firstByName? : List (String × Mismatch) → Option (String × Mismatch)
  | [] => none
  | x :: rest =>
    match firstByName? rest with
    | some y => if y.1 < x.1 then some y else some x
    | none => some x

def Fields.close {α : Type} (fields : Fields α) (first? : Option (String × Mismatch))
    (absent : String → Mismatch) : Except Mismatch α :=
  match first?, fields.missing, fields.result? with
  | some (_, e), _, _ => .error e
  | none, name :: _, _ => .error (absent name)
  | none, [], some a => .ok a
  | none, [], none => .error (absent "")

def Decoder.record {α : Type} (noun : String) (declared : List String)
    (reader : FieldReader α) : Decoder α
  | .object given =>
    let fields := reader ⟨fun name => given.lookup name⟩
    fields.close (firstByName? fields.bad) .missingField
  | .array items =>
    let given := declared.zip items
    let fields := reader ⟨fun name => given.lookup name⟩
    let wanted := noun ++ " with " ++ toString declared.length ++ " elements"
    let absent name := Mismatch.wrongLength (declared.idxOf name) wanted
    match fields.close fields.bad.head? absent with
    | .error e => .error e
    | .ok a =>
      if declared.length < items.length then
        .error (.wrongLength items.length "fewer elements in array")
      else .ok a
  | v => unlike noun v

end SourcePages.Json
