import SourcePages.Json5.Value

/-!
Reading records out of relaxed JSON. The first fault in the order of the text is the one told, also
when it is in a field that the record does not have.
-/

namespace SourcePages.Json5

/-- Reads the fields of an object in turn, after others that are read already. A field of the record
may stand there once. -/
def readFields {α : Type} (known : List String) (decode : Value → Except Fault α)
    (read : List (String × α)) : List (List Part × Value) → Except Fault (List (String × α))
  | [] => .ok read
  | (key, value) :: rest => do
    let name ← partsText key
    if known.contains name then
      if (read.lookup name).isSome then throw (.mismatch (.duplicateField name))
      let a ← decode value
      readFields known decode (read ++ [(name, a)]) rest
    else
      Value.check value
      readFields known decode read rest

/-- Reads the items of an array as the fields of a record; further items are not looked at. -/
def readItems {α : Type} (known : List String) (decode : Value → Except Fault α)
    (items : List Value) : Except Fault (List (String × α)) :=
  (known.zip items).mapM fun (name, value) => (decode value).map ((name, ·))

def record {α : Type} (noun : String) (known : List String) (decode : Value → Except Fault α) :
    Value → Except Fault (List (String × α))
  | .object fields => readFields known decode [] fields
  | .array items => readItems known decode items
  | v => unlike noun v

end SourcePages.Json5
