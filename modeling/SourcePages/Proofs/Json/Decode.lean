import Mathlib.Data.List.Forall2
import Mathlib.Logic.Relation
import SourcePages.Json.Decode
import SourcePages.Lookup
import SourcePages.Proofs.Json.Token

/-!
What reading a value looks at. Of a record only the declared fields count, so that it is read the
same with fields of other names, and with its fields in another order.
-/

namespace SourcePages.Json

/-- Where a value is read as a record, and what its fields are there. -/
inductive Shape where
  | plain
  | list (item : Shape)
  | record (fields : List (String × Shape))

/-- One edit of a value that is read in a shape: a field that is not known there is added to a
record, the fields of one are put in another order, or the same is done further inside. -/
inductive Edit : Shape → Value → Value → Prop where
  | added {known : List (String × Shape)} {before after : List (String × Value)} {name : String}
      {value : Value} (unknown : known.lookup name = none)
      (fresh : name ∉ (before ++ after).map (·.1)) :
      Edit (.record known) (.object (before ++ after)) (.object (before ++ (name, value) :: after))
  | reordered {known : List (String × Shape)} {fields fields' : List (String × Value)}
      (distinct : (fields.map (·.1)).Nodup) (perm : fields.Perm fields') :
      Edit (.record known) (.object fields) (.object fields')
  | field {known : List (String × Shape)} {before after : List (String × Value)} {name : String}
      {s : Shape} {v w : Value} (named : known.lookup name = some s) (inner : Edit s v w) :
      Edit (.record known) (.object (before ++ (name, v) :: after))
        (.object (before ++ (name, w) :: after))
  | item {s : Shape} {before after : List Value} {v w : Value} (inner : Edit s v w) :
      Edit (.list s) (.array (before ++ v :: after)) (.array (before ++ w :: after))

def Edited (s : Shape) : Value → Value → Prop := Relation.ReflTransGen (Edit s)

/-- Whether two values show the same to a reader of a shape. -/
inductive Agree : Shape → Value → Value → Prop where
  -- `Forall₂` and `Option.Rel` of the relation itself are no premises of an inductive type over
  -- shapes; `of_items` and `of_fields` below give the two cases in their terms.
  | same {s : Shape} {v : Value} : Agree s v v
  | list {s : Shape} {items items' : List Value} (count : items.length = items'.length)
      (each : ∀ v w, (v, w) ∈ items.zip items' → Agree s v w) :
      Agree (.list s) (.array items) (.array items')
  | record {known : List (String × Shape)} {fields fields' : List (String × Value)}
      (present : ∀ name s, known.lookup name = some s →
        (fields.lookup name = none ↔ fields'.lookup name = none))
      (each : ∀ name s v w, known.lookup name = some s → fields.lookup name = some v →
        fields'.lookup name = some w → Agree s v w) :
      Agree (.record known) (.object fields) (.object fields')

theorem rel_iff {α β : Type} {R : α → β → Prop} {a : Option α} {b : Option β} :
    Option.Rel R a b ↔ (a = none ↔ b = none) ∧ ∀ v w, a = some v → b = some w → R v w := by
  constructor
  · rintro (_ | _) <;> simp_all
  · rintro ⟨present, each⟩
    cases a with
    | none =>
      rw [present.mp rfl]
      exact .none
    | some v =>
      cases b with
      | none => cases present.mpr rfl
      | some w => exact .some (each v w rfl rfl)

theorem Agree.of_items {s : Shape} {items items' : List Value}
    (each : List.Forall₂ (Agree s) items items') : Agree (.list s) (.array items) (.array items') :=
  have parts := List.forall₂_iff_zip.mp each
  .list parts.1 fun _ _ => parts.2

theorem Agree.of_fields {known : List (String × Shape)} {fields fields' : List (String × Value)}
    (each : ∀ name s, known.lookup name = some s →
      Option.Rel (Agree s) (fields.lookup name) (fields'.lookup name)) :
    Agree (.record known) (.object fields) (.object fields') :=
  .record (fun name s declared => (rel_iff.mp (each name s declared)).1)
    fun name s v w declared => (rel_iff.mp (each name s declared)).2 v w

theorem rel_same {s : Shape} {found found' : Option Value} (same : found' = found) :
    Option.Rel (Agree s) found found' := by
  rw [same]
  cases found with
  | none => exact .none
  | some v => exact .some .same

theorem Edit.agree {s : Shape} {v w : Value} (edit : Edit s v w) : Agree s v w := by
  induction edit with
  | @added known before after key value unknown _ =>
    refine Agree.of_fields fun name s declared => rel_same ?_
    have other : name ≠ key := by
      rintro rfl
      rw [unknown] at declared
      cases declared
    rw [List.lookup_append, lookup_entry, if_neg other, List.lookup_append]
  | reordered distinct perm =>
    exact Agree.of_fields fun name s _ => rel_same (lookup_perm distinct perm name)
  | @field known before after key s v w named inner ih =>
    refine Agree.of_fields fun name s' declared => ?_
    rw [List.lookup_append, List.lookup_append, lookup_entry, lookup_entry]
    by_cases same : name = key
    · subst same
      obtain rfl : s' = s := Option.some.inj (declared.symm.trans named)
      rw [if_pos rfl, if_pos rfl]
      cases before.lookup name with
      | none => exact .some ih
      | some earlier => exact .some .same
    · rw [if_neg same, if_neg same]
      exact rel_same rfl
  | @item s _ _ _ _ inner ih =>
    have same : ∀ items : List Value, List.Forall₂ (Agree s) items items :=
      fun items => List.forall₂_same.mpr fun _ _ => .same
    exact .of_items (List.rel_append (same _) (.cons ih (same _)))

section Ordered

theorem orderedItems_eq_map (items : List Value) :
    orderedItems items = items.map Value.ordered := by
  induction items with
  | nil => rfl
  | cons item rest ih => rw [orderedItems, ih, List.map_cons]

theorem lookup_insertField (field : String × Value) (fields : List (String × Value))
    (name : String) : (insertField field fields).lookup name =
      if name = field.1 then some field.2 else fields.lookup name := by
  obtain ⟨key, value⟩ := field
  fun_induction insertField (key, value) fields with
  | case1 => exact lookup_entry key value [] name
  | case2 other rest below => exact lookup_entry key value (other :: rest) name
  | case3 other rest notBelow same =>
    obtain ⟨key', old⟩ := other
    rw [lookup_entry, lookup_entry]
    simp only at same
    split
    · rfl
    · rename_i differs
      rw [if_neg (same ▸ differs)]
  | case4 other rest notBelow differs ih =>
    obtain ⟨key', old⟩ := other
    rw [lookup_entry, lookup_entry, ih]
    by_cases last : name = key'
    · have apart : ¬ name = key := fun same => differs (same.symm.trans last)
      rw [if_pos last, if_neg apart, if_pos last]
    · rw [if_neg last, if_neg last]

theorem lookup_orderedFields {fields : List (String × Value)}
    (distinct : (fields.map (·.1)).Nodup) (done : List (String × Value)) (name : String) :
    (orderedFields fields done).lookup name =
      ((fields.lookup name).map Value.ordered).or (done.lookup name) := by
  -- No later field has the name of the first, so that none takes its place.
  induction fields generalizing done with
  | nil => rfl
  | cons field rest ih =>
    obtain ⟨key, value⟩ := field
    obtain ⟨absent, later⟩ := List.nodup_cons.mp distinct
    rw [orderedFields, ih later, lookup_insertField, lookup_entry]
    by_cases same : name = key
    · rw [same, lookup_none_of_absent absent]
      simp
    · rw [if_neg same, if_neg same]

/-- Whether a value has leaves where a shape has nothing further, and no two fields of one name
where the shape has a record. -/
inductive Tidy : Shape → Value → Prop where
  | plain {x : Scalar} : Tidy .plain (.leaf x)
  | list {s : Shape} {items : List Value} (each : ∀ item ∈ items, Tidy s item) :
      Tidy (.list s) (.array items)
  | record {known : List (String × Shape)} {fields : List (String × Value)}
      (distinct : (fields.map (·.1)).Nodup)
      (each : ∀ field ∈ fields, ∀ s, known.lookup field.1 = some s → Tidy s field.2) :
      Tidy (.record known) (.object fields)

theorem Tidy.agree_ordered {s : Shape} {v : Value} (tidy : Tidy s v) : Agree s v v.ordered := by
  induction tidy with
  | plain => exact .same
  | list _ ih =>
    rw [Value.ordered, orderedItems_eq_map]
    exact .of_items (List.forall₂_map_right_iff.mpr (List.forall₂_same.mpr ih))
  | @record known fields distinct _ ih =>
    rw [Value.ordered]
    refine Agree.of_fields fun name s declared => ?_
    rw [lookup_orderedFields distinct, List.lookup_nil, Option.or_none]
    cases found : fields.lookup name with
    | none => exact .none
    | some value => exact .some (ih _ (mem_of_lookup found) s declared)

theorem Edit.tidy {s : Shape} {v w : Value} (edit : Edit s v w) (tidy : Tidy s v) : Tidy s w := by
  induction edit with
  | @added known before after name value unknown fresh =>
    obtain _ | _ | ⟨distinct, each⟩ := tidy
    refine .record ?_ fun field member s declared => ?_
    · have middle : ((before ++ (name, value) :: after).map (·.1)).Perm
          (name :: (before ++ after).map (·.1)) := List.perm_middle.map _
      exact middle.nodup_iff.mpr (List.nodup_cons.mpr ⟨fresh, distinct⟩)
    · rcases List.mem_cons.mp (List.perm_middle.subset member) with rfl | old
      · rw [unknown] at declared
        cases declared
      · exact each field old s declared
  | reordered _ perm =>
    obtain _ | _ | ⟨distinct, each⟩ := tidy
    exact .record ((perm.map _).nodup_iff.mp distinct) fun field member =>
      each field (perm.symm.subset member)
  | @field known before after name s v w named inner ih =>
    obtain _ | _ | ⟨distinct, each⟩ := tidy
    refine .record (by simpa using distinct) fun field member s' declared => ?_
    rcases List.mem_cons.mp (List.perm_middle.subset member) with rfl | old
    · obtain rfl : s' = s := Option.some.inj (declared.symm.trans named)
      exact ih (each (name, v) (by simp) s' named)
    · exact each field (List.perm_middle.symm.subset (List.mem_cons_of_mem _ old)) s' declared
  | @item s before after v w inner ih =>
    obtain _ | each | _ := tidy
    refine .list fun item member => ?_
    rcases List.mem_cons.mp (List.perm_middle.subset member) with rfl | old
    · exact ih (each v (by simp))
    · exact each item (List.perm_middle.symm.subset (List.mem_cons_of_mem _ old))

theorem Edited.tidy {s : Shape} {v w : Value} (edits : Edited s v w) (tidy : Tidy s v) :
    Tidy s w := by
  induction edits with
  | refl => exact tidy
  | tail _ edit ih => exact edit.tidy ih

end Ordered

variable {α β : Type}

/-- Whether a decoder reads the same, or fails the same, of values that agree in a shape. -/
def Decoder.Respects (decode : Decoder α) (s : Shape) : Prop :=
  ∀ v w, Agree s v w → decode w = decode v

def FieldReader.Respects (reader : FieldReader α) (known : List (String × Shape)) : Prop :=
  ∀ given given' : Given, (∀ name s, known.lookup name = some s →
    Option.Rel (Agree s) (given.value? name) (given'.value? name)) → reader given' = reader given

namespace Decoder.Respects

theorem edited {decode : Decoder α} {s : Shape} (respects : decode.Respects s) {v w : Value}
    (edits : Edited s v w) : decode w = decode v := by
  induction edits with
  | refl => rfl
  | tail _ edit ih => exact (respects _ _ edit.agree).trans ih

theorem plain (decode : Decoder α) : decode.Respects .plain := by
  rintro v _ ⟨⟩
  rfl

theorem list {decode : Decoder α} {s : Shape} (inner : decode.Respects s) :
    (Decoder.list decode).Respects (.list s) := by
  rintro v w (_ | ⟨count, each⟩ | _)
  · rfl
  · have items := List.forall₂_iff_zip.mpr ⟨count, fun {v w} => each v w⟩
    simp only [Decoder.list]
    clear count each
    induction items with
    | nil => rfl
    | cons first _ ih => rw [List.mapM_cons, List.mapM_cons, inner _ _ first, ih]

theorem record {noun : String} {declared : List String} {reader : FieldReader α}
    {known : List (String × Shape)} (inner : reader.Respects known) :
    (Decoder.record noun declared reader).Respects (.record known) := by
  rintro v w (_ | _ | ⟨present, each⟩)
  · rfl
  · rename_i fields fields'
    have same := inner ⟨fun name => fields.lookup name⟩ ⟨fun name => fields'.lookup name⟩
      fun name s shown => rel_iff.mpr ⟨present name s shown, fun v w => each name s v w shown⟩
    simp only [Decoder.record, same]

theorem read {decode : Decoder α} {s : Shape} (respects : decode.Respects s) {v w : Value}
    (tidy : Tidy s v) (edits : Edited s v w) {text : String}
    (reads : grammar.read? text = some w) : (Value.read? text).map decode = some (decode v) := by
  have same : decode w.ordered = decode v :=
    (respects _ _ (edits.tidy tidy).agree_ordered).trans (respects.edited edits)
  rw [Value.read?, reads, Option.map_some, Option.map_some, same]

end Decoder.Respects

namespace FieldReader

variable {known : List (String × Shape)}

theorem Respects.done (a : α) : (FieldReader.done a).Respects known := fun _ _ _ => rfl

theorem Respects.andField {f : FieldReader (α → β)} {x : FieldReader α} (first : f.Respects known)
    (second : x.Respects known) : (f.andField x).Respects known := by
  intro given given' each
  simp only [FieldReader.andField, first given given' each, second given given' each]

theorem Respects.fieldOr? {default? : Option α} {name : String} {decode : Decoder α} {s : Shape}
    (declared : known.lookup name = some s) (inner : decode.Respects s) :
    (FieldReader.fieldOr? default? name decode).Respects known := by
  intro given given' each
  have shown := each name s declared
  unfold FieldReader.fieldOr?
  generalize given.value? name = found at shown
  generalize given'.value? name = found' at shown
  cases shown with
  | none => rfl
  | some agree =>
    dsimp only
    rw [inner _ _ agree]

def Gives (reader : FieldReader α) (given : Given) (a : α) : Prop := reader given = ⟨[], [], some a⟩

variable {given : Given}

theorem Gives.done (a : α) : (FieldReader.done a).Gives given a := rfl

theorem Gives.andField {f : FieldReader (α → β)} {x : FieldReader α} {g : α → β} {a : α}
    (first : f.Gives given g) (second : x.Gives given a) : (f.andField x).Gives given (g a) := by
  rw [Gives, FieldReader.andField, first, second]
  rfl

theorem Gives.present {default? : Option α} {name : String} {decode : Decoder α} {v : Value} {a : α}
    (found : given.value? name = some v) (read : decode v = .ok a) :
    (FieldReader.fieldOr? default? name decode).Gives given a := by
  simp only [Gives, FieldReader.fieldOr?, found, read]

theorem Gives.absent {name : String} {decode : Decoder α} {a : α}
    (missing : given.value? name = none) : (FieldReader.fieldOr a name decode).Gives given a := by
  simp only [Gives, FieldReader.fieldOr, FieldReader.fieldOr?, missing]

end FieldReader

theorem Decoder.record_gives {noun : String} {declared : List String} {reader : FieldReader α}
    {fields : List (String × Value)} {a : α}
    (gives : reader.Gives ⟨fun name => fields.lookup name⟩ a) :
    Decoder.record noun declared reader (.object fields) = .ok a := by
  simp only [Decoder.record]
  rw [gives]
  rfl

theorem Decoder.list_map {decode : Decoder α} {encode : α → Value} {items : List α}
    (each : ∀ a ∈ items, decode (encode a) = .ok a) :
    Decoder.list decode (.array (items.map encode)) = .ok items := by
  simp only [Decoder.list]
  induction items with
  | nil => rfl
  | cons a rest ih =>
    obtain ⟨first, others⟩ := List.forall_mem_cons.mp each
    rw [List.map_cons, List.mapM_cons, first, ih others]
    rfl

/-- Whether a value has a shape and reads back as it is written. -/
structure Conforms (s : Shape) (v : Value) : Prop where
  tidy : Tidy s v
  readable : v.Readable

def FieldsConform (known : List (String × Shape)) (fields : List (String × Value)) : Prop :=
  ∀ field ∈ fields, ∃ s, known.lookup field.1 = some s ∧ Conforms s field.2

theorem Conforms.text (s : String) : Conforms .plain (Value.text s) := ⟨.plain, .leaf trivial⟩

theorem Conforms.bool (b : Bool) : Conforms .plain (Value.bool b) := ⟨.plain, .leaf trivial⟩

theorem Conforms.natural {n : Nat} (small : n < 2 ^ 64) : Conforms .plain (Value.natural n) :=
  ⟨.plain, .leaf (read_natural small)⟩

theorem Conforms.real {x : Binary64}
    (token : Number.read? (Number.format (.real x)).toList = some (.real x)) :
    Conforms .plain (Value.real x) :=
  ⟨.plain, .leaf token⟩

theorem Conforms.list {s : Shape} {encode : α → Value} {items : List α}
    (each : ∀ a ∈ items, Conforms s (encode a)) : Conforms (.list s) (.array (items.map encode)) :=
  ⟨.list (List.forall_mem_map.mpr fun a member => (each a member).tidy),
    .array (List.forall_mem_map.mpr fun a member => (each a member).readable)⟩

theorem Conforms.texts (ss : List String) : Conforms (.list .plain) (Value.texts ss) :=
  .list fun s _ => .text s

theorem Conforms.record {known : List (String × Shape)} {fields : List (String × Value)}
    (distinct : (fields.map (·.1)).Nodup) (each : FieldsConform known fields) :
    Conforms (.record known) (.object fields) := by
  refine ⟨.record distinct fun field member s declared => ?_,
    .object (fun _ _ => trivial) fun field member => ?_⟩
  all_goals obtain ⟨s', named, conforms⟩ := each field member
  · obtain rfl : s = s' := Option.some.inj (declared.symm.trans named)
    exact conforms.tidy
  · exact conforms.readable

namespace FieldsConform

variable {known : List (String × Shape)} {fields fields' : List (String × Value)}

theorem nil : FieldsConform known [] := nofun

theorem cons {name : String} {s : Shape} {v : Value} (declared : known.lookup name = some s)
    (conforms : Conforms s v) (others : FieldsConform known fields) :
    FieldsConform known ((name, v) :: fields) :=
  List.forall_mem_cons.mpr ⟨⟨s, declared, conforms⟩, others⟩

theorem append (first : FieldsConform known fields) (second : FieldsConform known fields') :
    FieldsConform known (fields ++ fields') :=
  List.forall_mem_append.mpr ⟨first, second⟩

end FieldsConform

end SourcePages.Json
