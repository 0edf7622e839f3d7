import SourcePages.Json5.Record
import SourcePages.Lookup
import SourcePages.Proofs.Json.Read
import SourcePages.Proofs.Outcome

namespace SourcePages.Json5

open Json (escape escapeChar hexDigit)

section

variable (rest : List Char)

theorem textParts_simple {mark : Char} (plain : isLineEnd mark = false)
    (letter : mark ≠ '0' ∧ mark ≠ 'x' ∧ mark ≠ 'u') (digit : mark.isDigit = false) :
    textParts? ('\\' :: mark :: rest) =
      (textParts? rest).map (.char (escaped mark) [mark] :: ·) := by
  obtain ⟨zero, hexadecimal, unicode⟩ := letter
  have carriage : mark ≠ '\r' := by
    rintro rfl
    cases plain
  rw [textParts?.eq_5]
  · simp [plain, zero, hexadecimal, unicode, digit]
  all_goals simp_all

theorem textParts_unit {a b c d : Char} {n : Nat} (digits : Json.hexNumber? [a, b, c, d] = some n) :
    textParts? ('\\' :: 'u' :: a :: b :: c :: d :: rest) =
      (textParts? rest).map (.unit n :: ·) := by
  rw [textParts?, digits]
  cases textParts? rest <;> rfl

theorem textParts_char {c : Char} (notBackslash : c ≠ '\\') (plain : isLineEnd c = false) :
    textParts? (c :: rest) = (textParts? rest).map (.char c [c] :: ·) := by
  rw [textParts?.eq_6]
  · simp [notBackslash, plain]
  all_goals simp_all

def Part.Shows (part : Part) (c : Char) : Prop :=
  (∃ written, part = .char c written) ∨ (part = .unit c.toNat ∧ c.toNat < 0x20)

theorem textParts_escapeChar {c : Char} (first : c ≠ '\u2028') (second : c ≠ '\u2029') :
    ∃ part : Part, part.Shows c ∧
      textParts? (escapeChar c ++ rest) = (textParts? rest).map (part :: ·) := by
  -- The marks behind a backslash mean the same in both; the last case is a character that has none.
  unfold escapeChar
  split
  case h_8 =>
    rename_i _ backslash _ _ newline _ carriage
    split
    · rename_i small
      exact ⟨_, .inr ⟨rfl, small⟩, textParts_unit rest (Json.hexNumber_hexDigits small)⟩
    · have newline : c ≠ '\n' := newline
      have carriage : c ≠ '\r' := carriage
      have plain : isLineEnd c = false := by simp [isLineEnd, newline, carriage, first, second]
      exact ⟨_, .inl ⟨_, rfl⟩, textParts_char rest backslash plain⟩
  all_goals exact ⟨_, .inl ⟨_, rfl⟩, textParts_simple rest (by decide) (by decide) (by decide)⟩

end

theorem joinParts_shows {part : Part} {c : Char} (shows : part.Shows c) (rest : List Part) :
    joinParts (part :: rest) = (joinParts rest).map (c :: ·) := by
  rcases shows with ⟨_, rfl⟩ | ⟨rfl, small⟩
  · rfl
  · have high : Json.isHighSurrogate c.toNat = false := by
      simp only [Json.isHighSurrogate, Bool.and_eq_false_iff, decide_eq_false_iff_not]
      omega
    have low : Json.isLowSurrogate c.toNat = false := by
      simp only [Json.isLowSurrogate, Bool.and_eq_false_iff, decide_eq_false_iff_not]
      omega
    conv => lhs; unfold joinParts
    simp only [high, low, Bool.false_eq_true, if_false, Char.ofNat_toNat]

/-- Whether a text has none of the line ends that JSON does not escape. -/
def Unbroken (text : String) : Prop := '\u2028' ∉ text.toList ∧ '\u2029' ∉ text.toList

instance : DecidablePred Unbroken := fun _ => inferInstanceAs (Decidable (_ ∧ _))

def partsOf (text : String) : List Part := (textParts? (escape text.toList)).getD []

theorem exists_parts {text : List Char} (first : '\u2028' ∉ text) (second : '\u2029' ∉ text) :
    ∃ parts, textParts? (escape text) = some parts ∧ joinParts parts = .ok text := by
  induction text with
  | nil => exact ⟨[], rfl, rfl⟩
  | cons c rest ih =>
    obtain ⟨other, others⟩ := List.ne_and_not_mem_of_not_mem_cons first
    obtain ⟨other', others'⟩ := List.ne_and_not_mem_of_not_mem_cons second
    obtain ⟨parts, found, joined⟩ := ih others others'
    obtain ⟨part, shows, read⟩ := textParts_escapeChar (escape rest) other.symm other'.symm
    refine ⟨part :: parts, ?_, ?_⟩
    · rw [escape, List.flatMap_cons, ← escape, read, found]
      rfl
    · rw [joinParts_shows shows, joined]
      rfl

namespace Unbroken

variable {text : String} (unbroken : Unbroken text)

include unbroken

theorem textParts_escape : textParts? (escape text.toList) = some (partsOf text) := by
  obtain ⟨parts, found, -⟩ := exists_parts unbroken.1 unbroken.2
  rw [partsOf, found, Option.getD_some]

theorem partsText_eq : partsText (partsOf text) = .ok text := by
  obtain ⟨parts, found, joined⟩ := exists_parts unbroken.1 unbroken.2
  rw [partsText, partsOf, found, Option.getD_some, joined]
  exact congrArg Except.ok String.ofList_toList

end Unbroken

def leafOf : Json.Scalar → Leaf
  | .null => .null
  | .bool b => .bool b
  | .number n => .numeral n.format.toList
  | .text s => .text (partsOf s)

def Plain : Json.Scalar → Prop
  | .number _ => False
  | .text s => Unbroken s
  | _ => True

abbrev PlainValue : Json.Value → Prop := Json.Value.Each Unbroken Plain

theorem leaf_atom {x : Json.Scalar} (plain : Plain x) : leaf? x.atom = some (leafOf x) := by
  cases x with
  | null => rfl
  | bool b => cases b <;> rfl
  | number n => exact plain.elim
  | text s => exact congrArg (Option.map Leaf.text) (Unbroken.textParts_escape plain)

theorem toNat_wordChar {c : Char} (word : Json.isWordChar c = true) :
    43 ≤ c.toNat ∧ c.toNat < 123 := by
  unfold Json.isWordChar Char.isAlphanum Char.isAlpha Char.isUpper Char.isLower Char.isDigit at word
  simp only [Bool.or_eq_true, Bool.and_eq_true, decide_eq_true_eq, ge_iff_le,
    UInt32.le_iff_toNat_le] at word
  rcases word with ((((inside | inside) | inside) | rfl) | rfl) | rfl
  case inr | inl.inr | inl.inl.inr => decide
  all_goals exact ⟨le_trans (by decide) inside.1, lt_of_le_of_lt inside.2 (by decide)⟩

theorem isBlank_of_graphic {c : Char} (above : 0x20 < c.toNat) (below : c.toNat < 0x7F) :
    isBlank c = false := by
  have apart : ∀ other : Char, other.toNat ≤ 0x20 ∨ 0x7F ≤ other.toNat → c ≠ other := by
    rintro _ outside rfl
    omega
  have line : isLineEnd c = false := by
    simp [isLineEnd, apart '\n' (by decide), apart '\r' (by decide), apart '\u2028' (by decide),
      apart '\u2029' (by decide)]
  simp [isBlank, line, apart '\t' (by decide), apart '\x0b' (by decide), apart '\x0c' (by decide),
    apart ' ' (by decide)]
  omega

theorem grammar_knowsJson : grammar.lexicon.KnowsJson where
  space := by decide
  newline := by decide
  quotation := by decide
  punctuation c token h := by
    unfold Json.punctuation? at h
    split at h
    case h_7 => cases h
    all_goals decide
  word c word := by
    obtain ⟨above, below⟩ := toNat_wordChar word
    have apart : c ≠ '"' ∧ c ≠ '\'' := by
      constructor <;> rintro rfl <;> revert above <;> decide
    exact ⟨isBlank_of_graphic (by omega) (by omega), by simp [grammar, apart]⟩

theorem PlainValue.readable {v : Json.Value} (plain : PlainValue v) : v.Readable := by
  refine plain.imp (fun _ _ => trivial) fun x holds => ?_
  cases x with
  | number n => exact holds.elim
  | null => trivial
  | bool b => trivial
  | text s => trivial

theorem PlainValue.takes {v : Json.Value} (plain : PlainValue v) :
    grammar.Takes partsOf leafOf v :=
  plain.imp (fun _ => Unbroken.textParts_escape) fun _ => leaf_atom

theorem PlainValue.read {v : Json.Value} (plain : PlainValue v) {text : String}
    (written : text = v.compact ∨ text = v.pretty) :
    Value.read? text = some (v.image partsOf leafOf) := by
  have tokens : grammar.lexicon.tokens? text.toList = some v.tokens := by
    rcases written with rfl | rfl
    · rw [Json.Value.compact, String.toList_ofList]
      exact (Json.Lexicon.spells_compact grammar_knowsJson plain.readable).tokens
    · rw [Json.Value.pretty, String.toList_ofList]
      exact (Json.Lexicon.spells_pretty grammar_knowsJson plain.readable 0).tokens
  rw [Value.read?, Json.Grammar.read?, tokens, Option.bind_some,
    Json.Grammar.ofTokens_tokens plain.takes]

theorem checkItems_ok {items : List Value} (each : ∀ item ∈ items, Value.check item = .ok ()) :
    checkItems items = .ok () := by
  induction items with
  | nil => rfl
  | cons item rest ih =>
    obtain ⟨first, others⟩ := List.forall_mem_cons.mp each
    rw [checkItems, first]
    exact ih others

theorem checkFields_ok {fields : List (List Part × Value)}
    (keys : ∀ field ∈ fields, ∃ name, partsText field.1 = .ok name)
    (each : ∀ field ∈ fields, Value.check field.2 = .ok ()) : checkFields fields = .ok () := by
  induction fields with
  | nil => rfl
  | cons field rest ih =>
    obtain ⟨⟨name, named⟩, otherKeys⟩ := List.forall_mem_cons.mp keys
    obtain ⟨first, others⟩ := List.forall_mem_cons.mp each
    rw [checkFields, named, first]
    exact ih otherKeys others

theorem PlainValue.check {v : Json.Value} (plain : PlainValue v) :
    Value.check (v.image partsOf leafOf) = .ok () := by
  induction plain with
  | @leaf x holds =>
    rw [Json.Value.image, Value.check]
    cases x with
    | number n => exact holds.elim
    | null => rfl
    | bool b => rfl
    | text s => rw [leafOf, Leaf.found, Unbroken.partsText_eq holds]; rfl
  | array _ ih =>
    rw [Json.Value.image, Value.check]
    exact checkItems_ok (List.forall_mem_map.mpr ih)
  | object keys _ ih =>
    rw [Json.Value.image, Value.check]
    refine checkFields_ok (List.forall_mem_map.mpr fun field member => ?_)
      (List.forall_mem_map.mpr ih)
    exact ⟨field.1, (keys field member).partsText_eq⟩

theorem PlainValue.unbroken {s : String} (plain : PlainValue (.text s)) : Unbroken s := by
  obtain ⟨holds⟩ := plain
  exact holds

theorem optionalText_image {s : String} (plain : PlainValue (.text s)) :
    optionalText ((Json.Value.text s).image partsOf leafOf) = .ok (some s) := by
  rw [Json.Value.text, Json.Value.image, leafOf, optionalText, plain.unbroken.partsText_eq]
  rfl

theorem textList_image {texts : List String} (plain : PlainValue (.texts texts)) :
    textList ((Json.Value.texts texts).image partsOf leafOf) = .ok texts := by
  have unbroken : ∀ s ∈ texts, Unbroken s := by
    intro s member
    obtain _ | each := plain
    exact PlainValue.unbroken (each _ (List.mem_map_of_mem member))
  have each : ∀ s ∈ texts, text? ((Json.Value.text s).image partsOf leafOf) = .ok (some s) := by
    intro s member
    rw [Json.Value.text, Json.Value.image, leafOf, text?, (unbroken s member).partsText_eq]
    rfl
  have list : (Json.Value.texts texts).image partsOf leafOf =
      .array (texts.map fun s => (Json.Value.text s).image partsOf leafOf) := by
    rw [Json.Value.texts.eq_def, Json.Value.image, List.map_map]
    rfl
  have checked := plain.check
  rw [list] at checked ⊢
  have items : (texts.map fun s => (Json.Value.text s).image partsOf leafOf).mapM text? =
      .ok (texts.map some) := by
    rw [List.mapM_map]
    exact mapM_ok each
  have all : (texts.map some).mapM id = some texts := by
    rw [List.mapM_map]
    exact (List.mapM_pure (m := Option) (f := id)).trans (congrArg some (List.map_id texts))
  simp only [textList, checked, items, ok_bind, all]
  rfl

theorem readFields_image {α : Type} {known : List String} {decode : Value → Except Fault α}
    {value : String → α} {fields : List (String × Json.Value)}
    (keys : ∀ field ∈ fields, Unbroken field.1) (plain : ∀ field ∈ fields, PlainValue field.2)
    (distinct : (fields.map (·.1)).Nodup)
    (decodes : ∀ field ∈ fields, field.1 ∈ known →
      decode (field.2.image partsOf leafOf) = .ok (value field.1))
    {read : List (String × α)} (fresh : ∀ field ∈ fields, read.lookup field.1 = none) :
    readFields known decode read
        (fields.map fun field => (partsOf field.1, field.2.image partsOf leafOf)) =
      .ok (read ++ ((fields.map (·.1)).filter (known.contains ·)).map fun name =>
        (name, value name)) := by
  -- No field is met whose name is among those read before.
  induction fields generalizing read with
  | nil => simp [readFields]
  | cons field rest ih =>
    obtain ⟨key, otherKeys⟩ := List.forall_mem_cons.mp keys
    obtain ⟨first, others⟩ := List.forall_mem_cons.mp plain
    obtain ⟨absent, later⟩ := List.nodup_cons.mp distinct
    obtain ⟨decoded, otherDecodes⟩ := List.forall_mem_cons.mp decodes
    obtain ⟨unread, otherFresh⟩ := List.forall_mem_cons.mp fresh
    rw [List.map_cons, readFields, key.partsText_eq, ok_bind]
    by_cases named : field.1 ∈ known
    · have fresh : ∀ other ∈ rest, (read ++ [(field.1, value field.1)]).lookup other.1 = none := by
        intro other member
        have apart : other.1 ≠ field.1 := fun same =>
          absent (List.mem_map.mpr ⟨other, member, same⟩)
        simp [List.lookup_append, otherFresh other member, lookup_entry, apart]
      have further := ih otherKeys others later otherDecodes fresh
      have new : (read.lookup field.1).isSome = false := by rw [unread]; rfl
      simpa [named, new, decoded named] using further
    · have further := ih otherKeys others later otherDecodes otherFresh
      simpa [named, first.check] using further

theorem record_image {α : Type} (noun : String) {known : List String}
    {decode : Value → Except Fault α} (value : String → α) {fields : List (String × Json.Value)}
    (plain : PlainValue (.object fields)) (distinct : (fields.map (·.1)).Nodup)
    (decodes : ∀ field ∈ fields, field.1 ∈ known →
      decode (field.2.image partsOf leafOf) = .ok (value field.1)) :
    ∃ read, record noun known decode (Json.Value.image partsOf leafOf (.object fields)) = .ok read ∧
      ∀ name ∈ known, ∀ v, (name, v) ∈ fields → read.lookup name = some (value name) := by
  obtain _ | _ | ⟨keys, each⟩ := plain
  rw [Json.Value.image, record, readFields_image keys each distinct decodes fun _ _ => rfl]
  refine ⟨_, rfl, fun name named v member => lookup_of_mem ?_ ?_⟩
  · rw [List.nil_append, List.map_map]
    exact (List.map_id _).symm ▸ distinct.filter _
  · have there : name ∈ fields.map (·.1) := List.mem_map.mpr ⟨_, member, rfl⟩
    have kept : name ∈ (fields.map (·.1)).filter (known.contains ·) :=
      List.mem_filter.mpr ⟨there, List.contains_iff_mem.mpr named⟩
    exact List.mem_map_of_mem kept

end SourcePages.Json5
