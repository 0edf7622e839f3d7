import SourcePages.Proofs.Json.Scalar

namespace SourcePages.Json

/-- Whether a leaf reads back as it is written. Only numbers may fail to. -/
def Scalar.Readable : Scalar → Prop
  | .number n => Number.read? n.format.toList = some n
  | _ => True

inductive Value.Each (onKey : String → Prop) (onLeaf : Scalar → Prop) : Value → Prop where
  | leaf {x : Scalar} (holds : onLeaf x) : Value.Each onKey onLeaf (.leaf x)
  | array {items : List Value} (each : ∀ item ∈ items, Value.Each onKey onLeaf item) :
      Value.Each onKey onLeaf (.array items)
  | object {fields : List (String × Value)} (keys : ∀ field ∈ fields, onKey field.1)
      (each : ∀ field ∈ fields, Value.Each onKey onLeaf field.2) :
      Value.Each onKey onLeaf (.object fields)

abbrev Value.Readable : Value → Prop := Value.Each (fun _ => True) Scalar.Readable

def Scalar.atom : Scalar → Atom
  | .text s => .quoted '"' (escape s.toList)
  | x => .bare x.format

def keyAtom (key : String) : Atom := .quoted '"' (escape key.toList)

mutual

def Value.tokens : Value → List Token
  | .leaf x => [.atom x.atom]
  | .array items => .openArray :: itemTokens items ++ [.closeArray]
  | .object fields => .openObject :: fieldTokens fields ++ [.closeObject]

def itemTokens : List Value → List Token
  | [] => []
  | [item] => Value.tokens item
  | item :: rest => Value.tokens item ++ .comma :: itemTokens rest

def fieldTokens : List (String × Value) → List Token
  | [] => []
  | [(key, value)] => .atom (keyAtom key) :: .colon :: Value.tokens value
  | (key, value) :: rest =>
    .atom (keyAtom key) :: .colon :: Value.tokens value ++ .comma :: fieldTokens rest

end

structure Lexicon.KnowsJson (l : Lexicon) : Prop where
  space : l.isBlank ' ' = true
  newline : l.isBlank '\n' = true
  quotation : l.isBlank '"' = false ∧ l.isMark '"' = true
  punctuation : ∀ c token, punctuation? c = some token → l.isBlank c = false ∧ l.isMark c = false
  word : ∀ c, isWordChar c = true → l.isBlank c = false ∧ l.isMark c = false

theorem punctuation_ne_slash {c : Char} {token : Token} (h : punctuation? c = some token) :
    c ≠ '/' := by
  rintro rfl
  cases h

theorem wordChar_plain {c : Char} (word : isWordChar c = true) :
    punctuation? c = none ∧ c ≠ '/' := by
  constructor
  · unfold punctuation?
    split
    case h_7 => rfl
    all_goals cases word
  · rintro rfl
    cases word

namespace Lexicon

def Ends (l : Lexicon) (text : List Char) : Prop :=
  ∀ c, text.head? = some c → l.isBlank c = true ∨ ∃ token, punctuation? c = some token

/-- Whether a text is read as some tokens, whatever follows that does not go on with the last. -/
def Spells (l : Lexicon) (text : List Char) (tokens : List Token) : Prop :=
  ∀ rest, l.Ends rest →
    l.tokensFrom? .between (text ++ rest) = (l.tokensFrom? .between rest).map (tokens ++ ·)

variable {l : Lexicon}

theorem tokensFrom_cons (scan : Scan) (c : Char) (rest : List Char) :
    l.tokensFrom? scan (c :: rest) = (l.step scan c).bind fun next =>
      (l.tokensFrom? next.2 rest).map (next.1 ++ ·) := by
  rw [tokensFrom?]
  cases l.step scan c with
  | none => rfl
  | some next =>
    simp only [Option.bind_some, Option.bind_eq_bind]
    cases l.tokensFrom? next.2 rest <;> rfl

theorem tokensFrom_moved {scan next : Scan} {c : Char} (moved : l.step scan c = some ([], next))
    (rest : List Char) : l.tokensFrom? scan (c :: rest) = l.tokensFrom? next rest := by
  rw [tokensFrom_cons, moved]
  simp

theorem stepBetween_blank {c : Char} (blank : l.isBlank c = true) :
    l.stepBetween c = ([], .between) := if_pos blank

theorem tokensFrom_blank {c : Char} (blank : l.isBlank c = true) (rest : List Char) :
    l.tokensFrom? .between (c :: rest) = l.tokensFrom? .between rest :=
  tokensFrom_moved (by rw [step, stepBetween_blank blank]) rest

theorem Ends.nil : l.Ends [] := nofun

theorem Ends.blank {c : Char} (blank : l.isBlank c = true) (rest : List Char) :
    l.Ends (c :: rest) := by
  rintro _ ⟨⟩
  exact .inl blank

theorem Ends.punctuation {c : Char} {token : Token} (h : punctuation? c = some token)
    (rest : List Char) : l.Ends (c :: rest) := by
  rintro _ ⟨⟩
  exact .inr ⟨token, h⟩

theorem Spells.tokens {text : List Char} {tokens : List Token} (spells : l.Spells text tokens) :
    l.tokens? text = some tokens := by
  have whole := spells [] Ends.nil
  rw [List.append_nil] at whole
  rw [tokens?, whole]
  simp [tokensFrom?, finish?]

theorem Spells.nil : l.Spells [] [] := fun rest _ => by simp

theorem Spells.append {a b : List Char} {s t : List Token} (first : l.Spells a s)
    (second : l.Spells b t) (ends : ∀ rest, l.Ends (b ++ rest)) : l.Spells (a ++ b) (s ++ t) := by
  intro rest free
  rw [List.append_assoc, first _ (ends rest), second rest free, Option.map_map]
  simp [Function.comp_def]

theorem Spells.blank {c : Char} (blank : l.isBlank c = true) {text : List Char}
    {tokens : List Token} (spells : l.Spells text tokens) : l.Spells (c :: text) tokens := by
  intro rest free
  rw [List.cons_append, tokensFrom_blank blank, spells rest free]

variable (knows : l.KnowsJson)

include knows

theorem stepBetween_punctuation {c : Char} {token : Token} (h : punctuation? c = some token) :
    l.stepBetween c = ([token], .between) := by
  obtain ⟨blank, mark⟩ := knows.punctuation c token h
  simp [stepBetween, blank, mark, punctuation_ne_slash h, h]

theorem stepBetween_word {c : Char} (word : isWordChar c = true) :
    l.stepBetween c = ([], .inBare [c]) := by
  obtain ⟨blank, mark⟩ := knows.word c word
  obtain ⟨plain, slash⟩ := wordChar_plain word
  simp [stepBetween, blank, mark, plain, slash]

theorem Spells.punctuation {c : Char} {token : Token} (h : punctuation? c = some token)
    {text : List Char} {tokens : List Token} (spells : l.Spells text tokens) :
    l.Spells (c :: text) (token :: tokens) := by
  intro rest free
  rw [List.cons_append, tokensFrom_cons, step, stepBetween_punctuation knows h, Option.bind_some,
    spells rest free, Option.map_map]
  rfl

theorem Spells.close {c : Char} {token : Token} (h : punctuation? c = some token) :
    l.Spells [c] [token] :=
  Spells.punctuation knows h .nil

theorem Spells.comma {a b : List Char} {s t : List Token} (first : l.Spells a s)
    (second : l.Spells b t) : l.Spells (a ++ ',' :: b) (s ++ .comma :: t) :=
  first.append (Spells.punctuation knows rfl second) fun _ => Ends.punctuation rfl _

theorem Spells.onLine (level : Nat) {text : List Char} {tokens : List Token}
    (spells : l.Spells text tokens) : l.Spells (newLine level ++ text) tokens := by
  have indented : ∀ n, l.Spells (List.replicate n ' ' ++ text) tokens := by
    intro n
    induction n with
    | zero => exact spells
    | succ n ih => exact ih.blank knows.space
  exact (indented (2 * level)).blank knows.newline

theorem tokensFrom_word (read word rest : List Char) (all : ∀ c ∈ word, isWordChar c = true) :
    l.tokensFrom? (.inBare read) (word ++ rest) =
      l.tokensFrom? (.inBare (word.reverse ++ read)) rest := by
  induction word generalizing read with
  | nil => rfl
  | cons c more ih =>
    obtain ⟨first, others⟩ := List.forall_mem_cons.mp all
    have moved : l.step (.inBare read) c = some ([], .inBare (c :: read)) := by
      rw [step, stepBetween_word knows first]
    rw [List.cons_append, tokensFrom_moved moved, ih (c :: read) others]
    simp

theorem tokensFrom_ended (read : List Char) {rest : List Char} (ends : l.Ends rest) :
    l.tokensFrom? (.inBare read) rest =
      (l.tokensFrom? .between rest).map (.atom (.bare read.reverse) :: ·) := by
  cases rest with
  | nil => rfl
  | cons c more =>
    rw [tokensFrom_cons, tokensFrom_cons, step, step]
    rcases ends c rfl with blank | ⟨token, h⟩
    · rw [stepBetween_blank blank]
      simp
    · rw [stepBetween_punctuation knows h]
      simp [Function.comp_def]

theorem Spells.word {word : List Char} (nonempty : word ≠ [])
    (all : word.all isWordChar = true) : l.Spells word [.atom (.bare word)] := by
  obtain ⟨c, more, rfl⟩ := List.exists_cons_of_ne_nil nonempty
  obtain ⟨first, others⟩ := List.forall_mem_cons.mp (List.all_eq_true.mp all)
  intro rest free
  have moved : l.step .between c = some ([], .inBare [c]) := by
    rw [step, stepBetween_word knows first]
  rw [List.cons_append, tokensFrom_moved moved, tokensFrom_word knows [c] more rest others,
    tokensFrom_ended knows _ free]
  simp

omit knows

theorem tokensFrom_plain (read : List Char) {c : Char} (notMark : c ≠ '"') (notBackslash : c ≠ '\\')
    (rest : List Char) :
    l.tokensFrom? (.inQuoted '"' read) (c :: rest) =
      l.tokensFrom? (.inQuoted '"' (c :: read)) rest :=
  tokensFrom_moved (by simp [step, notMark, notBackslash]) rest

theorem tokensFrom_escaped (read : List Char) (c : Char) (rest : List Char) :
    l.tokensFrom? (.inQuoted '"' read) ('\\' :: c :: rest) =
      l.tokensFrom? (.inQuoted '"' (c :: '\\' :: read)) rest := by
  have backslash : l.step (.inQuoted '"' read) '\\' =
      some ([], .afterBackslash '"' ('\\' :: read)) := rfl
  rw [tokensFrom_moved backslash]
  exact tokensFrom_moved rfl rest

theorem hexDigit_plain {n : Nat} (small : n < 16) : hexDigit n ≠ '"' ∧ hexDigit n ≠ '\\' := by
  have all : ∀ n < 16, hexDigit n ≠ '"' ∧ hexDigit n ≠ '\\' := by decide
  exact all n small

theorem tokensFrom_escapeChar (read : List Char) (c : Char) (rest : List Char) :
    l.tokensFrom? (.inQuoted '"' read) (escapeChar c ++ rest) =
      l.tokensFrom? (.inQuoted '"' ((escapeChar c).reverse ++ read)) rest := by
  unfold escapeChar
  split
  case h_8 =>
    rename_i notMark notBackslash _ _ _ _ _
    split
    · rename_i control
      obtain ⟨high, high'⟩ := hexDigit_plain (n := c.toNat / 16) (by omega)
      obtain ⟨low, low'⟩ := hexDigit_plain (n := c.toNat % 16) (by omega)
      simp only [List.cons_append, List.nil_append]
      rw [tokensFrom_escaped, tokensFrom_plain _ (by decide) (by decide),
        tokensFrom_plain _ (by decide) (by decide), tokensFrom_plain _ high high',
        tokensFrom_plain _ low low']
      rfl
    · exact tokensFrom_plain read notMark notBackslash rest
  all_goals exact tokensFrom_escaped read _ rest

theorem tokensFrom_escape (read text rest : List Char) :
    l.tokensFrom? (.inQuoted '"' read) (escape text ++ rest) =
      l.tokensFrom? (.inQuoted '"' ((escape text).reverse ++ read)) rest := by
  induction text generalizing read with
  | nil => rfl
  | cons c more ih =>
    have apart : escape (c :: more) = escapeChar c ++ escape more := List.flatMap_cons
    rw [apart, List.append_assoc, tokensFrom_escapeChar, ih]
    simp

include knows

theorem Spells.quoted (text : String) {behind : List Char} {tokens : List Token}
    (spells : l.Spells behind tokens) :
    l.Spells (quote text ++ behind) (.atom (keyAtom text) :: tokens) := by
  intro rest free
  have opened : l.step .between '"' = some ([], .inQuoted '"' []) := by
    simp [step, stepBetween, knows.quotation]
  have closed : ∀ read, l.step (.inQuoted '"' read) '"' =
      some ([.atom (.quoted '"' read.reverse)], .between) := fun read => rfl
  have cut : quote text ++ behind ++ rest =
      '"' :: (escape text.toList ++ '"' :: (behind ++ rest)) := by
    simp [quote]
  rw [cut, tokensFrom_moved opened, tokensFrom_escape, tokensFrom_cons, closed, Option.bind_some,
    spells rest free, Option.map_map]
  simp [keyAtom, Function.comp_def]

theorem spells_scalar {x : Scalar} (readable : x.Readable) : l.Spells x.format [.atom x.atom] := by
  cases x with
  | null => exact .word knows (by decide) rfl
  | bool b => cases b <;> exact .word knows (by decide) rfl
  | number n =>
    obtain ⟨w, read, -⟩ := Option.bind_eq_some_iff.mp readable
    have all := List.all_eq_true.mpr fun c member => wordChar_of_mem_written read member
    exact .word knows (written_ne_nil read) all
  | text s =>
    have quoted := Spells.quoted knows s (l := l) .nil
    rwa [List.append_nil] at quoted

theorem Spells.block {o c : Char} {opening closing : Token} (opens : punctuation? o = some opening)
    (closes : punctuation? c = some closing) (level : Nat) {text : List Char} {tokens : List Token}
    (inner : l.Spells text tokens) :
    l.Spells (o :: text ++ newLine level ++ [c]) (opening :: tokens ++ [closing]) := by
  have last := Spells.onLine knows level (Spells.close knows closes)
  rw [List.append_assoc]
  exact (Spells.punctuation knows opens inner).append last fun _ => Ends.blank knows.newline _

theorem spells_prettyItems (level : Nat) {items : List Value}
    (each : ∀ item ∈ items, l.Spells (item.prettyChars level) item.tokens) :
    l.Spells (prettyItems level items) (itemTokens items) := by
  induction items with
  | nil => exact Spells.nil
  | cons item more ih =>
    obtain ⟨first, others⟩ := List.forall_mem_cons.mp each
    have line := Spells.onLine knows level first
    cases more with
    | nil => exact line
    | cons next rest => exact line.comma knows (ih others)

theorem spells_prettyFields (level : Nat) {fields : List (String × Value)}
    (each : ∀ field ∈ fields, l.Spells (field.2.prettyChars level) field.2.tokens) :
    l.Spells (prettyFields level fields) (fieldTokens fields) := by
  induction fields with
  | nil => exact Spells.nil
  | cons field more ih =>
    obtain ⟨first, others⟩ := List.forall_mem_cons.mp each
    have named : l.Spells (':' :: ' ' :: field.2.prettyChars level) (.colon :: field.2.tokens) :=
      Spells.punctuation knows rfl (first.blank knows.space)
    have line := Spells.onLine knows level (Spells.quoted knows field.1 named)
    rw [← List.append_assoc] at line
    cases more with
    | nil => exact line
    | cons next rest => exact line.comma knows (ih others)

theorem spells_pretty {v : Value} (readable : v.Readable) :
    ∀ level, l.Spells (v.prettyChars level) v.tokens := by
  induction readable with
  | leaf readable => exact fun _ => spells_scalar knows readable
  | @array items _ ih =>
    intro level
    have inner : l.Spells (prettyItems (level + 1) items) (itemTokens items) :=
      spells_prettyItems knows (level + 1) fun item member => ih item member (level + 1)
    cases items with
    | nil => exact Spells.punctuation knows rfl (Spells.close knows rfl)
    | cons item more => exact inner.block knows rfl rfl level
  | @object fields _ _ ih =>
    intro level
    have inner : l.Spells (prettyFields (level + 1) fields) (fieldTokens fields) :=
      spells_prettyFields knows (level + 1) fun field member => ih field member (level + 1)
    cases fields with
    | nil => exact Spells.punctuation knows rfl (Spells.close knows rfl)
    | cons field more => exact inner.block knows rfl rfl level

theorem spells_compactItems {items : List Value}
    (each : ∀ item ∈ items, l.Spells item.compactChars item.tokens) :
    l.Spells (compactItems items) (itemTokens items) := by
  induction items with
  | nil => exact Spells.nil
  | cons item more ih =>
    obtain ⟨first, others⟩ := List.forall_mem_cons.mp each
    cases more with
    | nil => exact first
    | cons next rest => exact first.comma knows (ih others)

theorem spells_compactFields {fields : List (String × Value)}
    (each : ∀ field ∈ fields, l.Spells field.2.compactChars field.2.tokens) :
    l.Spells (compactFields fields) (fieldTokens fields) := by
  induction fields with
  | nil => exact Spells.nil
  | cons field more ih =>
    obtain ⟨first, others⟩ := List.forall_mem_cons.mp each
    have colon : l.Spells (':' :: field.2.compactChars) (.colon :: field.2.tokens) :=
      Spells.punctuation knows rfl first
    have named := Spells.quoted knows field.1 colon
    cases more with
    | nil => exact named
    | cons next rest => exact named.comma knows (ih others)

theorem Spells.bracketed {o c : Char} {opening closing : Token}
    (opens : punctuation? o = some opening) (closes : punctuation? c = some closing)
    {text : List Char} {tokens : List Token} (inner : l.Spells text tokens) :
    l.Spells (o :: text ++ [c]) (opening :: tokens ++ [closing]) :=
  (Spells.punctuation knows opens inner).append (Spells.close knows closes) fun _ =>
    Ends.punctuation closes _

theorem spells_compact {v : Value} (readable : v.Readable) : l.Spells v.compactChars v.tokens := by
  induction readable with
  | leaf readable => exact spells_scalar knows readable
  | array _ ih => exact (spells_compactItems knows ih).bracketed knows rfl rfl
  | object _ _ ih => exact (spells_compactFields knows ih).bracketed knows rfl rfl

end Lexicon

theorem grammar_knowsJson : grammar.lexicon.KnowsJson where
  space := rfl
  newline := rfl
  quotation := by decide
  punctuation c token h := by
    unfold punctuation? at h
    split at h
    case h_7 => cases h
    all_goals decide
  word c word := by
    have apart : ∀ other, isWordChar other = false → c ≠ other := by
      rintro _ plain rfl
      rw [plain] at word
      cases word
    simp [grammar, apart ' ' rfl, apart '\t' rfl, apart '\n' rfl, apart '\r' rfl, apart '"' rfl]

end SourcePages.Json
