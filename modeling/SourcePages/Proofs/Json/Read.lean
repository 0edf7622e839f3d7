import SourcePages.Proofs.Json.Token

namespace SourcePages.Json

def Value.image {κ α : Type} (key : String → κ) (leaf : Scalar → α) : Value → Tree κ α
  | .leaf x => .leaf (leaf x)
  | .array items => .array (items.map fun item => Value.image key leaf item)
  | .object fields =>
    .object (fields.map fun field => (key field.1, Value.image key leaf field.2))
decreasing_by
  · decreasing_tactic
  · rename_i member
    have smaller := List.sizeOf_lt_of_mem member
    obtain ⟨name, value⟩ := field
    simp only [Prod.mk.sizeOf_spec, Tree.object.sizeOf_spec] at smaller ⊢
    omega

theorem Value.Each.imp {onKey onKey' : String → Prop} {onLeaf onLeaf' : Scalar → Prop}
    (keys : ∀ key, onKey key → onKey' key) (leaves : ∀ x, onLeaf x → onLeaf' x) {v : Value}
    (each : v.Each onKey onLeaf) : v.Each onKey' onLeaf' := by
  induction each with
  | leaf holds => exact .leaf (leaves _ holds)
  | array _ ih => exact .array ih
  | object known _ ih => exact .object (fun field member => keys _ (known field member)) ih

theorem Value.Each.image_self {onKey : String → Prop} {onLeaf : Scalar → Prop} {v : Value}
    (each : v.Each onKey onLeaf) : v.image id id = v := by
  induction each with
  | leaf _ => rw [Value.image, id]
  | array _ ih => rw [Value.image, List.map_congr_left ih, List.map_id']
  | object _ _ ih =>
    have same := fun field member => congrArg (Prod.mk field.1) (ih field member)
    rw [Value.image]
    simp only [id] at same ⊢
    rw [List.map_congr_left same, List.map_id']

namespace Grammar

variable {κ α : Type}

abbrev Takes (g : Grammar κ α) (key : String → κ) (leaf : Scalar → α) : Value → Prop :=
  Value.Each (fun name => g.key? (keyAtom name) = some (key name))
    (fun x => g.leaf? x.atom = some (leaf x))

variable {g : Grammar κ α} {key : String → κ} {leaf : Scalar → α}

theorem fold_items {items : List Value} (nonempty : items ≠ [])
    (each : ∀ item ∈ items, ∀ outer mayClose, item.tokens.foldlM g.step (.value outer mayClose) =
      some (.complete outer (item.image key leaf)))
    (outer : List (Frame κ α)) (done : List (Tree κ α)) (mayClose : Bool) :
    (itemTokens items ++ [Token.closeArray]).foldlM g.step
        (.value (.array done :: outer) mayClose) =
      some (.complete outer (.array (done.reverse ++ items.map (Value.image key leaf)))) := by
  -- Once its first item is done, the rest is read as the items of an array that holds it.
  induction items generalizing done mayClose with
  | nil => exact absurd rfl nonempty
  | cons item more ih =>
    obtain ⟨first, others⟩ := List.forall_mem_cons.mp each
    cases more with
    | nil =>
      rw [itemTokens, List.foldlM_append, first]
      simp [step]
    | cons next rest =>
      have later := ih (List.cons_ne_nil _ _) others (item.image key leaf :: done) g.trailingComma
      have cut : itemTokens (item :: next :: rest) ++ [Token.closeArray] =
          item.tokens ++ .comma :: (itemTokens (next :: rest) ++ [Token.closeArray]) := by
        simp [itemTokens]
      rw [cut, List.foldlM_append, first, Option.bind_eq_bind, Option.bind_some, List.foldlM_cons]
      simpa [step] using later

theorem fold_fields {fields : List (String × Value)} (nonempty : fields ≠ [])
    (keys : ∀ field ∈ fields, g.key? (keyAtom field.1) = some (key field.1))
    (each : ∀ field ∈ fields, ∀ outer mayClose,
      field.2.tokens.foldlM g.step (.value outer mayClose) =
        some (.complete outer (field.2.image key leaf)))
    (outer : List (Frame κ α)) (done : List (κ × Tree κ α)) (mayClose : Bool) :
    (fieldTokens fields ++ [Token.closeObject]).foldlM g.step (.key outer done mayClose) =
      some (.complete outer (.object
        (done.reverse ++ fields.map fun field => (key field.1, field.2.image key leaf)))) := by
  induction fields generalizing done mayClose with
  | nil => exact absurd rfl nonempty
  | cons field more ih =>
    obtain ⟨first, others⟩ := List.forall_mem_cons.mp each
    obtain ⟨named, otherKeys⟩ := List.forall_mem_cons.mp keys
    have opened : ∀ tokens,
        (Token.atom (keyAtom field.1) :: .colon :: (field.2.tokens ++ tokens)).foldlM g.step
          (.key outer done mayClose) =
        tokens.foldlM g.step
          (.complete (.field done (key field.1) :: outer) (field.2.image key leaf)) := by
      intro tokens
      simp [step, named, first, List.foldlM_append]
    cases more with
    | nil =>
      have cut : fieldTokens [field] ++ [Token.closeObject] =
          .atom (keyAtom field.1) :: .colon :: (field.2.tokens ++ [.closeObject]) := by
        simp [fieldTokens]
      rw [cut, opened]
      simp [step]
    | cons next rest =>
      have later := ih (List.cons_ne_nil _ _) otherKeys others
        ((key field.1, field.2.image key leaf) :: done) g.trailingComma
      have cut : fieldTokens (field :: next :: rest) ++ [Token.closeObject] =
          .atom (keyAtom field.1) :: .colon ::
            (field.2.tokens ++ .comma :: (fieldTokens (next :: rest) ++ [.closeObject])) := by
        simp [fieldTokens]
      rw [cut, opened, List.foldlM_cons]
      simpa [step] using later

theorem fold_tokens {v : Value} (takes : g.Takes key leaf v) :
    ∀ outer mayClose, v.tokens.foldlM g.step (.value outer mayClose) =
      some (.complete outer (v.image key leaf)) := by
  induction takes with
  | leaf read =>
    intro outer mayClose
    simp [Value.tokens, step, read, Value.image]
  | @array items _ ih =>
    intro outer mayClose
    rw [Value.image]
    cases items with
    | nil => rfl
    | cons item more => exact fold_items (List.cons_ne_nil _ _) ih outer [] true
  | @object fields keys _ ih =>
    intro outer mayClose
    rw [Value.image]
    cases fields with
    | nil => rfl
    | cons field more => exact fold_fields (List.cons_ne_nil _ _) keys ih outer [] true

theorem ofTokens_tokens {v : Value} (takes : g.Takes key leaf v) :
    g.ofTokens? v.tokens = some (v.image key leaf) := by
  rw [ofTokens?, fold_tokens takes]

end Grammar

theorem quotedText_escape (text : String) :
    quotedText? (.quoted '"' (escape text.toList)) = some text := by
  rw [quotedText?, unescape_escape, Option.map_some, String.ofList_toList]

theorem scalar_atom {x : Scalar} (readable : x.Readable) : scalar? x.atom = some x := by
  cases x with
  | null => rfl
  | bool b => cases b <;> rfl
  | number n =>
    have number : Number.read? n.format.toList = some n := readable
    have other : ∀ {word : List Char}, Number.read? word = none → n.format.toList ≠ word := by
      rintro _ unread rfl
      rw [unread] at number
      cases number
    simp only [Scalar.atom, Scalar.format, scalar?]
    rw [if_neg (other rfl), if_neg (other rfl), if_neg (other rfl), number, Option.map_some]
  | text s =>
    exact congrArg (Option.map Scalar.text) (quotedText_escape s)

theorem read_pretty {v : Value} (readable : v.Readable) : grammar.read? v.pretty = some v := by
  have takes : grammar.Takes id id v :=
    readable.imp (fun key _ => quotedText_escape key) fun _ => scalar_atom
  have tokens := (Lexicon.spells_pretty grammar_knowsJson readable 0).tokens
  rw [Grammar.read?, Value.pretty, String.toList_ofList, tokens, Option.bind_some,
    Grammar.ofTokens_tokens takes, readable.image_self]

end SourcePages.Json
