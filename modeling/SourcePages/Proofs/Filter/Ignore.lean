import SourcePages.Proofs.Filter.Engine
import SourcePages.Proofs.Filter.Include
import SourcePages.Proofs.Glob.Loosening

namespace SourcePages

/-- Whether a directory on the way to a path has the name of one of dependencies or of builds. -/
def belowDependency (path : String) : Bool :=
  (Text.segments path).dropLast.any dependencyDirectories.contains

namespace Glob

theorem spans_literals {keepsSlashes : Bool} {name : List Char} {ts : List Token} {x : List UInt8} :
    Spans keepsSlashes (name.map .literal ++ ts) x ↔
      ∃ z, x = Text.encode name ++ z ∧ Spans keepsSlashes ts z := by
  induction name generalizing x with
  | nil => simp [Text.encode]
  | cons c rest ih =>
    rw [List.map_cons, List.cons_append, spans_literal]
    simp only [ih, Text.encode_cons, List.append_assoc]
    constructor
    · rintro ⟨_, rfl, z, rfl, spans⟩
      exact ⟨z, rfl, spans⟩
    · rintro ⟨z, rfl, spans⟩
      exact ⟨_, rfl, z, rfl, spans⟩

theorem eq_of_encode_append {name other : List Char} {x y : List UInt8} (plain : '/' ∉ name)
    (plain' : '/' ∉ other) (ends : ∀ b ∈ y.head?, b = slash) (slashed : x.head? = some slash)
    (same : Text.encode other ++ y = Text.encode name ++ x) : other = name ∧ x = y := by
  have starts : ∀ b ∈ x.head?, Text.begins b = true := by
    rw [slashed]
    rintro _ ⟨⟩
    decide
  obtain ⟨a, b, rfl, front, rfl⟩ := exists_cut same (slash_not_mem_encode plain) ends starts
  obtain rfl : b = [] := by
    cases b with
    | nil => rfl
    | cons c more =>
      obtain ⟨first, others, bytes, -⟩ := Text.exists_encodeChar c
      rw [Text.encode_cons, bytes] at slashed
      have inside : slash ∈ Text.encode (c :: more) := by
        rw [Text.encode_cons, bytes, ← Option.some.inj slashed]
        exact List.mem_cons_self
      have later : '/' ∉ c :: more := fun member => plain' (List.mem_append_right a member)
      exact absurd inside (slash_not_mem_encode later)
  have whole := congrArg Text.decode? front
  rw [Text.decode_encode, Text.decode_encode] at whole
  exact ⟨by rw [List.append_nil, Option.some.inj whole], rfl⟩

end Glob

theorem mem_dropLast {α : Type} {a : α} {l : List α} :
    a ∈ l.dropLast ↔ ∃ before behind, l = before ++ a :: behind ∧ behind ≠ [] := by
  constructor
  · intro member
    obtain ⟨before, behind, parts⟩ := List.append_of_mem member
    have filled : l ≠ [] := by
      rintro rfl
      cases member
    refine ⟨before, behind ++ [l.getLast filled], ?_, by simp⟩
    rw [← List.cons_append, ← List.append_assoc, ← parts, List.dropLast_append_getLast]
  · rintro ⟨before, behind, rfl, filled⟩
    rw [List.dropLast_append_cons, List.dropLast_cons_of_ne_nil filled]
    exact List.mem_append_right _ List.mem_cons_self

theorem looksAtName_belowName (name : String) : (belowName name).looksAtName = false := by
  have isName : (belowName name).isName = false := by
    simp [belowName, Glob.Pattern.isName, Glob.Token.isNameChar]
  have isExtension : (belowName name).isExtension = false := by
    cases parts : name.toList <;> simp [belowName, Glob.Pattern.isExtension, parts]
  have ending : Glob.endsInExtension (belowName name).tokens.reverse = false := by
    simp [belowName, Glob.endsInExtension]
  rw [Glob.Pattern.looksAtName, isName, isExtension, ending, Bool.and_false]
  rfl

theorem accepts_belowName_iff {name path : String} (plain : '/' ∉ name.toList) :
    (belowName name).accepts path = true ↔ name ∈ (Text.segments path).dropLast := by
  obtain ⟨first, rest, parts⟩ := List.exists_cons_of_ne_nil (pathSegments_ne_nil path)
  have plain' : ∀ segment ∈ first :: rest, '/' ∉ segment :=
    fun segment member => Text.not_mem_of_mem_split (parts ▸ member)
  have whole : Glob.slash :: Text.encode path.toList = Text.encode (Glob.slashed (first :: rest)) := by
    have joined := Text.join_split '/' path.toList
    rw [← pathSegments, parts, Glob.join_eq_slashed] at joined
    rw [← joined, Text.encode_append, Glob.encode_slashed_cons]
  have matched : (belowName name).accepts path = true ↔
      ∃ before behind, first :: rest = before ++ name.toList :: behind ∧ behind ≠ [] := by
    rw [Glob.Pattern.accepts, looksAtName_belowName, Bool.not_false, Bool.true_or, Bool.true_and,
      Glob.Pattern.matches, belowName, Glob.matchesBytes_iff, or_iff_right (by simp),
      List.cons_append, Glob.spans_cons]
    simp only [Glob.mem_leading, whole, Glob.suffix_slashed plain', Glob.spans_literals,
      Glob.spans_trailing]
    constructor
    · rintro ⟨_, ⟨before, other, behind, inside, rfl⟩, z, cut, slashed⟩
      have ends := Glob.head_encode_slashed behind
      have here : '/' ∉ other := plain' other (by simp [inside])
      obtain ⟨rfl, rfl⟩ := Glob.eq_of_encode_append plain here ends slashed cut
      refine ⟨before, behind, inside, ?_⟩
      rintro rfl
      cases slashed
    · rintro ⟨before, behind, inside, filled⟩
      obtain ⟨next, more, rfl⟩ := List.exists_cons_of_ne_nil filled
      refine ⟨_, ⟨before, name.toList, next :: more, inside, rfl⟩, _, rfl, ?_⟩
      rw [Glob.encode_slashed_cons]
      rfl
  have segments : Text.segments path = (first :: rest).map String.ofList := by
    rw [← parts]
    rfl
  rw [matched, ← mem_dropLast, segments, ← List.map_dropLast, List.mem_map]
  constructor
  · exact fun member => ⟨_, member, String.ofList_toList⟩
  · rintro ⟨piece, member, rfl⟩
    rwa [String.toList_ofList]

theorem ignores_dependencies (f : IgnoreFilter) (path : String) (isDirectory : Bool) :
    ({ f with dependencies := skippedPatterns true } : IgnoreFilter).ignores path isDirectory =
      (belowDependency path ||
        ({ f with dependencies := skippedPatterns false } : IgnoreFilter).ignores path
          isDirectory) := by
  have plain : ∀ name ∈ dependencyDirectories, '/' ∉ name.toList := by decide
  have none : (skippedPatterns false).any (·.accepts path) = false := rfl
  have below : (skippedPatterns true).any (·.accepts path) = belowDependency path := by
    rw [skippedPatterns, if_pos rfl, List.any_map, Bool.eq_iff_iff, List.any_eq_true,
      belowDependency, List.any_eq_true]
    constructor
    · rintro ⟨name, member, accepted⟩
      exact ⟨name, (accepts_belowName_iff (plain name member)).mp accepted,
        List.contains_iff_mem.mpr member⟩
    · rintro ⟨name, inside, member⟩
      have member := List.contains_iff_mem.mp member
      exact ⟨name, member, (accepts_belowName_iff (plain name member)).mpr inside⟩
  simp only [IgnoreFilter.ignores, below, none, Bool.false_or, Bool.or_assoc]

theorem trimHere_of_bare {text : List Char} (bare : ¬ ['.', '/'] <+: text) : trimHere text = text := by
  unfold trimHere
  split
  · rename_i rest
    exact absurd ⟨rest, rfl⟩ bare
  · rfl

theorem readIgnores_ok [Glob.Engine] {texts : List String} {patterns : List Glob.Pattern}
    (made : readIgnores texts = .ok patterns) : texts.mapM (Glob.read false) = .ok patterns := by
  obtain ⟨found, read, later⟩ := bind_ok made
  obtain ⟨_, -, same⟩ := bind_ok later
  cases same
  exact read

theorem Selector.accepts_of_takes [Glob.Engine] {text path : String} {s : Selector}
    {p : Glob.Pattern}
    (bare : ¬ ['.', '/'] <+: text.toList) (selected : Selector.read text = .ok s)
    (read : Glob.read false text = .ok p) (named : path ≠ "" → Glob.hasName path = true)
    (taken : s.takes path = true) : p.accepts path = true := by
  obtain ⟨-, whole, -⟩ := Selector.read_ok selected
  rw [wholePattern, trimHere_of_bare bare, String.ofList_toList] at whole
  obtain ⟨strict, tokens⟩ := Glob.read_ok_iff.mp whole
  obtain ⟨loose, tokens'⟩ := Glob.read_ok_iff.mp read
  obtain ⟨_, ⟨ts, keeps⟩, dotted⟩ := s
  obtain ⟨us, keeps'⟩ := p
  dsimp only at strict tokens loose tokens'
  cases loose
  obtain rfl := Except.ok.inj (tokens.symm.trans tokens')
  exact Glob.Pattern.accepts_loosened named (Bool.and_eq_true_iff.mp taken).1

theorem ignores_of_anyTakes [Glob.Engine] {text path : String} {ignores : List String}
    {selectors : List Selector} {f : IgnoreFilter} (bare : ¬ ['.', '/'] <+: text.toList)
    (selected : readSelectors [text] = .ok selectors) (read : readIgnores ignores = .ok f.patterns)
    (member : text ∈ ignores) (named : path ≠ "" → Glob.hasName path = true)
    (taken : anyTakes selectors path = true) (isDirectory : Bool) :
    f.ignores path isDirectory = true := by
  obtain ⟨s, inside, taken⟩ := List.any_eq_true.mp taken
  obtain ⟨p, among, loose⟩ := (mapM_members (readIgnores_ok read)).1 text member
  obtain ⟨only, same, strict⟩ := (mapM_members (readSelectors_ok selected).1).2 s inside
  obtain rfl := List.mem_singleton.mp same
  have accepted := Selector.accepts_of_takes bare strict loose named taken
  have left : (f.patterns.any fun p => p.accepts path) = true :=
    List.any_eq_true.mpr ⟨p, among, accepted⟩
  rw [IgnoreFilter.ignores, left, Bool.or_true, Bool.true_or]

end SourcePages
