import SourcePages.Filter.Include
import SourcePages.Proofs.Glob.Segments
import SourcePages.Proofs.Outcome

namespace SourcePages

def patternSegments (text : String) : List (List Char) := Text.split '/' (trimHere text.toList)

def pathSegments (path : String) : List (List Char) := Text.split '/' path.toList

theorem pathSegments_join {names : List (List Char)} (filled : names ≠ [])
    (plain : ∀ name ∈ names, '/' ∉ name) :
    pathSegments (String.ofList (Text.join ['/'] names)) = names := by
  have each : ∀ name ∈ names, Text.split '/' name = [name] :=
    fun name member => Text.split_of_not_mem (plain name member)
  rw [pathSegments, String.toList_ofList, Text.split_join filled, List.flatMap_congr each,
    ← List.map_eq_flatMap, List.map_id']

theorem pathSegments_ne_nil (path : String) : pathSegments path ≠ [] := Text.split_ne_nil '/' _

def Hidden (name : List Char) : Prop :=
  name.head? = some '.' ∧ name ≠ ['.'] ∧ name ≠ ['.', '.']

instance : DecidablePred Hidden := fun _ => inferInstanceAs (Decidable (_ ∧ _))

theorem isHidden_iff {name : String} : isHidden name = true ↔ Hidden name.toList := by
  simp [isHidden, Hidden, ← String.toList_inj, and_assoc]

theorem mem_hidden_iff {text name : String} : name ∈ (Text.segments text).filter isHidden ↔
    name.toList ∈ pathSegments text ∧ Hidden name.toList := by
  rw [List.mem_filter, isHidden_iff, Text.segments, List.mem_map]
  refine and_congr_left fun _ => ⟨?_, fun member => ⟨_, member, String.ofList_toList⟩⟩
  rintro ⟨chars, member, rfl⟩
  rwa [String.toList_ofList]

theorem mem_hidden_segments {text name : String} :
    name ∈ (Text.segments (String.ofList (trimHere text.toList))).filter isHidden ↔
      name.toList ∈ patternSegments text ∧ Hidden name.toList := by
  rw [mem_hidden_iff, pathSegments, String.toList_ofList, patternSegments]

def wholePattern (text : String) : Except Glob.Refusal Glob.Pattern :=
  Glob.read true (String.ofList (trimHere text.toList))

/-- Whether an engine takes each dotted segment of some patterns on its own. -/
def DottedTaken [Glob.Engine] (patterns : List String) : Prop :=
  ∀ text ∈ patterns, ∀ segment ∈ patternSegments text, Hidden segment →
    ∀ p, Glob.read false (String.ofList segment) = .ok p → Glob.Engine.takesAlone p = true

/-- Whether an engine takes all that is compiled of some patterns. -/
structure WithinLimits [Glob.Engine] (patterns : List String) : Prop where
  alone : DottedTaken patterns
  together : ∀ found, patterns.mapM wholePattern = .ok found → Glob.Engine.objection? found = none

theorem withinLimits_boundless (patterns : List String) : WithinLimits patterns :=
  ⟨fun _ _ _ _ _ _ _ => rfl, fun _ _ => rfl⟩

section

variable [Glob.Engine]

theorem Selector.read_ok {text : String} {s : Selector} (made : Selector.read text = .ok s) :
    s.text = String.ofList (trimHere text.toList) ∧ wholePattern text = .ok s.pattern ∧
      ((Text.segments s.text).filter isHidden).mapM Glob.readAlone = .ok s.dotted := by
  obtain ⟨pattern, whole, later⟩ := bind_ok made
  obtain ⟨dotted, pieces, same⟩ := bind_ok later
  cases same
  exact ⟨rfl, whole, pieces⟩

theorem Selector.read_ok_iff {text : String} : (∃ s, Selector.read text = .ok s) ↔
    (∃ p, wholePattern text = .ok p) ∧ ∀ segment ∈ patternSegments text, Hidden segment →
      ∃ p, Glob.readAlone (String.ofList segment) = .ok p := by
  constructor
  · rintro ⟨s, made⟩
    obtain ⟨same, whole, pieces⟩ := Selector.read_ok made
    refine ⟨⟨_, whole⟩, fun segment member hidden => mapM_ok_iff.mp ⟨_, pieces⟩ _ ?_⟩
    rw [same, mem_hidden_segments, String.toList_ofList]
    exact ⟨member, hidden⟩
  · rintro ⟨⟨p, whole⟩, pieces⟩
    have each : ∀ segment ∈ (Text.segments (String.ofList (trimHere text.toList))).filter isHidden,
        ∃ p, Glob.readAlone segment = .ok p := by
      intro segment member
      obtain ⟨inside, hidden⟩ := mem_hidden_segments.mp member
      rw [← String.ofList_toList (s := segment)]
      exact pieces _ inside hidden
    obtain ⟨dotted, made⟩ := mapM_ok_iff.mpr each
    rw [wholePattern] at whole
    simp only [Selector.read, whole, made, ok_bind]
    exact ⟨_, rfl⟩

theorem readSelectors_ok {patterns : List String} {selectors : List Selector}
    (made : readSelectors patterns = .ok selectors) :
    patterns.mapM Selector.read = .ok selectors ∧
      Glob.Engine.objection? (selectors.map Selector.pattern) = none := by
  obtain ⟨found, read, later⟩ := bind_ok made
  obtain ⟨_, taken, same⟩ := bind_ok later
  cases same
  exact ⟨read, Glob.together_ok_iff.mp taken⟩

theorem readSelectors_ok_iff {patterns : List String} :
    (∃ selectors, readSelectors patterns = .ok selectors) ↔
      (∀ text ∈ patterns, (∃ p, wholePattern text = .ok p) ∧
        ∀ segment ∈ patternSegments text, Hidden segment →
          ∃ p, Glob.read false (String.ofList segment) = .ok p) ∧
      WithinLimits patterns := by
  constructor
  · rintro ⟨selectors, made⟩
    obtain ⟨read, taken⟩ := readSelectors_ok made
    have each := fun text member => Selector.read_ok_iff.mp (mapM_ok_iff.mp ⟨_, read⟩ text member)
    refine ⟨fun text member => ⟨(each text member).1, fun segment inside hidden => ?_⟩, ?_, ?_⟩
    · obtain ⟨p, alone⟩ := (each text member).2 segment inside hidden
      exact ⟨p, (Glob.readAlone_ok_iff.mp alone).1⟩
    · intro text member segment inside hidden p found
      obtain ⟨q, alone⟩ := (each text member).2 segment inside hidden
      obtain ⟨same, here⟩ := Glob.readAlone_ok_iff.mp alone
      cases found.symm.trans same
      exact here
    · intro found whole
      have wholes := mapM_map (fun _ _ made => (Selector.read_ok made).2.1) read
      cases whole.symm.trans wholes
      exact taken
  · rintro ⟨each, alone, together⟩
    have readable : ∀ text ∈ patterns, ∃ s, Selector.read text = .ok s := by
      intro text member
      refine Selector.read_ok_iff.mpr ⟨(each text member).1, fun segment inside hidden => ?_⟩
      obtain ⟨p, found⟩ := (each text member).2 segment inside hidden
      exact ⟨p, Glob.readAlone_ok_iff.mpr ⟨found, alone text member segment inside hidden p found⟩⟩
    obtain ⟨selectors, read⟩ := mapM_ok_iff.mpr readable
    have taken := together _ (mapM_map (fun _ _ made => (Selector.read_ok made).2.1) read)
    refine ⟨selectors, ?_⟩
    rw [readSelectors, read, ok_bind, Glob.together_ok_iff.mpr taken, ok_bind]
    rfl

end

/-- Whether each hidden name of a path fits a dotted segment of a pattern, wherever they stand. -/
def HiddenFit (pattern path : List (List Char)) : Prop :=
  ∀ name ∈ path, Hidden name → ∃ segment ∈ pattern, segment.head? = some '.' ∧ Fits segment name

theorem Fits.eq_of_plain {segment name : List Char} (fits : Fits segment name)
    (plain : '*' ∉ segment) : name = segment := by
  induction fits with
  | nil => rfl
  | char _ _ ih =>
    rw [ih fun inside => plain (List.mem_cons_of_mem _ inside)]
  | star => exact absurd List.mem_cons_self plain

theorem Hidden.of_fits {segment name : List Char} (hidden : Hidden name)
    (dotted : segment.head? = some '.') (fits : Fits segment name) : Hidden segment := by
  refine ⟨dotted, ?_, ?_⟩
  · rintro rfl
    exact hidden.2.1 (fits.eq_of_plain (by decide))
  · rintro rfl
    exact hidden.2.2 (fits.eq_of_plain (by decide))

namespace Selector

def ofText (text : String) : Selector where
  text := String.ofList (trimHere text.toList)
  pattern := ⟨Glob.inFront (Glob.tokensBehind false (patternSegments text)), true⟩
  dotted := ((Text.segments (String.ofList (trimHere text.toList))).filter isHidden).map
    fun segment => ⟨Glob.segmentTokens segment.toList, false⟩

theorem mem_dotted {text : String} {pattern : Glob.Pattern} :
    pattern ∈ (ofText text).dotted ↔ ∃ segment ∈ patternSegments text, Hidden segment ∧
      pattern = ⟨Glob.segmentTokens segment, false⟩ := by
  rw [ofText, List.mem_map]
  constructor
  · rintro ⟨segment, member, rfl⟩
    obtain ⟨member, hidden⟩ := mem_hidden_segments.mp member
    exact ⟨segment.toList, member, hidden, rfl⟩
  · rintro ⟨segment, member, hidden, rfl⟩
    refine ⟨String.ofList segment, mem_hidden_segments.mpr ?_, by rw [String.toList_ofList]⟩
    rw [String.toList_ofList]
    exact ⟨member, hidden⟩

section

variable {text : String} (spelled : ∀ segment ∈ patternSegments text, Glob.IsSpelled segment)

include spelled

theorem starred_of_hidden {segment : List Char} (member : segment ∈ patternSegments text)
    (hidden : Hidden segment) : IsStarred segment := by
  refine (spelled segment member).resolve_left ?_
  rintro rfl
  exact absurd hidden.1 (by decide)

theorem wholePattern_spelled : wholePattern text = .ok (ofText text).pattern := by
  have tokens := Glob.tokens_join false (Text.split_ne_nil '/' _) spelled
  rw [Text.join_split] at tokens
  rw [wholePattern, Glob.read_ok_iff, String.toList_ofList]
  exact ⟨rfl, tokens⟩

theorem read_hidden_spelled {segment : List Char} (member : segment ∈ patternSegments text)
    (hidden : Hidden segment) :
    Glob.read false (String.ofList segment) = .ok ⟨Glob.segmentTokens segment, false⟩ := by
  rw [Glob.read_ok_iff, String.toList_ofList]
  exact ⟨rfl, Glob.tokens_segment false (starred_of_hidden spelled member hidden)⟩

theorem eq_ofText [Glob.Engine] {s : Selector} (made : Selector.read text = .ok s) :
    s = ofText text := by
  obtain ⟨same, whole, pieces⟩ := Selector.read_ok made
  rw [same] at pieces
  -- Hidden segments are read once more, each on its own.
  have dotted : s.dotted = (ofText text).dotted := by
    refine mapM_values (fun segment member p alone => ?_) pieces
    obtain ⟨inside, hidden⟩ := mem_hidden_segments.mp member
    have read := read_hidden_spelled spelled inside hidden
    rw [String.ofList_toList] at read
    exact Except.ok.inj ((Glob.readAlone_ok_iff.mp alone).1.symm.trans read)
  obtain ⟨text', pattern, dotted'⟩ := s
  cases same
  cases dotted
  cases whole.symm.trans (wholePattern_spelled spelled)
  rfl

theorem all_dotted_iff {path : String} :
    (((Text.segments path).filter isHidden).all fun name =>
        (ofText text).dotted.any (·.matches name)) = true ↔
      HiddenFit (patternSegments text) (pathSegments path) := by
  have each : ∀ name : String, name.toList ∈ pathSegments path → Hidden name.toList →
      ((ofText text).dotted.any (·.matches name) = true ↔
        ∃ segment ∈ patternSegments text, segment.head? = some '.' ∧ Fits segment name.toList) := by
    intro name inside hidden
    have plain' : '/' ∉ name.toList := Text.not_mem_of_mem_split inside
    rw [List.any_eq_true]
    constructor
    · rintro ⟨pattern, member, matched⟩
      obtain ⟨segment, spelt, dotted, rfl⟩ := mem_dotted.mp member
      have starred := starred_of_hidden spelled spelt dotted
      have plain : '/' ∉ segment := Text.not_mem_of_mem_split spelt
      exact ⟨segment, spelt, dotted.1, (Glob.matches_iff_fits starred plain plain').mp matched⟩
    · rintro ⟨segment, member, dotted, fits⟩
      have hidden' := hidden.of_fits dotted fits
      have starred := starred_of_hidden spelled member hidden'
      have plain : '/' ∉ segment := Text.not_mem_of_mem_split member
      exact ⟨_, mem_dotted.mpr ⟨segment, member, hidden', rfl⟩,
        (Glob.matches_iff_fits starred plain plain').mpr fits⟩
  rw [List.all_eq_true]
  constructor
  · intro all name inside hidden
    have named : name = (String.ofList name).toList := String.toList_ofList.symm
    rw [named] at inside hidden ⊢
    exact (each _ inside hidden).mp (all _ (mem_hidden_iff.mpr ⟨inside, hidden⟩))
  · intro all name member
    obtain ⟨inside, hidden⟩ := mem_hidden_iff.mp member
    exact (each name inside hidden).mpr (all _ inside hidden)

theorem hiddenFit_of_takes {path : String} (taken : (ofText text).takes path = true) :
    HiddenFit (patternSegments text) (pathSegments path) :=
  (all_dotted_iff spelled).mp (Bool.and_eq_true_iff.mp taken).2

theorem takes_iff {path : String} (closed : ¬ Glob.IsOpen (patternSegments text)) :
    (ofText text).takes path = true ↔
      ((ofText text).pattern.looksAtName = true → Glob.hasName path = true) ∧
        Reaches (patternSegments text) (pathSegments path) ∧
        HiddenFit (patternSegments text) (pathSegments path) := by
  obtain ⟨name, names, parts⟩ := List.exists_cons_of_ne_nil (Text.split_ne_nil '/' path.toList)
  have joined : Text.join ['/'] (name :: names) = path.toList := by rw [← parts, Text.join_split]
  have plain : ∀ segment ∈ patternSegments text, '/' ∉ segment :=
    fun _ member => Text.not_mem_of_mem_split member
  have plain' : ∀ other ∈ name :: names, '/' ∉ other := by
    intro other member
    exact Text.not_mem_of_mem_split (parts ▸ member)
  have matched : (ofText text).pattern.matches path = true ↔
      Reaches (patternSegments text) (pathSegments path) := by
    have whole :=
      Glob.matchesBytes_iff_reaches (Text.split_ne_nil '/' _) closed spelled plain plain'
    rwa [joined, ← parts] at whole
  rw [takes, Bool.and_eq_true, all_dotted_iff spelled, Glob.Pattern.accepts, Bool.and_eq_true,
    matched, and_assoc]
  simp [imp_iff_not_or]

end

end Selector

section

variable [Glob.Engine] {patterns : List String}
  (spelled : ∀ text ∈ patterns, ∀ segment ∈ patternSegments text, Glob.IsSpelled segment)

include spelled

theorem readSelectors_spelled {selectors : List Selector}
    (made : readSelectors patterns = .ok selectors) : selectors = patterns.map Selector.ofText := by
  obtain ⟨read, -⟩ := readSelectors_ok made
  exact mapM_values (fun text member s here => Selector.eq_ofText (spelled text member) here) read

theorem readSelectors_spelled_iff :
    (∃ selectors, readSelectors patterns = .ok selectors) ↔ WithinLimits patterns := by
  rw [readSelectors_ok_iff, and_iff_right]
  intro text member
  exact ⟨⟨_, Selector.wholePattern_spelled (spelled text member)⟩, fun segment inside hidden =>
    ⟨_, Selector.read_hidden_spelled (spelled text member) inside hidden⟩⟩

end

theorem anyTakes_iff {patterns : List String} {path : String} :
    anyTakes (patterns.map Selector.ofText) path = true ↔
      ∃ text ∈ patterns, (Selector.ofText text).takes path = true := by
  simp [anyTakes]

theorem hasName_of_last {path : String} {name : List Char}
    (last : (pathSegments path).getLast? = some name) (here : name ≠ [])
    (named : name ≠ ['.', '.']) : Glob.hasName path = true := by
  rw [pathSegments] at last
  rw [Glob.hasName, last]
  simp [here, named]

theorem hasName_of_filled {path : String} (filled : ∀ name ∈ pathSegments path, name ≠ [])
    (ends : path.toList.getLast? ≠ some '.') : Glob.hasName path = true := by
  obtain ⟨before, name, parts⟩ := List.eq_nil_or_concat' (pathSegments path) |>.resolve_left
    (pathSegments_ne_nil path)
  have last : (pathSegments path).getLast? = some name :=
    List.getLast?_eq_some_iff.mpr ⟨before, parts⟩
  refine hasName_of_last last (filled name (by simp [parts])) ?_
  rintro rfl
  obtain ⟨front, whole⟩ := Text.suffix_of_getLast_split last
  exact ends (by simp [← whole])

theorem not_isOpen_of_filled {pattern : List (List Char)}
    (filled : ∀ segment ∈ pattern, segment ≠ []) : ¬ Glob.IsOpen pattern := by
  rintro ⟨stars, rfl, -⟩
  exact filled [] (by simp) rfl

/-- A path is selected if it can be set side by side with a pattern, and its hidden names fit dotted
segments of that pattern. -/
theorem includes_exact [Glob.Engine] {patterns : List String}
    (spelled : ∀ text ∈ patterns, ∀ segment ∈ patternSegments text,
      segment ≠ [] ∧ Glob.IsSpelled segment) :
    ((∃ selectors, readSelectors patterns = .ok selectors) ↔ WithinLimits patterns) ∧
    ∀ selectors, readSelectors patterns = .ok selectors →
      ∀ path, (∀ name ∈ pathSegments path, name ≠ []) → path.toList.getLast? ≠ some '.' →
        (anyTakes selectors path = true ↔ ∃ text ∈ patterns,
          (∃ standings, Aligned standings (patternSegments text) (pathSegments path) ∧
            Ended standings) ∧
          HiddenFit (patternSegments text) (pathSegments path)) := by
  have plain : ∀ text ∈ patterns, ∀ segment ∈ patternSegments text, Glob.IsSpelled segment :=
    fun text member segment inside => (spelled text member segment inside).2
  refine ⟨readSelectors_spelled_iff plain, fun selectors made path filled ends => ?_⟩
  rw [readSelectors_spelled plain made, anyTakes_iff]
  refine exists_congr fun text => and_congr_right fun member => ?_
  have closed := not_isOpen_of_filled fun segment inside => (spelled text member segment inside).1
  rw [Selector.takes_iff (plain text member) closed, reaches_iff_ended (pathSegments_ne_nil path)]
  exact and_iff_right fun _ => hasName_of_filled filled ends

theorem sources_segments :
    patternSegments "./src/**/*.ts" = ["src".toList, anySegments, "*.ts".toList] := by
  decide

theorem sources_spelled : ∀ text ∈ ["./src/**/*.ts"], ∀ segment ∈ patternSegments text,
    segment ≠ [] ∧ Glob.IsSpelled segment := by
  intro text member
  rw [List.mem_singleton.mp member, sources_segments]
  decide

theorem includes_exact_sources : ∃ selectors, readSelectors ["./src/**/*.ts"] = .ok selectors ∧
    anyTakes selectors "src/a/b.ts" = true ∧ anyTakes selectors "src/.a/b.ts" = false := by
  obtain ⟨built, exact⟩ := includes_exact sources_spelled
  obtain ⟨selectors, read⟩ := built.mpr (withinLimits_boundless _)
  have exact := exact selectors read
  refine ⟨selectors, read, ?_, Bool.eq_false_iff.mpr fun taken => ?_⟩
  · have sources : Aligned [⟨"src".toList, ["src".toList]⟩, ⟨anySegments, ["a".toList]⟩,
        ⟨"*.ts".toList, ["b.ts".toList]⟩] (patternSegments "./src/**/*.ts")
        (pathSegments "src/a/b.ts") := by
      refine ⟨by decide, by decide, List.forall_mem_cons.mpr ⟨?_, List.forall_mem_cons.mpr
        ⟨.inl rfl, List.forall_mem_singleton.mpr ?_⟩⟩⟩
      · exact .inr ⟨_, rfl, Fits.self (by decide)⟩
      · exact .inr ⟨_, rfl, .star ['b'] (Fits.self (by decide))⟩
    refine (exact "src/a/b.ts" (by decide) (by decide)).mpr
      ⟨_, List.mem_singleton_self _, ⟨_, sources, ?_⟩, ?_⟩
    · intro before s parts
      have last := congrArg List.getLast? parts
      rw [List.getLast?_concat] at last
      cases last
      exact fun _ double => absurd double (by decide)
    · intro name member hidden
      have none : ∀ name ∈ pathSegments "src/a/b.ts", ¬ Hidden name := by decide +kernel
      exact absurd hidden (none name member)
  · obtain ⟨text, member, -, fit⟩ := (exact "src/.a/b.ts" (by decide) (by decide)).mp taken
    obtain rfl := List.mem_singleton.mp member
    obtain ⟨segment, inside, dotted, -⟩ := fit ".a".toList (by decide) (by decide)
    rw [sources_segments] at inside
    revert segment
    decide

end SourcePages
