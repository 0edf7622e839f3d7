import SourcePages.Proofs.Glob.Matching

namespace SourcePages.Glob

def slashed (segments : List (List Char)) : List Char := segments.flatMap ('/' :: ·)

theorem join_eq_slashed (segment : List Char) (rest : List (List Char)) :
    Text.join ['/'] (segment :: rest) = segment ++ slashed rest := by
  induction rest generalizing segment with
  | nil => exact (List.append_nil segment).symm
  | cons next more ih =>
    rw [Text.join_cons_cons, ih, List.append_assoc]
    rfl

theorem encode_slashed_cons (name : List Char) (names : List (List Char)) :
    Text.encode (slashed (name :: names)) =
      slash :: (Text.encode name ++ Text.encode (slashed names)) := by
  rw [slashed, List.flatMap_cons, List.cons_append, Text.encode_cons, Text.encode_append]
  rfl

theorem head_encode_slashed (names : List (List Char)) :
    ∀ b ∈ (Text.encode (slashed names)).head?, b = slash := by
  cases names with
  | nil => nofun
  | cons name names =>
    rw [encode_slashed_cons]
    rintro _ ⟨⟩
    rfl

theorem suffix_slashed {names : List (List Char)} (plain : ∀ name ∈ names, '/' ∉ name)
    {z : List UInt8} : slash :: z <:+ Text.encode (slashed names) ↔
      ∃ before name behind, names = before ++ name :: behind ∧
        z = Text.encode name ++ Text.encode (slashed behind) := by
  induction names with
  | nil => simp [slashed, Text.encode]
  | cons name rest ih =>
    obtain ⟨first, others⟩ := List.forall_mem_cons.mp plain
    have inner : slash :: z <:+ Text.encode name ++ Text.encode (slashed rest) ↔
        slash :: z <:+ Text.encode (slashed rest) := by
      constructor
      · rintro ⟨front, parts⟩
        rcases List.append_eq_append_iff.mp parts with ⟨left, cut, whole⟩ | ⟨left, cut, whole⟩
        · cases left with
          | nil => exact ⟨[], whole⟩
          | cons b left =>
            obtain ⟨rfl, -⟩ := List.cons_eq_cons.mp whole
            exact absurd (by simp [cut]) (slash_not_mem_encode first)
        · exact ⟨left, whole.symm⟩
      · exact fun behind => behind.trans (List.suffix_append _ _)
    rw [encode_slashed_cons, List.suffix_cons_iff, inner, ih others]
    constructor
    · rintro (same | ⟨before, other, behind, rfl, rfl⟩)
      · exact ⟨[], name, rest, rfl, (List.cons_eq_cons.mp same).2⟩
      · exact ⟨name :: before, other, behind, rfl, rfl⟩
    · rintro ⟨before, other, behind, parts, rfl⟩
      cases before with
      | nil =>
        obtain ⟨rfl, rfl⟩ := List.cons_eq_cons.mp parts
        exact .inl rfl
      | cons front before =>
        obtain ⟨rfl, rfl⟩ := List.cons_eq_cons.mp parts
        exact .inr ⟨before, other, behind, rfl, rfl⟩

theorem mem_leading {keepsSlashes : Bool} {x z : List UInt8} :
    z ∈ Token.rests keepsSlashes .leading x ↔ slash :: z <:+ slash :: x := by
  rw [Token.rests, List.mem_cons, mem_afterSlashes, List.suffix_cons_iff, List.cons_inj_right]

theorem mem_between {keepsSlashes : Bool} {x z : List UInt8} (ends : ∀ b ∈ x.head?, b = slash) :
    z ∈ Token.rests keepsSlashes .between x ↔ slash :: z <:+ x := by
  cases x with
  | nil => simp [Token.rests, afterSlash, afterByte]
  | cons b rest =>
    obtain rfl := ends b rfl
    simp [Token.rests, afterSlash, afterByte, mem_afterSlashes, List.suffix_cons_iff]

theorem spans_trailing {keepsSlashes : Bool} {x : List UInt8} :
    Spans keepsSlashes [.trailing] x ↔ x.head? = some slash := by
  rw [spans_cons]
  simp only [Token.rests, spans_nil, exists_eq_right, afterSlash]
  cases x with
  | nil => simp [afterByte]
  | cons b rest =>
    by_cases same : b = slash <;> simp [afterByte, same, mem_suffixes]

theorem spans_slashToken {stars : Bool} {ts : List Token} {x : List UInt8}
    (spans : Spans true (slashToken stars :: ts) x) : ∀ b ∈ x.head?, b = slash := by
  rw [spans_cons] at spans
  obtain ⟨z, left, -⟩ := spans
  cases x with
  | nil => nofun
  | cons b rest =>
    rintro _ ⟨⟩
    cases stars with
    | false =>
      have parts : b :: rest = Text.encode ['/'] ++ z := mem_afterBytes.mp left
      exact (List.cons_eq_cons.mp parts).1
    | true =>
      by_contra other
      simp [slashToken, Token.rests, afterSlash, afterByte, other] at left

theorem head_of_spans_behind {stars : Bool} {pattern : List (List Char)} {x : List UInt8}
    (spans : Spans true (tokensBehind stars pattern) x) : ∀ b ∈ x.head?, b = slash := by
  induction pattern generalizing stars with
  | nil =>
    cases stars with
    | false =>
      rw [spans_nil.mp spans]
      nofun
    | true =>
      intro b first
      rw [spans_trailing.mp spans] at first
      exact (Option.some.inj first).symm
  | cons segment rest ih =>
    by_cases double : segment = anySegments
    · subst double
      rw [tokensBehind_double] at spans
      exact ih spans
    · rw [tokensBehind_segment stars double] at spans
      exact spans_slashToken spans

/-- Segments with slashes in front match names with slashes in front, from the first of them on or,
behind double stars, from some name on. -/
theorem spans_behind {pattern names : List (List Char)}
    (spelled : ∀ segment ∈ pattern, IsSpelled segment)
    (plain : ∀ segment ∈ pattern, '/' ∉ segment) (plain' : ∀ name ∈ names, '/' ∉ name)
    (stars : Bool) :
    Spans true (tokensBehind stars pattern) (Text.encode (slashed names)) ↔
      Reaches ((if stars then [anySegments] else []) ++ pattern) names := by
  induction pattern generalizing stars names with
  | nil =>
    cases stars with
    | false =>
      change Spans true [] _ ↔ Reaches [] names
      rw [spans_nil, reaches_nil]
      cases names with
      | nil => simp [slashed, Text.encode]
      | cons name more => simp [encode_slashed_cons]
    | true =>
      change Spans true [.trailing] _ ↔ Reaches [anySegments] names
      rw [spans_trailing, reaches_end]
      cases names with
      | nil => simp [slashed, Text.encode]
      | cons name more => simp [encode_slashed_cons]
  | cons segment rest ih =>
    obtain ⟨first, others⟩ := List.forall_mem_cons.mp spelled
    obtain ⟨firstPlain, othersPlain⟩ := List.forall_mem_cons.mp plain
    by_cases double : segment = anySegments
    · subst double
      rw [tokensBehind_double, ih others othersPlain plain' true]
      cases stars with
      | false => rfl
      | true => exact reaches_twice.symm
    · -- The segment takes up one name, and the rest of the pattern the names behind it.
      have whole : ∀ name behind, '/' ∉ name → (∀ name ∈ behind, '/' ∉ name) →
          (Spans true (segmentTokens segment ++ tokensBehind false rest)
            (Text.encode name ++ Text.encode (slashed behind)) ↔
          Fits segment name ∧ Reaches rest behind) := by
        intro name behind here later
        rw [spans_segment (fun _ => head_of_spans_behind) (first.resolve_left double) firstPlain
          here (head_encode_slashed behind), ih others othersPlain later false]
        rfl
      rw [tokensBehind_segment stars double]
      cases stars with
      | false =>
        change Spans true (.literal '/' :: (segmentTokens segment ++ tokensBehind false rest)) _ ↔
          Reaches (segment :: rest) names
        rw [spans_literal, reaches_segment double]
        constructor
        · rintro ⟨z, parts, spans⟩
          cases names with
          | nil => cases parts
          | cons name behind =>
            obtain ⟨here, later⟩ := List.forall_mem_cons.mp plain'
            rw [encode_slashed_cons] at parts
            obtain ⟨-, rfl⟩ := List.cons_eq_cons.mp parts
            exact ⟨name, behind, rfl, (whole name behind here later).mp spans⟩
        · rintro ⟨name, behind, rfl, reaches⟩
          obtain ⟨here, later⟩ := List.forall_mem_cons.mp plain'
          exact ⟨_, encode_slashed_cons name behind, (whole name behind here later).mpr reaches⟩
      | true =>
        change Spans true (.between :: (segmentTokens segment ++ tokensBehind false rest)) _ ↔
          Reaches (anySegments :: segment :: rest) names
        -- What double stars leave is what is behind some slash, so it begins with some name.
        rw [spans_cons, reaches_double (List.cons_ne_nil _ _)]
        simp only [mem_between (head_encode_slashed names), suffix_slashed plain',
          reaches_segment double]
        constructor
        · rintro ⟨_, ⟨before, name, behind, rfl, rfl⟩, spans⟩
          obtain ⟨-, after⟩ := List.forall_mem_append.mp plain'
          obtain ⟨here, later⟩ := List.forall_mem_cons.mp after
          exact ⟨before, name :: behind, rfl, name, behind, rfl,
            (whole name behind here later).mp spans⟩
        · rintro ⟨before, _, rfl, name, behind, rfl, reaches⟩
          obtain ⟨-, after⟩ := List.forall_mem_append.mp plain'
          obtain ⟨here, later⟩ := List.forall_mem_cons.mp after
          exact ⟨_, ⟨before, name, behind, rfl, rfl⟩, (whole name behind here later).mpr reaches⟩

theorem leading_not_mem_tokensBehind (stars : Bool) (pattern : List (List Char)) :
    Token.leading ∉ tokensBehind stars pattern := by
  induction pattern generalizing stars with
  | nil => cases stars <;> simp [tokensBehind]
  | cons segment rest ih =>
    by_cases double : segment = anySegments
    · subst double
      rw [tokensBehind_double]
      exact ih true
    · rw [tokensBehind_segment stars double]
      have other : Token.leading ≠ slashToken stars := by
        intro same
        cases stars <;> cases same
      simp [other, leading_not_mem_segmentTokens, ih]

theorem tokensBehind_ne_nil (stars : Bool) {pattern : List (List Char)} (filled : pattern ≠ []) :
    tokensBehind stars pattern ≠ [] := by
  induction pattern generalizing stars with
  | nil => exact absurd rfl filled
  | cons segment rest ih =>
    by_cases double : segment = anySegments
    · subst double
      rw [tokensBehind_double]
      cases rest with
      | nil => exact List.cons_ne_nil _ _
      | cons next more => exact ih true (List.cons_ne_nil _ _)
    · rw [tokensBehind_segment stars double]
      exact List.cons_ne_nil _ _

theorem tokensBehind_true (pattern : List (List Char)) :
    tokensBehind true pattern = [.trailing] ∨
      ∃ stars segment more, pattern = stars ++ segment :: more ∧
        (∀ s ∈ stars, s = anySegments) ∧
        tokensBehind true pattern =
          .between :: (segmentTokens segment ++ tokensBehind false more) := by
  induction pattern with
  | nil => exact .inl rfl
  | cons segment rest ih =>
    by_cases double : segment = anySegments
    · subst double
      rw [tokensBehind_double]
      rcases ih with none | ⟨stars, next, more, rfl, all, tokens⟩
      · exact .inl none
      · exact .inr ⟨anySegments :: stars, next, more, rfl,
          List.forall_mem_cons.mpr ⟨rfl, all⟩, tokens⟩
    · exact .inr ⟨[], segment, rest, rfl, nofun, tokensBehind_segment true double rest⟩

/-- A pattern of double stars with an empty segment behind them, which matches everything. -/
def IsOpen (pattern : List (List Char)) : Prop :=
  ∃ stars, pattern = stars ++ [[]] ∧ stars ≠ [] ∧ ∀ s ∈ stars, s = anySegments

theorem matchesBytes_of_isOpen {pattern : List (List Char)} (opened : IsOpen pattern)
    (keepsSlashes : Bool) (x : List UInt8) :
    Pattern.matchesBytes ⟨inFront (tokensBehind false pattern), keepsSlashes⟩ x = true := by
  obtain ⟨stars, rfl, filled, all⟩ := opened
  have tokens : ∀ stars : List (List Char), (∀ s ∈ stars, s = anySegments) →
      tokensBehind true (stars ++ [[]]) = [.between] := by
    intro stars all
    induction stars with
    | nil => rfl
    | cons s rest ih =>
      obtain ⟨rfl, others⟩ := List.forall_mem_cons.mp all
      rw [List.cons_append, tokensBehind_double, ih others]
  obtain ⟨s, rest, rfl⟩ := List.exists_cons_of_ne_nil filled
  obtain ⟨rfl, others⟩ := List.forall_mem_cons.mp all
  rw [List.cons_append, tokensBehind_double, tokens rest others]
  rfl

theorem matchesBytes_inFront {pattern : List (List Char)} (filled : pattern ≠ [])
    (closed : ¬ IsOpen pattern) (x : List UInt8) :
    Pattern.matchesBytes ⟨inFront (tokensBehind false pattern), true⟩ x = true ↔
      Spans true (tokensBehind false pattern) (slash :: x) := by
  obtain ⟨segment, rest, rfl⟩ := List.exists_cons_of_ne_nil filled
  rw [matchesBytes_iff]
  by_cases double : segment = anySegments
  · subst double
    rw [tokensBehind_double]
    rcases tokensBehind_true rest with none | ⟨stars, next, more, rfl, all, tokens⟩
    · rw [none, spans_trailing]
      exact ⟨fun _ => rfl, fun _ => .inl rfl⟩
    · rw [tokens, inFront]
      have other : Token.leading :: (segmentTokens next ++ tokensBehind false more) ≠
          [.leading] := by
        intro same
        obtain ⟨none, none'⟩ := List.append_eq_nil_iff.mp (List.cons_eq_cons.mp same).2
        obtain rfl := List.map_eq_nil_iff.mp none
        obtain rfl : more = [] := by
          by_contra filled
          exact tokensBehind_ne_nil false filled none'
        exact closed ⟨anySegments :: stars, rfl, List.cons_ne_nil _ _,
          List.forall_mem_cons.mpr ⟨rfl, all⟩⟩
      have inner : ∀ b ∈ (slash :: x).head?, b = slash := by
        rintro _ ⟨⟩
        rfl
      rw [or_iff_right other, spans_cons, spans_cons]
      simp only [mem_leading, mem_between inner]
  · rw [tokensBehind_segment false double]
    change segmentTokens segment ++ tokensBehind false rest = [.leading] ∨
      Spans true (segmentTokens segment ++ tokensBehind false rest) x ↔
        Spans true (.literal '/' :: (segmentTokens segment ++ tokensBehind false rest)) (slash :: x)
    have other : segmentTokens segment ++ tokensBehind false rest ≠ [.leading] := by
      intro same
      have member : Token.leading ∈ segmentTokens segment ++ tokensBehind false rest := by
        rw [same]
        exact List.mem_singleton_self _
      rcases List.mem_append.mp member with inside | inside
      · exact leading_not_mem_segmentTokens segment inside
      · exact leading_not_mem_tokensBehind false rest inside
    rw [or_iff_right other, spans_literal]
    constructor
    · exact fun spans => ⟨x, rfl, spans⟩
    · rintro ⟨z, parts, spans⟩
      obtain ⟨-, rfl⟩ := List.cons_eq_cons.mp parts
      exact spans

theorem matchesBytes_iff_reaches {pattern : List (List Char)} {name : List Char}
    {names : List (List Char)} (filled : pattern ≠ []) (closed : ¬ IsOpen pattern)
    (spelled : ∀ segment ∈ pattern, IsSpelled segment)
    (plain : ∀ segment ∈ pattern, '/' ∉ segment) (plain' : ∀ other ∈ name :: names, '/' ∉ other) :
    Pattern.matchesBytes ⟨inFront (tokensBehind false pattern), true⟩
        (Text.encode (Text.join ['/'] (name :: names))) = true ↔
      Reaches pattern (name :: names) := by
  have path : slash :: Text.encode (Text.join ['/'] (name :: names)) =
      Text.encode (slashed (name :: names)) := by
    rw [join_eq_slashed, Text.encode_append, encode_slashed_cons]
  rw [matchesBytes_inFront filled closed, path, spans_behind spelled plain plain' false]
  rfl

end SourcePages.Glob
