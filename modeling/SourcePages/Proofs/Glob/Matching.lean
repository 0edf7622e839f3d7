import SourcePages.Glob.Matching
import SourcePages.Proofs.Filter.Alignment
import SourcePages.Proofs.Glob.Reading
import SourcePages.Proofs.Text.Encode

namespace SourcePages.Glob

section

variable {keepsSlashes : Bool} {t : Token} {ts : List Token} {x y z : List UInt8}

theorem mem_rests {texts : List (List UInt8)} :
    y ∈ rests keepsSlashes ts texts ↔ ∃ x ∈ texts, y ∈ rests keepsSlashes ts [x] := by
  induction ts generalizing texts with
  | nil => simp [rests]
  | cons t ts ih =>
    simp only [rests, List.flatMap_cons, List.flatMap_nil, List.append_nil]
    rw [ih]
    constructor
    · rintro ⟨z, member, left⟩
      obtain ⟨x, inside, left'⟩ := List.mem_flatMap.mp (List.mem_eraseDups.mp member)
      exact ⟨x, inside, ih.mpr ⟨z, List.mem_eraseDups.mpr left', left⟩⟩
    · rintro ⟨x, inside, left⟩
      obtain ⟨z, member, left⟩ := ih.mp left
      refine ⟨z, List.mem_eraseDups.mpr (List.mem_flatMap.mpr ⟨x, inside, ?_⟩), left⟩
      exact List.mem_eraseDups.mp member

def Spans (keepsSlashes : Bool) (ts : List Token) (x : List UInt8) : Prop :=
  [] ∈ rests keepsSlashes ts [x]

theorem spans_nil : Spans keepsSlashes [] x ↔ x = [] := by
  rw [Spans, rests, List.mem_singleton, eq_comm]

theorem mem_rests_cons : z ∈ rests keepsSlashes (t :: ts) [x] ↔
    ∃ y ∈ t.rests keepsSlashes x, z ∈ rests keepsSlashes ts [y] := by
  rw [rests, mem_rests]
  simp [List.mem_eraseDups]

theorem spans_cons :
    Spans keepsSlashes (t :: ts) x ↔ ∃ z ∈ t.rests keepsSlashes x, Spans keepsSlashes ts z :=
  mem_rests_cons

theorem mem_suffixes : z ∈ suffixes x ↔ z <:+ x := by
  induction x with
  | nil => simp [suffixes]
  | cons b rest ih => rw [suffixes, List.mem_cons, ih, List.suffix_cons_iff]

theorem mem_afterSlashes : z ∈ afterSlashes x ↔ slash :: z <:+ x := by
  induction x with
  | nil => simp [afterSlashes]
  | cons b rest ih =>
    rw [afterSlashes, List.suffix_cons_iff]
    split
    · rename_i same
      simp [same, ih]
    · rename_i other
      simp [ih, Ne.symm other]

theorem mem_afterNonSlashes : z ∈ afterNonSlashes x ↔ ∃ front, slash ∉ front ∧ x = front ++ z := by
  induction x with
  | nil =>
    rw [afterNonSlashes, List.mem_singleton]
    constructor
    · rintro rfl
      exact ⟨[], List.not_mem_nil, rfl⟩
    · rintro ⟨front, -, parts⟩
      exact (List.nil_eq_append_iff.mp parts).2
  | cons b rest ih =>
    have here : (∃ front, slash ∉ front ∧ b :: rest = front ++ z) ↔
        z = b :: rest ∨ (b ≠ slash ∧ ∃ front, slash ∉ front ∧ rest = front ++ z) := by
      constructor
      · rintro ⟨front, plain, parts⟩
        cases front with
        | nil => exact .inl parts.symm
        | cons c front =>
          obtain ⟨rfl, tails⟩ := List.cons_eq_cons.mp parts
          obtain ⟨other, others⟩ := List.ne_and_not_mem_of_not_mem_cons plain
          exact .inr ⟨other.symm, front, others, tails⟩
      · rintro (rfl | ⟨other, front, plain, rfl⟩)
        · exact ⟨[], List.not_mem_nil, rfl⟩
        · exact ⟨b :: front, List.not_mem_cons_of_ne_of_not_mem other.symm plain, rfl⟩
    rw [here, afterNonSlashes, List.mem_cons, ← ih]
    split
    · rename_i same
      simp [same]
    · rename_i other
      simp [other]

theorem mem_afterBytes {bytes : List UInt8} : z ∈ afterBytes bytes x ↔ x = bytes ++ z := by
  induction bytes generalizing x with
  | nil => simp [afterBytes, eq_comm]
  | cons b bytes ih =>
    cases x with
    | nil => simp [afterBytes]
    | cons c x =>
      rw [afterBytes]
      split
      · rename_i same
        simp [same, ih]
      · rename_i other
        simp [Ne.symm other]

end

theorem slash_not_mem_encode {name : List Char} (plain : '/' ∉ name) :
    slash ∉ Text.encode name := by
  intro member
  obtain ⟨c, inside, byte⟩ := List.mem_flatMap.mp member
  have other : c ≠ '/' := fun same => plain (same ▸ inside)
  exact Text.slash_not_mem_encodeChar other byte

theorem exists_cut {name : List Char} {front y z : List UInt8}
    (parts : Text.encode name ++ y = front ++ z) (plain : slash ∉ front)
    (ends : ∀ b ∈ y.head?, b = slash) (starts : ∀ b ∈ z.head?, Text.begins b = true) :
    ∃ a b, name = a ++ b ∧ Text.encode a = front ∧ z = Text.encode b ++ y := by
  rcases List.append_eq_append_iff.mp parts with ⟨behind, cut, later⟩ | ⟨left, cut, later⟩
  · cases behind with
    | nil => exact ⟨name, [], (List.append_nil name).symm, by simpa using cut.symm, later.symm⟩
    | cons b behind =>
      obtain rfl : b = slash := ends b (by simp [later])
      exact absurd (by simp [cut]) plain
  · have starts' : ∀ b ∈ left.head?, Text.begins b = true := by
      intro b first
      apply starts
      rw [later, List.head?_append, first]
      exact rfl
    obtain ⟨a, b, rfl, rfl, rfl⟩ := Text.exists_of_encode_eq cut starts'
    exact ⟨a, b, rfl, rfl, later⟩

theorem spans_literal {keepsSlashes : Bool} {c : Char} {ts : List Token} {x : List UInt8} :
    Spans keepsSlashes (.literal c :: ts) x ↔
      ∃ z, x = String.utf8EncodeChar c ++ z ∧ Spans keepsSlashes ts z := by
  have bytes : Text.encode [c] = String.utf8EncodeChar c := List.append_nil _
  rw [spans_cons]
  simp only [Token.rests, bytes, mem_afterBytes]

theorem spans_run {ts : List Token} {x : List UInt8} :
    Spans true (.run :: ts) x ↔ ∃ front z, x = front ++ z ∧ slash ∉ front ∧ Spans true ts z := by
  rw [spans_cons]
  simp only [Token.rests, if_true, mem_afterNonSlashes]
  constructor
  · rintro ⟨z, ⟨front, plain, parts⟩, spans⟩
    exact ⟨front, z, parts, plain, spans⟩
  · rintro ⟨front, z, parts, plain, spans⟩
    exact ⟨z, ⟨front, plain, parts⟩, spans⟩

theorem eq_nil_of_head {name : List Char} {y : List UInt8} (plain : '/' ∉ name)
    (slashed : ∀ b ∈ (Text.encode name ++ y).head?, b = slash) : name = [] := by
  cases name with
  | nil => rfl
  | cons c rest =>
    obtain ⟨first, others, bytes, -⟩ := Text.exists_encodeChar c
    rw [Text.encode_cons, bytes] at slashed
    have other : c ≠ '/' := fun same => plain (same ▸ List.mem_cons_self)
    have byte : slash ∈ String.utf8EncodeChar c := by
      rw [bytes, ← slashed first rfl]
      exact List.mem_cons_self
    exact absurd byte (Text.slash_not_mem_encodeChar other)

section

variable {ts : List Token} (behind : ∀ x, Spans true ts x → ∀ b ∈ x.head?, b = slash)

include behind

theorem begins_of_spans {segment : List Char} (single : segment.head? ≠ some '*') {x : List UInt8}
    (spans : Spans true (segmentTokens segment ++ ts) x) : ∀ b ∈ x.head?, Text.begins b = true := by
  cases segment with
  | nil =>
    intro b first
    rw [behind x spans b first]
    rfl
  | cons c more =>
    have other : c ≠ '*' := fun same => single (congrArg some same)
    rw [segmentTokens_cons, if_neg other, List.cons_append] at spans
    obtain ⟨z, rfl, -⟩ := spans_literal.mp spans
    obtain ⟨first, others, bytes, starts, -⟩ := Text.exists_encodeChar c
    rw [bytes]
    rintro _ ⟨⟩
    exact starts

/-- The tokens of a segment take up a name before a slash if the segment fits the name. -/
theorem spans_segment {segment name : List Char} (starred : IsStarred segment)
    (plain : '/' ∉ segment) (plain' : '/' ∉ name) {y : List UInt8}
    (ends : ∀ b ∈ y.head?, b = slash) :
    Spans true (segmentTokens segment ++ ts) (Text.encode name ++ y) ↔
      Fits segment name ∧ Spans true ts y := by
  induction segment generalizing name with
  | nil =>
    rw [fits_nil]
    constructor
    · intro spans
      obtain rfl := eq_nil_of_head plain' (behind _ spans)
      exact ⟨rfl, spans⟩
    · rintro ⟨rfl, spans⟩
      exact spans
  | cons c more ih =>
    obtain ⟨notSlash, others⟩ := List.ne_and_not_mem_of_not_mem_cons plain
    rw [segmentTokens_cons, List.cons_append]
    by_cases star : c = '*'
    · subst star
      rw [if_pos rfl, spans_run, fits_star]
      constructor
      · rintro ⟨front, z, parts, within, spans⟩
        -- The run is of bytes. It ends between characters, since another star does not follow.
        have starts := begins_of_spans behind starred.head_rest spans
        obtain ⟨a, b, rfl, -, rfl⟩ := exists_cut parts within ends starts
        have left : '/' ∉ b := fun inside => plain' (List.mem_append_right a inside)
        obtain ⟨fits, spans⟩ := (ih starred.tail others left).mp spans
        exact ⟨⟨a, b, rfl, fits⟩, spans⟩
      · rintro ⟨⟨run, rest, rfl, fits⟩, spans⟩
        have within : '/' ∉ run := fun inside => plain' (List.mem_append_left rest inside)
        have left : '/' ∉ rest := fun inside => plain' (List.mem_append_right run inside)
        refine ⟨Text.encode run, Text.encode rest ++ y, ?_, slash_not_mem_encode within, ?_⟩
        · rw [Text.encode_append, List.append_assoc]
        · exact (ih starred.tail others left).mpr ⟨fits, spans⟩
    · rw [if_neg star, spans_literal, fits_char star]
      constructor
      · rintro ⟨z, parts, spans⟩
        cases name with
        | nil =>
          have single : Text.encode [c] ++ z = y := by
            rw [Text.encode_cons, List.append_assoc]
            exact parts.symm
          have slashed : ∀ b ∈ (Text.encode [c] ++ z).head?, b = slash := by rwa [single]
          cases eq_nil_of_head (by simpa using notSlash) slashed
        | cons d rest =>
          rw [Text.encode_cons, List.append_assoc] at parts
          obtain ⟨rfl, rfl⟩ := Text.encodeChar_append_inj parts
          have left : '/' ∉ rest := fun inside => plain' (List.mem_cons_of_mem d inside)
          obtain ⟨fits, spans⟩ := (ih starred.tail others left).mp spans
          exact ⟨⟨rest, rfl, fits⟩, spans⟩
      · rintro ⟨⟨rest, rfl, fits⟩, spans⟩
        have left : '/' ∉ rest := fun inside => plain' (List.mem_cons_of_mem c inside)
        refine ⟨Text.encode rest ++ y, ?_, (ih starred.tail others left).mpr ⟨fits, spans⟩⟩
        rw [Text.encode_cons, List.append_assoc]

end

theorem spans_keepsSlashes {segment : List Char} {x : List UInt8} (plain : slash ∉ x) :
    Spans false (segmentTokens segment) x ↔ Spans true (segmentTokens segment) x := by
  induction segment generalizing x with
  | nil => rfl
  | cons c more ih =>
    rw [segmentTokens_cons, spans_cons, spans_cons]
    refine exists_congr fun z => ?_
    by_cases star : c = '*'
    · have same : z ∈ suffixes x ↔ z ∈ afterNonSlashes x := by
        rw [mem_suffixes, mem_afterNonSlashes]
        constructor
        · rintro ⟨front, rfl⟩
          exact ⟨front, fun inside => plain (List.mem_append_left z inside), rfl⟩
        · rintro ⟨front, -, rfl⟩
          exact List.suffix_append front z
      rw [if_pos star]
      simp only [Token.rests, Bool.false_eq_true, if_false, if_true, same]
      refine and_congr_right fun left => ih fun inside => plain ?_
      exact (mem_suffixes.mp (same.mpr left)).subset inside
    · rw [if_neg star]
      simp only [Token.rests, mem_afterBytes]
      refine and_congr_right fun parts => ih fun inside => plain ?_
      rw [parts]
      exact List.mem_append_right _ inside

theorem matchesBytes_iff {keepsSlashes : Bool} {ts : List Token} {x : List UInt8} :
    Pattern.matchesBytes ⟨ts, keepsSlashes⟩ x = true ↔
      ts = [.leading] ∨ Spans keepsSlashes ts x := by
  unfold Pattern.matchesBytes
  split
  · rename_i single
    simp [show ts = [.leading] from single]
  · rename_i other
    have other : ts ≠ [.leading] := other
    simp [other, Spans]

theorem leading_not_mem_segmentTokens (segment : List Char) :
    Token.leading ∉ segmentTokens segment := by
  intro member
  obtain ⟨c, -, same⟩ := List.mem_map.mp member
  split at same <;> cases same

theorem matches_iff_fits {segment : List Char} {name : String} (starred : IsStarred segment)
    (plain : '/' ∉ segment) (plain' : '/' ∉ name.toList) :
    (Pattern.mk (segmentTokens segment) false).matches name = true ↔ Fits segment name.toList := by
  have other : segmentTokens segment ≠ [.leading] := by
    intro same
    have member : Token.leading ∈ segmentTokens segment := same ▸ List.mem_singleton_self _
    exact leading_not_mem_segmentTokens segment member
  have behind : ∀ x, Spans true [] x → ∀ b ∈ x.head?, b = slash := by
    rintro x spans
    rw [spans_nil.mp spans]
    nofun
  have whole := spans_segment behind starred plain plain' (y := []) nofun
  rw [List.append_nil, List.append_nil, spans_nil] at whole
  rw [Pattern.matches, matchesBytes_iff, or_iff_right other,
    spans_keepsSlashes (slash_not_mem_encode plain'), whole]
  exact and_iff_left rfl

end SourcePages.Glob
