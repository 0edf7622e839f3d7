import SourcePages.Glob.Member
import SourcePages.Proofs.Glob.Matching

namespace SourcePages.Glob

section

variable {z : List UInt8}

theorem suffix_of_mem_afterByte {test : UInt8 → Bool} {x : List UInt8}
    (left : z ∈ afterByte test x) : z <:+ x := by
  cases x with
  | nil => cases left
  | cons b rest =>
    rw [afterByte] at left
    split at left
    · rw [List.mem_singleton.mp left]
      exact List.suffix_cons b rest
    · cases left

theorem suffix_of_mem_afterSlashes {x : List UInt8} (left : z ∈ afterSlashes x) : z <:+ x :=
  (List.suffix_cons slash z).trans (mem_afterSlashes.mp left)

variable {keepsSlashes : Bool}

mutual

theorem Token.rests_loosened : ∀ (t : Token) {x z : List UInt8}, z ∈ t.rests keepsSlashes x →
    z ∈ t.rests false x ∧ z <:+ x
  | .literal c, x, z, left => by
    refine ⟨left, ?_⟩
    rw [mem_afterBytes.mp left]
    exact List.suffix_append _ _
  | .one, x, z, left => by
    refine ⟨?_, suffix_of_mem_afterByte left⟩
    cases x with
    | nil => cases left
    | cons b rest =>
      rw [Token.rests, afterByte] at left ⊢
      split at left
      · exact left
      · cases left
  | .run, x, z, left => by
    have behind : z <:+ x := by
      rw [Token.rests] at left
      split at left
      · obtain ⟨front, -, rfl⟩ := mem_afterNonSlashes.mp left
        exact List.suffix_append _ _
      · exact mem_suffixes.mp left
    exact ⟨mem_suffixes.mpr behind, behind⟩
  | .leading, x, z, left => by
    refine ⟨left, ?_⟩
    rcases List.mem_cons.mp left with rfl | behind
    · exact List.suffix_rfl
    · exact suffix_of_mem_afterSlashes behind
  | .trailing, x, z, left => by
    refine ⟨left, ?_⟩
    obtain ⟨rest, slashed, behind⟩ := List.mem_flatMap.mp left
    exact (mem_suffixes.mp behind).trans (suffix_of_mem_afterByte slashed)
  | .between, x, z, left => by
    refine ⟨left, ?_⟩
    obtain ⟨rest, slashed, behind⟩ := List.mem_flatMap.mp left
    refine List.IsSuffix.trans ?_ (suffix_of_mem_afterByte slashed)
    rcases List.mem_cons.mp behind with rfl | further
    · exact List.suffix_rfl
    · exact suffix_of_mem_afterSlashes further
  | .oneOf negated ranges, x, z, left => ⟨left, suffix_of_mem_afterByte left⟩
  | .either branches, x, z, left => by
    rw [Token.rests] at left ⊢
    split at left
    · rename_i some
      rw [if_pos some]
      exact branchRests_loosened branches left
    · rename_i none
      rw [if_neg none]
      exact ⟨left, (List.mem_singleton.mp left) ▸ List.suffix_rfl⟩

theorem branchRests_loosened : ∀ (branches : List (List Token)) {x z : List UInt8},
    z ∈ branchRests keepsSlashes branches x → z ∈ branchRests false branches x ∧ z <:+ x
  | [], x, z, left => by cases left
  | branch :: branches, x, z, left => by
    rw [branchRests, List.mem_append] at left ⊢
    rcases left with left | left
    · split at left
      · rename_i some
        obtain ⟨loosened, behind⟩ := rests_loosened branch left
        rw [if_pos some]
        exact ⟨.inl loosened, behind⟩
      · cases left
    · obtain ⟨loosened, behind⟩ := branchRests_loosened branches left
      exact ⟨.inr loosened, behind⟩

theorem rests_loosened : ∀ (ts : List Token) {x z : List UInt8},
    z ∈ rests keepsSlashes ts [x] → z ∈ rests false ts [x] ∧ z <:+ x
  | [], x, z, left => by
    rw [rests, List.mem_singleton] at left ⊢
    exact ⟨left, left ▸ List.suffix_rfl⟩
  | t :: ts, x, z, left => by
    obtain ⟨y, first, later⟩ := mem_rests_cons.mp left
    obtain ⟨loosened, behind⟩ := t.rests_loosened first
    obtain ⟨further, ends⟩ := rests_loosened ts later
    exact ⟨mem_rests_cons.mpr ⟨y, loosened, further⟩, ends.trans behind⟩

end

end

theorem ne_nil_of_spans {keepsSlashes : Bool} {ts : List Token} {c : Char}
    (member : .literal c ∈ ts) {x : List UInt8} (spans : Spans keepsSlashes ts x) : x ≠ [] := by
  induction ts generalizing x with
  | nil => cases member
  | cons t ts ih =>
    obtain ⟨z, left, later⟩ := spans_cons.mp spans
    rcases List.mem_cons.mp member with rfl | member
    · obtain ⟨first, others, bytes, -⟩ := Text.exists_encodeChar c
      rw [mem_afterBytes.mp left, Text.encode_cons, bytes]
      exact List.cons_ne_nil _ _
    · obtain ⟨-, front, rfl⟩ := t.rests_loosened left
      exact fun empty => ih member later (List.append_eq_nil_iff.mp empty).2

theorem exists_literal_of_dotted {ts : List Token} (dotted : isDotted ts = true) :
    ∃ c, .literal c ∈ ts := by
  unfold isDotted at dotted
  split at dotted
  · exact ⟨'.', List.mem_cons_self⟩
  · cases dotted

theorem exists_literal_of_extension {ts : List Token} (ends : endsInExtension ts = true) :
    ∃ c, .literal c ∈ ts := by
  unfold endsInExtension at ends
  split at ends
  · rename_i c rest
    exact ⟨c, List.mem_cons_self⟩
  · cases ends

theorem exists_literal_of_nameChars {ts : List Token} (filled : ts ≠ [])
    (all : ts.all Token.isNameChar = true) : ∃ c, .literal c ∈ ts := by
  cases ts with
  | nil => exact absurd rfl filled
  | cons t rest =>
    have first := (List.all_eq_true.mp all) t List.mem_cons_self
    unfold Token.isNameChar at first
    split at first
    · rename_i c
      exact ⟨c, List.mem_cons_self⟩
    · cases first

namespace Pattern

theorem exists_literal {p : Pattern} (looks : p.looksAtName = true) :
    ∃ c, .literal c ∈ p.tokens := by
  simp only [looksAtName, Bool.or_eq_true, Bool.and_eq_true] at looks
  rcases looks with (name | extension) | ⟨-, ending⟩
  · unfold isName at name
    split at name
    · rename_i rest tokens
      obtain ⟨filled, all⟩ := Bool.and_eq_true_iff.mp name
      obtain ⟨c, member⟩ := exists_literal_of_nameChars (by simpa using filled) all
      exact ⟨c, tokens ▸ List.mem_cons_of_mem _ member⟩
    · cases name
  · unfold isExtension at extension
    split at extension
    · rename_i rest tokens
      obtain ⟨c, member⟩ := exists_literal_of_dotted extension
      exact ⟨c, tokens ▸ List.mem_cons_of_mem _ (List.mem_cons_of_mem _ member)⟩
    · rename_i rest tokens
      obtain ⟨c, member⟩ := exists_literal_of_dotted (Bool.and_eq_true_iff.mp extension).2
      exact ⟨c, tokens ▸ List.mem_cons_of_mem _ member⟩
    · cases extension
  · obtain ⟨c, member⟩ := exists_literal_of_extension ending
    exact ⟨c, List.mem_reverse.mp member⟩

theorem ne_empty_of_matches {p : Pattern} {path : String} (looks : p.looksAtName = true)
    (matched : p.matches path = true) : path ≠ "" := by
  obtain ⟨c, member⟩ := p.exists_literal looks
  rw [Pattern.matches, matchesBytes_iff] at matched
  rcases matched with leading | spans
  · rw [leading] at member
    cases List.mem_singleton.mp member
  · rintro rfl
    exact ne_nil_of_spans member spans rfl

/-- A path that has a name at its end, or is empty, is taken by the looser member if it is taken by
the other one. -/
theorem accepts_loosened {ts : List Token} {keepsSlashes : Bool} {path : String}
    (named : path ≠ "" → hasName path = true)
    (accepted : (Pattern.mk ts keepsSlashes).accepts path = true) :
    (Pattern.mk ts false).accepts path = true := by
  rw [accepts, Bool.and_eq_true] at accepted ⊢
  have matched : (Pattern.mk ts false).matches path = true := by
    rw [Pattern.matches, matchesBytes_iff] at accepted ⊢
    exact accepted.2.imp_right fun spans => (rests_loosened ts spans).1
  refine ⟨?_, matched⟩
  by_cases looks : (Pattern.mk ts false).looksAtName = true
  · rw [named (ne_empty_of_matches looks matched), Bool.or_true]
  · rw [Bool.not_eq_true] at looks
    rw [looks]
    rfl

end Pattern

end SourcePages.Glob
