import Mathlib.Data.List.Infix
import SourcePages.Filter.Alignment
import SourcePages.Proofs.Text.Split

namespace SourcePages

instance : DecidablePred IsStarred := fun segment =>
  haveI := List.decidableBAll (fun c => c ∉ ['?', '[', ']', '\x7b', '\x7d', ',', '\\']) segment
  inferInstanceAs (Decidable (_ ∧ _))

namespace IsStarred

variable {c : Char} {rest : List Char}

theorem tail (starred : IsStarred (c :: rest)) : IsStarred rest := by
  obtain ⟨plain, apart⟩ := starred
  refine ⟨fun d member => plain d (List.mem_cons_of_mem c member), fun inside => ?_⟩
  exact apart (inside.trans (List.suffix_cons c rest).isInfix)

theorem head_rest (starred : IsStarred ('*' :: rest)) : rest.head? ≠ some '*' := by
  intro same
  obtain ⟨behind, rfl⟩ := List.head?_eq_some_iff.mp same
  exact starred.2 ⟨[], behind, rfl⟩

end IsStarred

namespace Glob

/-- The tokens of a segment in which only stars have a meaning of their own. -/
def segmentTokens (segment : List Char) : List Token :=
  segment.map fun c => if c = '*' then .run else .literal c

theorem segmentTokens_cons (c : Char) (rest : List Char) : segmentTokens (c :: rest) =
    (if c = '*' then .run else .literal c) :: segmentTokens rest := rfl

def slashToken (stars : Bool) : Token := if stars then .between else .literal '/'

def tokensBehind : Bool → List (List Char) → List Token
  | false, [] => []
  | true, [] => [.trailing]
  | stars, segment :: rest =>
    if segment = anySegments then tokensBehind true rest
    else slashToken stars :: segmentTokens segment ++ tokensBehind false rest

theorem tokensBehind_double (stars : Bool) (rest : List (List Char)) :
    tokensBehind stars (anySegments :: rest) = tokensBehind true rest := by
  cases stars <;> exact if_pos rfl

theorem tokensBehind_segment (stars : Bool) {segment : List Char} (single : segment ≠ anySegments)
    (rest : List (List Char)) : tokensBehind stars (segment :: rest) =
      slashToken stars :: segmentTokens segment ++ tokensBehind false rest := by
  cases stars <;> exact if_neg single

def inFront : List Token → List Token
  | .literal _ :: rest => rest
  | .between :: rest | .trailing :: rest => .leading :: rest
  | tokens => tokens

def IsSpelled (segment : List Char) : Prop := segment = anySegments ∨ IsStarred segment

instance : DecidablePred IsSpelled := fun _ => inferInstanceAs (Decidable (_ ∨ _))

namespace State

def outside (place : Place) (previous : Option Char) (tokens : List Token) : State :=
  { place, previous, tokens }

abbrev plainly : Option Char → List Token → State := outside .plain

theorem read_cons {lenient : Bool} {s next : State} {c : Char} {rest : List Char}
    (stepped : s.step lenient c rest = .ok next) :
    s.read lenient (c :: rest) = next.read lenient rest := by
  rw [read, stepped]

variable (lenient : Bool) (previous : Option Char) (ts : List Token)

theorem read_literal {c : Char} (plain : c ∉ ['?', '[', ']', '\x7b', '\x7d', ',', '\\'])
    (star : c ≠ '*') (rest : List Char) :
    (plainly previous ts).read lenient (c :: rest) =
      (plainly (some c) (.literal c :: ts)).read lenient rest := by
  simp only [List.mem_cons, not_or] at plain
  apply read_cons
  simp only [step, outside, stepPlain]
  split
  all_goals simp_all [push]

theorem read_previous (previous' : Option Char) {rest : List Char}
    (ends : ∀ c ∈ rest.head?, c = '/') :
    (plainly previous ts).read lenient rest = (plainly previous' ts).read lenient rest := by
  cases rest with
  | nil => rfl
  | cons c more =>
    cases ends c rfl
    rfl

theorem read_star {rest : List Char} (single : rest.head? ≠ some '*') :
    (plainly previous ts).read lenient ('*' :: rest) =
      (plainly (some '*') (.run :: ts)).read lenient rest := by
  have first : (plainly previous ts).step lenient '*' rest =
      .ok (outside .afterStar previous ts) := rfl
  rw [read_cons first]
  cases rest with
  | nil => rfl
  | cons c more =>
    have other : c ≠ '*' := fun same => single (congrArg some same)
    have second : (outside .afterStar previous ts).step lenient c more =
        (plainly (some '*') (.run :: ts)).step lenient c more := if_neg other
    rw [read, second, read]

theorem read_segment {segment : List Char} (starred : IsStarred segment) (rest : List Char)
    (ends : ∀ c ∈ rest.head?, c = '/') :
    (plainly previous ts).read lenient (segment ++ rest) =
      (plainly previous ((segmentTokens segment).reverse ++ ts)).read lenient rest := by
  induction segment generalizing previous ts with
  | nil => rfl
  | cons c more ih =>
    rw [List.cons_append, segmentTokens_cons, List.reverse_cons, List.append_assoc,
      List.singleton_append]
    by_cases star : c = '*'
    · subst star
      have single : (more ++ rest).head? ≠ some '*' := by
        cases more with
        | nil =>
          intro same
          cases ends '*' same
        | cons d behind => exact starred.head_rest
      rw [if_pos rfl, read_star lenient previous ts single, ih _ _ starred.tail]
      exact read_previous lenient _ _ _ ends
    · have first := starred.1 c List.mem_cons_self
      rw [if_neg star, read_literal lenient previous ts first star, ih _ _ starred.tail]
      exact read_previous lenient _ _ _ ends

theorem read_then {segment : List Char} (starred : IsStarred segment) {rest : List (List Char)}
    (later : rest ≠ [] → ∀ ts, (plainly (some '/') (.literal '/' :: ts)).read lenient
      (Text.join ['/'] rest) = .ok (ts.reverse ++ tokensBehind false rest)) :
    (plainly previous ts).read lenient (Text.join ['/'] (segment :: rest)) =
      .ok (ts.reverse ++ segmentTokens segment ++ tokensBehind false rest) := by
  cases rest with
  | nil =>
    have read := read_segment lenient previous ts starred [] (by simp)
    rw [List.append_nil] at read
    rw [Text.join, read]
    simp [State.read, finish, closed, outside, tokensBehind]
  | cons next more =>
    have read := read_segment lenient previous ts starred
      ('/' :: Text.join ['/'] (next :: more)) (by simp)
    have slash := read_literal lenient previous ((segmentTokens segment).reverse ++ ts)
      (c := '/') (by decide) (by decide) (Text.join ['/'] (next :: more))
    rw [Text.join_cons_cons, List.append_assoc, List.singleton_append, read, slash,
      later (List.cons_ne_nil _ _)]
    simp

theorem read_behind {segments : List (List Char)} (filled : segments ≠ [])
    (spelled : ∀ segment ∈ segments, IsSpelled segment) (stars : Bool) :
    (plainly (some '/') (slashToken stars :: ts)).read lenient (Text.join ['/'] segments) =
      .ok (ts.reverse ++ tokensBehind stars segments) := by
  -- Double stars are merged with the token in front, so the induction is for either kind of it.
  induction segments generalizing stars ts with
  | nil => exact absurd rfl filled
  | cons segment rest ih =>
    obtain ⟨first, others⟩ := List.forall_mem_cons.mp spelled
    by_cases double : segment = anySegments
    · subst double
      rw [tokensBehind_double]
      cases rest with
      | nil =>
        have merged : (plainly (some '/') (slashToken stars :: ts)).read lenient ['*', '*'] =
            .ok (.trailing :: ts).reverse := by cases stars <;> rfl
        rw [List.reverse_cons] at merged
        exact merged
      | cons next more =>
        have merged : ∀ text,
            (plainly (some '/') (slashToken stars :: ts)).read lenient ('*' :: '*' :: '/' :: text) =
              (plainly (some '/') (slashToken true :: ts)).read lenient text := by
          intro text
          cases stars <;> rfl
        exact (merged _).trans (ih ts (List.cons_ne_nil _ _) others true)
    · have read := read_then lenient (some '/') (slashToken stars :: ts)
        (first.resolve_left double) fun filled ts => ih ts filled others false
      rw [read, tokensBehind_segment stars double]
      simp

theorem read_behind_leading {segments : List (List Char)} (filled : segments ≠ [])
    (spelled : ∀ segment ∈ segments, IsSpelled segment) :
    (plainly (some '/') [.leading]).read lenient (Text.join ['/'] segments) =
      .ok (inFront (tokensBehind true segments)) := by
  induction segments with
  | nil => exact absurd rfl filled
  | cons segment rest ih =>
    obtain ⟨first, others⟩ := List.forall_mem_cons.mp spelled
    by_cases double : segment = anySegments
    · subst double
      rw [tokensBehind_double]
      cases rest with
      | nil => rfl
      | cons next more =>
        have merged : ∀ text,
            (plainly (some '/') [.leading]).read lenient ('*' :: '*' :: '/' :: text) =
              (plainly (some '/') [.leading]).read lenient text := fun _ => rfl
        exact (merged _).trans (ih (List.cons_ne_nil _ _) others)
    · rw [tokensBehind_segment true double]
      exact read_then lenient (some '/') [.leading] (first.resolve_left double)
        fun filled ts => read_behind lenient ts filled others false

end State

theorem tokens_segment (lenient : Bool) {segment : List Char} (starred : IsStarred segment) :
    tokens lenient segment = .ok (segmentTokens segment) := by
  have read := State.read_then lenient none [] starred fun filled => absurd rfl filled
  rw [tokensBehind, List.append_nil] at read
  exact read

theorem tokens_join (lenient : Bool) {segments : List (List Char)} (filled : segments ≠ [])
    (spelled : ∀ segment ∈ segments, IsSpelled segment) :
    tokens lenient (Text.join ['/'] segments) = .ok (inFront (tokensBehind false segments)) := by
  obtain ⟨segment, rest, rfl⟩ := List.exists_cons_of_ne_nil filled
  obtain ⟨first, others⟩ := List.forall_mem_cons.mp spelled
  by_cases double : segment = anySegments
  · subst double
    rw [tokensBehind_double]
    cases rest with
    | nil => rfl
    | cons next more =>
      have leading : ∀ text, tokens lenient ('*' :: '*' :: '/' :: text) =
          (State.plainly (some '/') [.leading]).read lenient text := fun _ => rfl
      exact (leading _).trans (State.read_behind_leading lenient (List.cons_ne_nil _ _) others)
  · rw [tokensBehind_segment false double]
    exact State.read_then lenient none [] (first.resolve_left double)
      fun filled ts => State.read_behind lenient ts filled others false

theorem read_ok_iff {keepsSlashes : Bool} {text : String} {p : Pattern} :
    read keepsSlashes text = .ok p ↔
      p.keepsSlashes = keepsSlashes ∧ tokens false text.toList = .ok p.tokens := by
  obtain ⟨ts, keeps⟩ := p
  rw [read]
  cases tokens false text.toList with
  | error fault => exact ⟨nofun, nofun⟩
  | ok us => simp [and_comm, eq_comm]

end Glob

end SourcePages
