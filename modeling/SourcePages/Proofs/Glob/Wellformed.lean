import SourcePages.Proofs.Glob.Reading
import SourcePages.Proofs.Outcome

/-!
Which pieces of a pattern are patterns themselves. A reader that has groups open reads a piece as a
fresh one does, unless the piece closes a group that it has not opened. So a piece that does not begin
in a class is a pattern if and only if it ends in no class and behind no backslash, and closes just
the groups that it opens.
-/

namespace SourcePages.Glob

def IsGlob (text : List Char) : Prop := ∃ ts, tokens false text = .ok ts

namespace State

def Free (s : State) : Prop := s.place ≠ .afterBackslash ∧ ∀ r, s.place ≠ .inClass r

def after (s : State) : List Char → Except Fault State
  | [] => .ok s
  | c :: rest => s.step false c [] >>= fun next => next.after rest

theorem step_strict (s : State) (c : Char) (rest : List Char) :
    s.step false c rest = s.step false c [] := by
  have plain : ∀ s : State, s.stepPlain false c rest = s.stepPlain false c [] := by
    intro s
    simp only [stepPlain, Bool.false_and]
  simp only [step, plain]

theorem read_eq_after (s : State) (text : List Char) :
    s.read false text = s.after text >>= State.finish := by
  induction text generalizing s with
  | nil => rfl
  | cons c rest ih =>
    rw [read, after, step_strict]
    cases s.step false c [] with
    | error e => rfl
    | ok next => exact ih next

theorem after_append (s : State) (a b : List Char) :
    s.after (a ++ b) = s.after a >>= fun t => t.after b := by
  induction a generalizing s with
  | nil => rfl
  | cons c rest ih =>
    rw [List.cons_append, after, after]
    cases s.step false c [] with
    | error e => rfl
    | ok next => exact ih next

theorem stars_spec (s : State) (next : Option Char) : (s.stars next).1.groups = s.groups ∧
    (s.stars next).1.literalBrackets = s.literalBrackets ∧
    ((s.stars next).2 = true → next = some '/') := by
  have merged : ∀ token, (s.merge token).groups = s.groups ∧
      (s.merge token).literalBrackets = s.literalBrackets := by
    intro token
    unfold merge
    split <;> exact ⟨rfl, rfl⟩
  unfold stars
  dsimp only
  split
  · split <;> exact ⟨rfl, rfl, by simp⟩
  · split
    · split
      · exact ⟨(merged _).1, (merged _).2, by simp⟩
      · exact ⟨(merged _).1, (merged _).2, by simp⟩
      · split
        · exact ⟨(merged _).1, (merged _).2, by simp⟩
        · exact ⟨rfl, rfl, by simp⟩
    · exact ⟨rfl, rfl, by simp⟩

theorem closed_ok_iff {s : State} : (∃ ts, s.closed = .ok ts) ↔ s.groups = [] := by
  unfold closed
  cases s.groups <;> simp

theorem finish_ok_iff {s : State} : (∃ ts, s.finish = .ok ts) ↔ s.Free ∧ s.groups = [] := by
  unfold finish Free
  split
  · rename_i place
    simp [closed_ok_iff, place]
  · rename_i place
    rw [closed_ok_iff]
    simp [push, place]
  · rename_i place
    rw [closed_ok_iff, (s.stars_spec none).1]
    simp [place]
  · rename_i place
    simp [place]
  · rename_i place
    simp [place]

end State

theorem isGlob_iff {text : List Char} :
    IsGlob text ↔ ∃ s, State.after {} text = .ok s ∧ s.Free ∧ s.groups = [] := by
  simp only [IsGlob, tokens, State.read_eq_after, ← State.finish_ok_iff]
  constructor
  · rintro ⟨ts, read⟩
    obtain ⟨s, behind, finished⟩ := bind_ok read
    exact ⟨s, behind, ts, finished⟩
  · rintro ⟨s, behind, ts, finished⟩
    exact ⟨ts, by rw [behind, ok_bind, finished]⟩

namespace State

/-- Two readers at the same place, of which the second has more groups open. Both take brackets for
what opens classes. -/
structure Over (depth : Nat) (inner outer : State) : Prop where
  place : outer.place = inner.place
  groups : outer.groups.length = inner.groups.length + depth
  strict : inner.literalBrackets = false ∧ outer.literalBrackets = false

/-- Whether two readers go on alike, or the second one closes a group that the first has not. -/
def Alike (depth : Nat) : Except Fault State → Except Fault State → Prop
  | .ok inner, .ok outer => Over depth inner outer
  | .error e, .error f => e = f
  | .error _, .ok outer => outer.groups.length < depth
  | .ok _, .error _ => False

theorem comma_spec (s : State) : s.comma.place = s.place ∧
    s.comma.groups.length = s.groups.length ∧ s.comma.literalBrackets = s.literalBrackets := by
  unfold comma
  split
  · exact ⟨rfl, rfl, rfl⟩
  · rename_i groups
    simp [groups]

section

variable {depth : Nat}

theorem Over.comma {s t : State} (higher : Over depth s t) : Over depth s.comma t.comma := by
  obtain ⟨place, groups, brackets⟩ := s.comma_spec
  obtain ⟨place', groups', brackets'⟩ := t.comma_spec
  refine ⟨?_, ?_, ?_⟩
  · rw [place, place', higher.place]
  · rw [groups, groups', higher.groups]
  · rw [brackets, brackets']
    exact higher.strict

theorem Over.closeGroup {s t : State} (higher : Over depth s t) :
    Alike depth s.closeGroup t.closeGroup := by
  obtain ⟨place, groups, strict⟩ := higher
  unfold State.closeGroup
  cases inner : s.groups with
  | nil =>
    rw [inner, List.length_nil, Nat.zero_add] at groups
    cases outer : t.groups with
    | nil => rfl
    | cons g rest =>
      rw [outer, List.length_cons] at groups
      exact Nat.lt_of_succ_le (Nat.le_of_eq groups)
  | cons g rest =>
    rw [inner, List.length_cons] at groups
    cases outer : t.groups with
    | nil =>
      rw [outer, List.length_nil] at groups
      omega
    | cons h more =>
      rw [outer, List.length_cons] at groups
      exact ⟨place, show more.length = rest.length + depth by omega, strict⟩

variable (s t : State) (groups : t.groups.length = s.groups.length + depth)
  (strict : s.literalBrackets = false ∧ t.literalBrackets = false) (c : Char)

include groups strict

theorem alike_stepPlain : Alike depth (s.stepPlain false c []) (t.stepPlain false c []) := by
  unfold stepPlain
  dsimp only
  split
  case h_3 =>
    rw [strict.1, strict.2]
    exact ⟨rfl, groups, rfl, rfl⟩
  case h_4 =>
    refine ⟨rfl, ?_, strict⟩
    simp only [List.length_cons, groups]
    omega
  case h_5 => exact Over.closeGroup ⟨rfl, groups, strict⟩
  case h_6 => exact Over.comma ⟨rfl, groups, strict⟩
  all_goals exact ⟨rfl, groups, strict⟩

theorem alike_afterStars (inner : s.place = .afterStars) (outer : t.place = .afterStars) :
    Alike depth (s.step false c []) (t.step false c []) := by
  obtain ⟨same, brackets, slashed⟩ := s.stars_spec (some c)
  obtain ⟨same', brackets', slashed'⟩ := t.stars_spec (some c)
  rw [← same, ← same'] at groups
  rw [← brackets, ← brackets'] at strict
  rw [step, step, inner, outer]
  generalize s.stars (some c) = first at groups strict slashed ⊢
  generalize t.stars (some c) = second at groups strict slashed' ⊢
  obtain ⟨u, taken⟩ := first
  obtain ⟨v, taken'⟩ := second
  cases taken with
  | true =>
    cases Option.some.inj (slashed rfl)
    cases taken' <;> exact ⟨rfl, groups, strict⟩
  | false =>
    cases taken' with
    | true =>
      cases Option.some.inj (slashed' rfl)
      exact ⟨rfl, groups, strict⟩
    | false =>
      exact alike_stepPlain { u with previous := some '*' } { v with previous := some '*' } groups
        strict c

end

section

variable {depth : Nat} {s t : State}

theorem Over.step (higher : Over depth s t) (c : Char) :
    Alike depth (s.step false c []) (t.step false c []) := by
  obtain ⟨place, groups, strict⟩ := higher
  cases inner : s.place with
  | plain =>
    rw [State.step, State.step, place, inner]
    exact alike_stepPlain s t groups strict c
  | afterStar =>
    rw [State.step, State.step, place, inner]
    dsimp only
    split
    · exact ⟨rfl, groups, strict⟩
    · exact alike_stepPlain { s.push .run with previous := some '*' }
        { t.push .run with previous := some '*' } groups strict c
  | afterStars => exact alike_afterStars s t groups strict c inner (place.trans inner)
  | afterBackslash =>
    rw [State.step, State.step, place, inner]
    exact ⟨rfl, groups, strict⟩
  | inClass r =>
    rw [State.step, State.step, place, inner]
    dsimp only
    cases r.step c with
    | error e => rfl
    | ok next => cases next <;> exact ⟨rfl, groups, strict⟩

theorem Over.after (higher : Over depth s t) (piece : List Char) :
    (∃ u v, s.after piece = .ok u ∧ t.after piece = .ok v ∧ Over depth u v) ∨
      (∃ e, s.after piece = .error e) ∧
        ((∃ e, t.after piece = .error e) ∨
          ∃ front v, front <+: piece ∧ t.after front = .ok v ∧ v.groups.length < depth) := by
  induction piece generalizing s t with
  | nil => exact .inl ⟨s, t, rfl, rfl, higher⟩
  | cons c rest ih =>
    have first := higher.step c
    rw [State.after, State.after]
    revert first
    cases s.step false c [] with
    | error e =>
      cases outer : t.step false c [] with
      | error f => exact fun _ => .inr ⟨⟨e, rfl⟩, .inl ⟨f, rfl⟩⟩
      | ok next =>
        intro closed
        refine .inr ⟨⟨e, rfl⟩, .inr ⟨[c], next, ⟨rest, rfl⟩, ?_, closed⟩⟩
        rw [State.after, outer]
        rfl
    | ok inner =>
      cases outer : t.step false c [] with
      | error f => exact nofun
      | ok next =>
        intro higher
        refine (ih higher).imp id (And.imp id (Or.imp id ?_))
        rintro ⟨front, v, starts, behind, closed⟩
        refine ⟨c :: front, v, List.cons_prefix_cons.mpr ⟨rfl, starts⟩, ?_, closed⟩
        rwa [State.after, outer]

theorem Over.after_ok {u : State} {piece : List Char} (higher : Over depth s t)
    (inner : s.after piece = .ok u) : ∃ v, t.after piece = .ok v ∧ Over depth u v := by
  rcases higher.after piece with ⟨u', v, inner', outer, higher⟩ | ⟨⟨e, failed⟩, -⟩
  · rw [inner] at inner'
    cases inner'
    exact ⟨v, outer, higher⟩
  · rw [inner] at failed
    cases failed

end

/-- Whether a reader that goes through a piece closes just the groups that it opens there, and comes
out of it in no class and behind no backslash. -/
def Closes (s : State) (piece : List Char) : Prop :=
  (∃ t, s.after piece = .ok t ∧ t.Free ∧ t.groups.length = s.groups.length) ∧
    ∀ front t, front <+: piece → s.after front = .ok t → s.groups.length ≤ t.groups.length

section

variable {s : State} {before piece : List Char}

theorem over_of_after (behind : State.after {} before = .ok s) (plain : s.place = .plain) :
    Over s.groups.length {} s := by
  have start : Over 0 {} {} := ⟨rfl, rfl, rfl, rfl⟩
  obtain ⟨t, -, higher⟩ := start.after_ok behind
  exact ⟨plain, (Nat.zero_add _).symm, rfl, higher.strict.1⟩

theorem exists_after_front {front : List Char} {t : State} (starts : front <+: piece)
    (whole : s.after piece = .ok t) : ∃ u, s.after front = .ok u := by
  obtain ⟨rest, rfl⟩ := starts
  rw [after_append] at whole
  obtain ⟨u, half, -⟩ := bind_ok whole
  exact ⟨u, half⟩

/-- A piece is read alike on its own and inside a pattern, as long as it leaves the groups alone that
were opened in front of it. -/
theorem isGlob_iff_closes (behind : State.after {} before = .ok s) (plain : s.place = .plain) :
    IsGlob piece ↔ s.Closes piece := by
  have start := over_of_after behind plain
  rw [isGlob_iff]
  constructor
  · rintro ⟨u, alone, free, closed⟩
    refine ⟨?_, fun front v starts half => ?_⟩
    · obtain ⟨v, whole, higher⟩ := start.after_ok alone
      refine ⟨v, whole, ?_, ?_⟩
      · rwa [Free, higher.place]
      · rw [higher.groups, closed, List.length_nil, Nat.zero_add]
    · obtain ⟨t, alone'⟩ := exists_after_front starts alone
      obtain ⟨v', half', higher⟩ := start.after_ok alone'
      rw [half] at half'
      cases half'
      rw [higher.groups]
      exact Nat.le_add_left _ _
  · rintro ⟨⟨v, whole, free, closed⟩, apart⟩
    rcases start.after piece with ⟨u, v', alone, whole', higher⟩ |
        ⟨-, ⟨e, failed⟩ | ⟨front, t, starts, half, low⟩⟩
    · rw [whole] at whole'
      cases whole'
      refine ⟨u, alone, ?_, ?_⟩
      · rwa [Free, higher.place] at free
      · have groups := higher.groups
        exact List.length_eq_zero_iff.mp (by omega)
    · rw [whole] at failed
      cases failed
    · exact absurd low (Nat.not_lt.mpr (apart front t starts half))

theorem step_slash {t : State} (free : s.Free) (next : s.step false '/' [] = .ok t) :
    t.place = .plain ∧ t.groups = s.groups := by
  obtain ⟨escaped, inside⟩ := free
  unfold step at next
  split at next
  case h_1 =>
    cases next
    exact ⟨rfl, rfl⟩
  case h_2 =>
    cases next
    exact ⟨rfl, rfl⟩
  case h_3 =>
    obtain ⟨same, -, -⟩ := s.stars_spec (some '/')
    generalize s.stars (some '/') = first at next same
    obtain ⟨u, taken⟩ := first
    cases taken <;> (cases next; exact ⟨rfl, same⟩)
  case h_4 place => exact absurd place escaped
  case h_5 r place => exact absurd place (inside r)

end

end State

/-- Whether no slash of a text stands in a group or in a class or behind a backslash. -/
def SlashesFree (text : List Char) : Prop :=
  ∀ before behind s, text = before ++ '/' :: behind → State.after {} before = .ok s →
    s.Free ∧ s.groups = []

namespace SlashesFree

variable {text : List Char} (free : SlashesFree text) (glob : IsGlob text)

include free glob

theorem begins {front rest : List Char} (whole : text = front ++ rest)
    (starts : front = [] ∨ ∃ start, front = start ++ ['/']) :
    ∃ s, State.after {} front = .ok s ∧ s.place = .plain ∧ s.groups = [] := by
  rcases starts with rfl | ⟨start, rfl⟩
  · exact ⟨{}, rfl, rfl, rfl⟩
  · obtain ⟨t, read, -⟩ := isGlob_iff.mp glob
    obtain ⟨s, behind⟩ := State.exists_after_front ⟨rest, whole.symm⟩ read
    have halves := behind
    rw [State.after_append] at halves
    obtain ⟨u, before, last⟩ := bind_ok halves
    obtain ⟨t, step, done⟩ := bind_ok last
    cases done
    obtain ⟨unbound, closed⟩ := free start rest u (by rw [whole]; simp) before
    obtain ⟨plain, same⟩ := State.step_slash unbound step
    exact ⟨s, behind, plain, same.trans closed⟩

theorem ends {front back : List Char} (whole : text = front ++ back)
    (stops : back = [] ∨ ∃ rest, back = '/' :: rest) :
    ∃ s, State.after {} front = .ok s ∧ s.Free ∧ s.groups = [] := by
  obtain ⟨t, read, freed, closed⟩ := isGlob_iff.mp glob
  rcases stops with rfl | ⟨rest, rfl⟩
  · rw [List.append_nil] at whole
    exact ⟨t, whole ▸ read, freed, closed⟩
  · obtain ⟨s, behind⟩ := State.exists_after_front ⟨'/' :: rest, whole.symm⟩ read
    exact ⟨s, behind, free front rest s whole behind⟩

theorem segment {segment : List Char} (member : segment ∈ Text.split '/' text) :
    IsGlob segment := by
  obtain ⟨front, back, whole, starts, stops⟩ := Text.exists_around_of_mem_split member
  obtain ⟨t, read, freed, closed⟩ := free.ends glob whole stops
  rw [List.append_assoc] at whole
  obtain ⟨s, before, plain, none⟩ := free.begins glob whole starts
  rw [State.after_append, before, ok_bind] at read
  refine (State.isGlob_iff_closes before plain).mpr ⟨⟨t, read, freed, ?_⟩, fun _ _ _ _ => ?_⟩
  · rw [closed, none]
  · rw [none]
    exact Nat.zero_le _

end SlashesFree

end SourcePages.Glob
