import SourcePages.FileTree.Basic
import SourcePages.Lookup

namespace SourcePages

/-- What is seen of a node from outside. -/
inductive Face where
  | file (bytes : List UInt8)
  | link (target : String)
  | dir
  deriving DecidableEq, Repr

def IsName (s : String) : Prop :=
  s ≠ "" ∧ s ≠ "." ∧ s ≠ ".." ∧ '/' ∉ s.toList

theorem lookup_setEntry (name : String) (node : Node) (entries : List (String × Node))
    (other : String) :
    (setEntry name node entries).lookup other =
      if other = name then some node else entries.lookup other := by
  induction entries with
  | nil => exact lookup_entry name node [] other
  | cons entry rest ih =>
    obtain ⟨key, old⟩ := entry
    by_cases hk : key = name
    · subst hk
      rw [setEntry, if_pos rfl, lookup_entry, lookup_entry]
      by_cases h : other = key <;> simp [h]
    · by_cases h : other = key
      · subst h
        rw [setEntry, if_neg hk, lookup_entry, lookup_entry, if_pos rfl, if_neg hk, if_pos rfl]
      · simp [setEntry, lookup_entry, hk, h, ih]

namespace Node

def face : Node → Face
  | .file bytes => .file bytes
  | .link target => .link target
  | .dir _ => .dir

def seen? (n : Node) (location : Location) : Option Face :=
  (n.at? location).map face

def Alike (a b : Node) : Prop :=
  ∀ location, a.seen? location = b.seen? location

theorem Alike.refl (a : Node) : a.Alike a := fun _ => rfl

theorem Alike.symm {a b : Node} (h : a.Alike b) : b.Alike a := fun location => (h location).symm

theorem Alike.trans {a b c : Node} (hab : a.Alike b) (hbc : b.Alike c) : a.Alike c :=
  fun location => (hab location).trans (hbc location)

def LinkFree (n : Node) : Prop :=
  ∀ location target, n.seen? location ≠ some (.link target)

def Proper (n : Node) : Prop :=
  ∀ location entries, n.at? location = some (.dir entries) →
    (entries.map (·.1)).Nodup ∧ ∀ entry ∈ entries, IsName entry.1

@[simp]
theorem seen?_nil (n : Node) : n.seen? [] = some n.face := rfl

theorem seen?_dir_cons (entries : List (String × Node)) (name : String) (rest : Location) :
    (Node.dir entries).seen? (name :: rest) =
      (entries.lookup name).bind fun child => child.seen? rest := by
  cases h : entries.lookup name <;> simp [seen?, at?, child?, h]

theorem seen?_setEntry (name : String) (new : Node) (entries : List (String × Node))
    (location : Location) :
    (Node.dir (setEntry name new entries)).seen? location =
      match location with
      | [] => some .dir
      | head :: rest =>
        if head = name then new.seen? rest else (Node.dir entries).seen? location := by
  cases location with
  | nil => rfl
  | cons head rest =>
    by_cases same : head = name <;> simp [seen?_dir_cons, lookup_setEntry, same]

theorem put_dir_cons (new : Node) (entries : List (String × Node)) (name : String)
    (rest : Location) :
    (Node.dir entries).put new (name :: rest) =
      match entries.lookup name with
      | some child => .dir (setEntry name (child.put new rest) entries)
      | none => if rest = [] then .dir (setEntry name new entries) else .dir entries := rfl

theorem seen?_put_of_outside (new : Node) {there : Location} :
    ∀ {n : Node} {location : Location}, ¬ there <+: location →
      (n.put new there).seen? location = n.seen? location := by
  induction there with
  | nil => intro n location outside; exact absurd List.nil_prefix outside
  | cons name rest ih =>
    intro n location outside
    rcases n with bytes | target | entries
    · rfl
    · rfl
    · rcases location with _ | ⟨head, tail⟩
      · rw [put_dir_cons]
        split
        · rfl
        · split <;> rfl
      · have below : head = name → ¬ rest <+: tail := by
          rintro rfl inside
          exact outside (List.cons_prefix_cons.2 ⟨rfl, inside⟩)
        rw [put_dir_cons]
        cases found : entries.lookup name with
        | some child =>
          rw [seen?_setEntry]
          by_cases same : head = name
          · subst same
            simp [seen?_dir_cons, found, ih (below rfl)]
          · simp [same]
        | none =>
          by_cases last : rest = []
          · have other : head ≠ name := fun same => below same (last ▸ List.nil_prefix)
            simp [last, seen?_setEntry, other]
          · simp [last]

def HasRoom (n : Node) (location : Location) : Prop :=
  location = [] ∨ n.seen? location.dropLast = some .dir

theorem eq_dir_of_face {n : Node} (h : n.face = .dir) : ∃ entries, n = .dir entries := by
  cases n with
  | dir entries => exact ⟨entries, rfl⟩
  | file bytes => cases h
  | link target => cases h

theorem seen?_put_append (new : Node) (below : Location) {there : Location} :
    ∀ {n : Node}, n.HasRoom there → (n.put new there).seen? (there ++ below) = new.seen? below := by
  induction there with
  | nil => intro n room; rfl
  | cons name rest ih =>
    intro n room
    have above := room.resolve_left (List.cons_ne_nil name rest)
    rcases rest with _ | ⟨next, further⟩
    · obtain ⟨entries, rfl⟩ := eq_dir_of_face (Option.some.inj above)
      rw [put_dir_cons]
      cases entries.lookup name <;> simp [seen?_setEntry, put]
    · rcases n with bytes | target | entries
      · cases above
      · cases above
      · rw [List.dropLast_cons_cons, seen?_dir_cons] at above
        rw [put_dir_cons]
        cases found : entries.lookup name with
        | none => rw [found] at above; cases above
        | some child =>
          rw [found] at above
          simp only [List.cons_append, seen?_setEntry, if_true]
          exact ih (.inr above)

end Node

end SourcePages
