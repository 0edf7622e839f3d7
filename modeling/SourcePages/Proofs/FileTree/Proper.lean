import SourcePages.Proofs.FileTree.Resolve

namespace SourcePages

theorem mem_setEntry {name : String} {new : Node} {entries : List (String × Node)}
    {entry : String × Node} (member : entry ∈ setEntry name new entries) :
    entry = (name, new) ∨ entry ∈ entries := by
  induction entries with
  | nil => exact .inl (List.mem_singleton.mp member)
  | cons first rest ih =>
    obtain ⟨key, old⟩ := first
    rw [setEntry] at member
    split at member
    · rcases List.mem_cons.mp member with same | later
      · exact .inl same
      · exact .inr (List.mem_cons_of_mem _ later)
    · rcases List.mem_cons.mp member with same | later
      · exact .inr (same ▸ List.mem_cons_self)
      · exact (ih later).imp_right (List.mem_cons_of_mem _)

theorem nodup_setEntry {name : String} {new : Node} {entries : List (String × Node)}
    (distinct : (entries.map (·.1)).Nodup) : ((setEntry name new entries).map (·.1)).Nodup := by
  induction entries with
  | nil => simp [setEntry]
  | cons first rest ih =>
    obtain ⟨key, old⟩ := first
    obtain ⟨absent, later⟩ := List.nodup_cons.mp distinct
    rw [setEntry]
    split
    · rename_i same
      rw [← same]
      exact distinct
    · rename_i other
      refine List.nodup_cons.mpr ⟨?_, ih later⟩
      intro inside
      obtain ⟨entry, member, same⟩ := List.mem_map.mp inside
      rcases mem_setEntry member with rfl | old
      · exact other same.symm
      · exact absent (List.mem_map.mpr ⟨entry, old, same⟩)

namespace Node

theorem Proper.below {n x : Node} {location : Location} (h : n.Proper)
    (found : n.at? location = some x) : x.Proper := by
  intro further entries inside
  apply h (location ++ further) entries
  rw [at?_append, found, Option.bind_some, inside]

theorem Proper.entry {entries : List (String × Node)} (h : (Node.dir entries).Proper)
    {name : String} {node : Node} (member : (name, node) ∈ entries) :
    IsName name ∧ (Node.dir entries).at? [name] = some node ∧ node.Proper := by
  obtain ⟨distinct, named⟩ := h [] entries rfl
  have found : (Node.dir entries).at? [name] = some node := by
    simp [at?, child?, lookup_of_mem distinct member]
  exact ⟨named _ member, found, h.below found⟩

theorem Proper.names {n x : Node} (h : n.Proper) {location : Location}
    (found : n.at? location = some x) : ∀ name ∈ location, IsName name := by
  induction location generalizing n with
  | nil => simp
  | cons name rest ih =>
    cases n with
    | file bytes => cases found
    | link target => cases found
    | dir entries =>
      obtain ⟨child, entry, further⟩ := Option.bind_eq_some_iff.mp found
      obtain ⟨named, -, proper⟩ := h.entry (mem_of_lookup entry)
      intro other inside
      rcases List.mem_cons.mp inside with rfl | inside
      · exact named
      · exact ih proper further other inside

theorem LinkFree.below {n x : Node} {location : Location} (h : n.LinkFree)
    (found : n.at? location = some x) : x.LinkFree := by
  intro further target link
  apply h (location ++ further) target
  rwa [seen?, at?_append, found, Option.bind_some]

theorem LinkFree.file (bytes : List UInt8) : (Node.file bytes).LinkFree := by
  intro location target link
  cases location with
  | nil => cases link
  | cons name rest => cases link

theorem LinkFree.dir {entries : List (String × Node)}
    (free : ∀ entry ∈ entries, entry.2.LinkFree) : (Node.dir entries).LinkFree := by
  intro location target link
  cases location with
  | nil => cases link
  | cons name rest =>
    rw [seen?_dir_cons] at link
    obtain ⟨child, found, further⟩ := Option.bind_eq_some_iff.mp link
    exact free (name, child) (mem_of_lookup found) rest target further

theorem LinkFree.single (name : String) (bytes : List UInt8) :
    (Node.dir [(name, .file bytes)]).LinkFree :=
  .dir (List.forall_mem_singleton.mpr (.file bytes))

theorem Proper.file (bytes : List UInt8) : (Node.file bytes).Proper := by
  intro location entries found
  cases location with
  | nil => cases found
  | cons name rest => cases found

theorem Proper.link (target : String) : (Node.link target).Proper := by
  intro location entries found
  cases location with
  | nil => cases found
  | cons name rest => cases found

theorem Proper.dir {entries : List (String × Node)} (distinct : (entries.map (·.1)).Nodup)
    (named : ∀ entry ∈ entries, IsName entry.1) (proper : ∀ entry ∈ entries, entry.2.Proper) :
    (Node.dir entries).Proper := by
  intro location others there
  cases location with
  | nil =>
    cases there
    exact ⟨distinct, named⟩
  | cons name rest =>
    obtain ⟨child, found, further⟩ := Option.bind_eq_some_iff.mp there
    exact proper (name, child) (mem_of_lookup found) rest others further

theorem Proper.single {name : String} (named : IsName name) (bytes : List UInt8) :
    (Node.dir [(name, .file bytes)]).Proper :=
  .dir (by simp) (List.forall_mem_singleton.mpr named)
    (List.forall_mem_singleton.mpr (.file bytes))

theorem Proper.setEntry {entries : List (String × Node)} (h : (Node.dir entries).Proper)
    {name : String} {new : Node} (named : IsName name) (proper : new.Proper) :
    (Node.dir (setEntry name new entries)).Proper := by
  refine .dir (nodup_setEntry (h [] entries rfl).1) ?_ ?_
  · intro entry member
    rcases mem_setEntry member with rfl | old
    · exact named
    · exact (h.entry old).1
  · intro entry member
    rcases mem_setEntry member with rfl | old
    · exact proper
    · exact (h.entry old).2.2

theorem Proper.put {n new : Node} {location : Location} (h : n.Proper) (fresh : new.Proper)
    (named : ∀ name ∈ location, IsName name) : (n.put new location).Proper := by
  induction location generalizing n with
  | nil => exact fresh
  | cons name rest ih =>
    have own := named name List.mem_cons_self
    cases n with
    | file bytes => exact h
    | link target => exact h
    | dir entries =>
      rw [put_dir_cons]
      cases found : entries.lookup name with
      | some child =>
        have inside : (Node.dir entries).at? [name] = some child := by simp [at?, child?, found]
        exact h.setEntry own (ih (h.below inside) fun part member =>
          named part (List.mem_cons_of_mem _ member))
      | none =>
        dsimp only
        split
        · exact h.setEntry own fresh
        · exact h

end Node

namespace FileTree

section

variable {s t : FileTree} {p : Path} (proper : t.top.Proper)

include proper

theorem path_of_canonical {q : Path} (path : t.canonical p = .ok q) :
    ∃ location : Location, (∀ name ∈ location, IsName name) ∧ q = location.path := by
  obtain ⟨location, n, found, same⟩ := node_of_canonical path
  exact ⟨location, proper.names (at?_of_node found), same⟩

theorem names_of_within {place : Place} (within : place.Within t.top) :
    ∀ name ∈ place.location, IsName name := by
  cases place with
  | node location n => exact proper.names within
  | vacant directory name wantsDirectory =>
    obtain ⟨named, dir, -⟩ := within
    obtain ⟨entries, found⟩ := Node.at?_of_seen_dir dir
    exact List.forall_mem_append.mpr ⟨proper.names found, List.forall_mem_singleton.mpr named⟩

theorem proper_put {place : Place} (within : place.Within t.top) {n : Node} (fresh : n.Proper) :
    (t.put place.location n).top.Proper := proper.put fresh (names_of_within proper within)

theorem proper_write {bytes : List UInt8} (written : t.write p bytes = .ok s) : s.top.Proper := by
  unfold write at written
  split at written
  · cases written
  · rename_i resolved
    cases written
    exact proper_put proper (within_of_resolve resolved) (.file bytes)
  · rename_i resolved
    split at written
    · cases written
    · cases written
      exact proper_put proper (within_of_resolve resolved) (.file bytes)
  · cases written

theorem proper_makeDirectory (made : t.makeDirectory p = .ok s) : s.top.Proper := by
  obtain ⟨directory, name, wanted, -, -, within, rfl⟩ := makeDirectory_ok made
  exact proper_put proper within (.dir .nil (by simp) (by simp))

end

end FileTree

end SourcePages
