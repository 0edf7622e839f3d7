namespace SourcePages

variable {α : Type}

theorem lookup_entry (key : String) (value : α) (rest : List (String × α)) (name : String) :
    ((key, value) :: rest).lookup name = if name = key then some value else rest.lookup name := by
  rw [List.lookup_cons]
  cases h : name == key
  · simp [beq_eq_false_iff_ne.1 h]
  · simp [beq_iff_eq.1 h]

theorem lookup_of_mem {entries : List (String × α)} (distinct : (entries.map (·.1)).Nodup)
    {name : String} {value : α} (member : (name, value) ∈ entries) :
    entries.lookup name = some value := by
  induction entries with
  | nil => cases member
  | cons entry rest ih =>
    obtain ⟨key, first⟩ := entry
    obtain ⟨absent, later⟩ := List.nodup_cons.mp distinct
    rw [lookup_entry]
    rcases List.mem_cons.mp member with same | inside
    · cases same
      rw [if_pos rfl]
    · have other : name ≠ key := by
        rintro rfl
        exact absent (List.mem_map.mpr ⟨(name, value), inside, rfl⟩)
      rw [if_neg other]
      exact ih later inside

theorem mem_of_lookup {entries : List (String × α)} {name : String} {value : α}
    (found : entries.lookup name = some value) : (name, value) ∈ entries := by
  obtain ⟨before, after, parts, -⟩ := List.lookup_eq_some_iff.mp found
  simp [parts]

theorem lookup_none_of_absent {entries : List (String × α)} {name : String}
    (absent : name ∉ entries.map (·.1)) : entries.lookup name = none := by
  cases found : entries.lookup name with
  | none => rfl
  | some value => exact absurd (List.mem_map.mpr ⟨_, mem_of_lookup found, rfl⟩) absent

theorem lookup_perm {entries entries' : List (String × α)} (distinct : (entries.map (·.1)).Nodup)
    (perm : entries.Perm entries') (name : String) :
    entries'.lookup name = entries.lookup name := by
  have distinct' : (entries'.map (·.1)).Nodup := (perm.map _).nodup_iff.mp distinct
  cases found : entries.lookup name with
  | some value => exact lookup_of_mem distinct' (perm.subset (mem_of_lookup found))
  | none =>
    cases found' : entries'.lookup name with
    | none => rfl
    | some value =>
      rw [lookup_of_mem distinct (perm.symm.subset (mem_of_lookup found'))] at found
      cases found

end SourcePages
