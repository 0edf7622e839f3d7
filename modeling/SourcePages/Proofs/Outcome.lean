import Mathlib.Data.List.Forall2

namespace SourcePages

variable {ε δ α β γ : Type}

@[simp] theorem ok_bind (a : α) (f : α → Except ε β) : (Except.ok a >>= f) = f a := rfl

theorem bind_ok {x : Except ε α} {f : α → Except ε β} {b : β} (made : x >>= f = .ok b) :
    ∃ a, x = .ok a ∧ f a = .ok b := by
  cases x with
  | error e => cases made
  | ok a => exact ⟨a, rfl, made⟩

theorem bind_error {x : Except ε α} {f : α → Except ε β} {e : ε} (failed : x >>= f = .error e) :
    x = .error e ∨ ∃ a, x = .ok a ∧ f a = .error e := by
  cases x with
  | error e =>
    cases failed
    exact .inl rfl
  | ok a => exact .inr ⟨a, rfl, failed⟩

theorem mapError_ok {x : Except ε α} {f : ε → δ} {a : α} :
    x.mapError f = .ok a ↔ x = .ok a := by
  cases x with
  | error e => exact ⟨nofun, nofun⟩
  | ok b => exact ⟨congrArg _ ∘ Except.ok.inj, congrArg _ ∘ Except.ok.inj⟩

theorem mapError_error {x : Except ε α} {f : ε → δ} {d : δ} :
    x.mapError f = .error d ↔ ∃ e, x = .error e ∧ f e = d := by
  cases x with
  | error e =>
    refine ⟨fun same => ⟨e, rfl, Except.error.inj same⟩, ?_⟩
    rintro ⟨_, ⟨⟩, rfl⟩
    rfl
  | ok a => exact ⟨nofun, nofun⟩

theorem error_iff {x : Except ε α} : (∃ e, x = .error e) ↔ ¬ ∃ a, x = .ok a := by
  cases x <;> simp

theorem mapM_ok_iff_forall₂ {f : α → Except ε β} {l : List α} {found : List β} :
    l.mapM f = .ok found ↔ List.Forall₂ (fun a b => f a = .ok b) l found := by
  induction l generalizing found with
  | nil =>
    rw [List.forall₂_nil_left_iff]
    exact ⟨fun made => (Except.ok.inj made).symm, fun none => none ▸ rfl⟩
  | cons a rest ih =>
    rw [List.mapM_cons, List.forall₂_cons_left_iff]
    constructor
    · intro made
      obtain ⟨b, here, later⟩ := bind_ok made
      obtain ⟨others, behind, same⟩ := bind_ok later
      exact ⟨b, others, here, ih.mp behind, (Except.ok.inj same).symm⟩
    · rintro ⟨b, others, here, behind, rfl⟩
      rw [here, ok_bind, ih.mpr behind]
      rfl

theorem mapM_ok {f : α → Except ε β} {found : α → β} {l : List α}
    (each : ∀ a ∈ l, f a = .ok (found a)) : l.mapM f = .ok (l.map found) := by
  rw [mapM_ok_iff_forall₂, List.forall₂_map_right_iff, List.forall₂_same]
  exact each

theorem mapM_map {f : α → Except ε β} {g : α → Except ε γ} {h : β → γ} {l : List α} {found : List β}
    (each : ∀ a b, f a = .ok b → g a = .ok (h b)) (made : l.mapM f = .ok found) :
    l.mapM g = .ok (found.map h) := by
  rw [mapM_ok_iff_forall₂] at made ⊢
  rw [List.forall₂_map_right_iff]
  exact made.imp each

theorem mapM_values {f : α → Except ε β} {h : α → β} {l : List α} {found : List β}
    (each : ∀ a ∈ l, ∀ b, f a = .ok b → b = h a) (made : l.mapM f = .ok found) :
    found = l.map h := by
  rw [mapM_ok_iff_forall₂] at made
  induction made with
  | nil => rfl
  | cons here _ ih =>
    obtain ⟨first, others⟩ := List.forall_mem_cons.mp each
    rw [List.map_cons, first _ here, ih others]

theorem mapM_members {f : α → Except ε β} {l : List α} {found : List β} (made : l.mapM f = .ok found) :
    (∀ a ∈ l, ∃ b ∈ found, f a = .ok b) ∧ ∀ b ∈ found, ∃ a ∈ l, f a = .ok b := by
  rw [mapM_ok_iff_forall₂] at made
  induction made with
  | nil => exact ⟨nofun, nofun⟩
  | cons here _ ih =>
    obtain ⟨forth, back⟩ := ih
    refine ⟨List.forall_mem_cons.mpr ⟨⟨_, List.mem_cons_self, here⟩, fun a member => ?_⟩,
      List.forall_mem_cons.mpr ⟨⟨_, List.mem_cons_self, here⟩, fun b member => ?_⟩⟩
    · obtain ⟨b, inside, read⟩ := forth a member
      exact ⟨b, List.mem_cons_of_mem _ inside, read⟩
    · obtain ⟨a, inside, read⟩ := back b member
      exact ⟨a, List.mem_cons_of_mem _ inside, read⟩

theorem mapM_error {f : α → Except ε β} {l : List α} {e : ε} (failed : l.mapM f = .error e) :
    ∃ a ∈ l, f a = .error e := by
  induction l with
  | nil => cases failed
  | cons a rest ih =>
    rw [List.mapM_cons] at failed
    rcases bind_error failed with here | ⟨b, -, later⟩
    · exact ⟨a, List.mem_cons_self, here⟩
    · rcases bind_error later with behind | ⟨_, -, none⟩
      · obtain ⟨a', member, failed⟩ := ih behind
        exact ⟨a', List.mem_cons_of_mem _ member, failed⟩
      · cases none

theorem mapM_ok_iff {f : α → Except ε β} {l : List α} :
    (∃ found, l.mapM f = .ok found) ↔ ∀ a ∈ l, ∃ b, f a = .ok b := by
  constructor
  · rintro ⟨found, made⟩ a member
    obtain ⟨b, -, read⟩ := (mapM_members made).1 a member
    exact ⟨b, read⟩
  · intro each
    induction l with
    | nil => exact ⟨[], rfl⟩
    | cons a rest ih =>
      obtain ⟨⟨b, first⟩, others⟩ := List.forall_mem_cons.mp each
      obtain ⟨found, later⟩ := ih others
      exact ⟨b :: found, mapM_ok_iff_forall₂.mpr (.cons first (mapM_ok_iff_forall₂.mp later))⟩

end SourcePages
