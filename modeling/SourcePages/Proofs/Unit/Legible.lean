import SourcePages.Proofs.Text.Split
import SourcePages.Proofs.Unit.Segmentation

namespace SourcePages

inductive Comments : List String → Prop where
  | nil : Comments []
  | cons {first rest : List String} (closed : Block.Closed ⟨.comment, first⟩)
      (later : Comments rest) : Comments (first ++ rest)

namespace Comments

theorem append {a b : List String} (ha : Comments a) (hb : Comments b) : Comments (a ++ b) := by
  induction ha with
  | nil => exact hb
  | cons closed _ ih =>
    rw [List.append_assoc]
    exact .cons closed ih

theorem single {lines : List String} (closed : Block.Closed ⟨.comment, lines⟩) :
    Comments lines := by
  have alone := Comments.cons closed .nil
  rwa [List.append_nil] at alone

theorem opens {lines : List String} (h : Comments lines) :
    lines = [] ∨ ∃ first rest, lines = first :: rest ∧ opensDoc first := by
  cases h with
  | nil => exact .inl rfl
  | cons closed later =>
    obtain ⟨first, rest, lines, opens⟩ := closed.1
    simp only at lines
    exact .inr ⟨first, _, by rw [lines, List.cons_append], opens⟩

theorem eq_of_append_eq {a b : List String} (ha : Comments a) (hb : Comments b)
    {head other : String} {r s : List String} (stops : ¬ opensDoc head)
    (stopsOther : ¬ opensDoc other) (same : a ++ head :: r = b ++ other :: s) :
    a = b ∧ head :: r = other :: s := by
  induction ha generalizing b with
  | nil =>
    rcases hb.opens with rfl | ⟨first, rest, rfl, opens⟩
    · exact ⟨rfl, same⟩
    · obtain ⟨rfl, -⟩ := List.cons.inj same
      exact absurd opens stops
  | cons closed _ ih =>
    cases hb with
    | nil =>
      obtain ⟨first, rest, lines, opens⟩ := closed.1
      simp only at lines
      rw [lines] at same
      obtain ⟨rfl, -⟩ := List.cons.inj same
      exact absurd opens stopsOther
    | cons otherClosed otherLater =>
      rw [List.append_assoc, List.append_assoc] at same
      obtain ⟨blocks, further⟩ := Block.Closed.eq_of_append_eq closed otherClosed same
      obtain ⟨rest, tail⟩ := ih otherLater further
      simp only [Block.mk.injEq, true_and] at blocks
      exact ⟨by rw [blocks, rest], tail⟩

end Comments

/-- A unit whose parts can be told apart without marks between them. -/
structure ExportedUnit.Legible (u : ExportedUnit) : Prop where
  signature : Block.Closed ⟨.declaration u.kind, u.signature⟩
  docs : Comments u.docs
  plain : ∀ line ∈ u.signature ++ u.docs, '\n' ∉ line.toList

namespace Segmentation

theorem legible_unitsFrom {segments : List Segment} (complete : ∀ s ∈ segments, s.Complete)
    (plain : ∀ line ∈ segments.flatMap Segment.lines, '\n' ∉ line.toList) (number : Nat)
    {comments : List String} (docs : Comments comments)
    (plainDocs : ∀ line ∈ comments, '\n' ∉ line.toList) :
    ∀ u ∈ unitsFrom number comments segments, u.Legible := by
  -- The comments that wait are closed ones, and a declaration takes all of them.
  induction segments generalizing number comments with
  | nil => simp [unitsFrom]
  | cons segment rest ih =>
    have here := complete segment List.mem_cons_self
    have later := ih fun s member => complete s (List.mem_cons_of_mem _ member)
    rw [List.flatMap_cons, List.forall_mem_append] at plain
    rcases segment with line | ⟨_ | kind, lines⟩
    · exact later plain.2 _ docs plainDocs
    · exact later plain.2 _ (docs.append (.single here))
        (List.forall_mem_append.mpr ⟨plainDocs, plain.1⟩)
    · intro u member
      rcases List.mem_cons.mp member with rfl | member
      · exact ⟨here, docs, List.forall_mem_append.mpr ⟨plain.1, plainDocs⟩⟩
      · exact later plain.2 _ .nil (by simp) u member

end Segmentation

theorem legible_extract (text : String) : ∀ u ∈ extract text, u.Legible := by
  obtain ⟨proper, lines, units⟩ := Segmentation.ofLines_spec (Text.lines text)
  intro u member
  rw [extract, units] at member
  refine Segmentation.legible_unitsFrom proper.1 (fun line inside => ?_) 0 .nil (by simp) u member
  have inText : line ∈ Text.lines text := lines ▸ List.mem_append_left _ inside
  exact Text.not_mem_of_mem_lines inText

end SourcePages
