import Mathlib.Data.List.Pairwise
import SourcePages.Proofs.Text.Utf8
import SourcePages.Proofs.Unit.Segmentation

namespace SourcePages

/-- Whether the lines of a unit stand where its span says, if the first of all lines has some
number. -/
def ExportedUnit.StandsIn (u : ExportedUnit) (number : Nat) (lines : List String) : Prop :=
  ∃ before after, lines = before ++ u.signature ++ after ∧ u.signature ≠ [] ∧
    u.span = ⟨number + before.length, number + before.length + u.signature.length - 1⟩

namespace ExportedUnit.StandsIn

variable {u : ExportedUnit} {number : Nat} {lines : List String}

theorem behind {front : List String} (h : u.StandsIn (number + front.length) lines) :
    u.StandsIn number (front ++ lines) := by
  obtain ⟨before, after, parts, filled, span⟩ := h
  refine ⟨front ++ before, after, by simp [parts], filled, ?_⟩
  rw [span, List.length_append, Nat.add_assoc]

theorem followed {front : List String} (h : u.StandsIn number front) (more : List String) :
    u.StandsIn number (front ++ more) := by
  obtain ⟨before, after, parts, filled, span⟩ := h
  exact ⟨before, after ++ more, by simp [parts], filled, span⟩

theorem bounds (h : u.StandsIn number lines) :
    number ≤ u.span.start ∧ u.span.start ≤ u.span.stop ∧
      u.span.stop < number + lines.length := by
  obtain ⟨before, after, parts, filled, span⟩ := h
  have lone := List.length_pos_iff.mpr filled
  have length := congrArg List.length parts
  simp only [List.length_append] at length
  simp only [span]
  omega

theorem signature_eq (h : u.StandsIn 0 lines) :
    u.signature = (lines.drop u.span.start).take (u.span.stop + 1 - u.span.start) := by
  obtain ⟨before, after, parts, filled, span⟩ := h
  have lone := List.length_pos_iff.mpr filled
  have length : 0 + before.length + u.signature.length - 1 + 1 - (0 + before.length) =
      u.signature.length := by omega
  rw [span]
  simp only [length]
  rw [Nat.zero_add, parts, List.append_assoc, List.drop_left, List.take_left]

end ExportedUnit.StandsIn

namespace Segmentation

theorem standsIn_unitsFrom {segments : List Segment} (complete : ∀ s ∈ segments, s.Complete)
    (number : Nat) (comments : List String) :
    (∀ u ∈ unitsFrom number comments segments,
      u.StandsIn number (segments.flatMap Segment.lines)) ∧
    (unitsFrom number comments segments).Pairwise fun a b => a.span.stop < b.span.start := by
  induction segments generalizing number comments with
  | nil => simp [unitsFrom]
  | cons segment rest ih =>
    have filled := (complete segment List.mem_cons_self).ne_nil
    have later := ih fun s member => complete s (List.mem_cons_of_mem _ member)
    rw [List.flatMap_cons]
    rcases segment with line | ⟨_ | kind, lines⟩
    · obtain ⟨stands, apart⟩ := later (number + 1) comments
      exact ⟨fun u member => (stands u member).behind, apart⟩
    · obtain ⟨stands, apart⟩ := later (number + lines.length) (comments ++ lines)
      exact ⟨fun u member => (stands u member).behind, apart⟩
    · obtain ⟨stands, apart⟩ := later (number + lines.length) []
      have own : ExportedUnit.StandsIn
          ⟨kind, lines, comments, ⟨number, number + lines.length - 1⟩⟩ number lines :=
        ⟨[], [], by simp, filled, rfl⟩
      rw [unitsFrom]
      constructor
      · intro u member
        rcases List.mem_cons.mp member with rfl | member
        · exact own.followed _
        · exact (stands u member).behind
      · refine List.pairwise_cons.mpr ⟨?_, apart⟩
        intro u member
        have next := (stands u member).bounds.1
        have ends := own.bounds.2.2
        dsimp only at ends ⊢
        omega

end Segmentation

theorem standsIn_extract (text : String) :
    (∀ u ∈ extract text, u.StandsIn 0 (Text.lines text)) ∧
      (extract text).Pairwise fun a b => a.span.stop < b.span.start := by
  obtain ⟨proper, lines, units⟩ := Segmentation.ofLines_spec (Text.lines text)
  obtain ⟨stands, apart⟩ := Segmentation.standsIn_unitsFrom proper.1 0 []
  rw [extract, units]
  refine ⟨fun u member => ?_, apart⟩
  have inside := (stands u member).followed (Segmentation.tailLines (Segmentation.ofLines
    (Text.lines text)).unclosed)
  exact lines ▸ inside

end SourcePages
