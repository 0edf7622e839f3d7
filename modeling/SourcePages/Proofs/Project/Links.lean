import SourcePages.Proofs.Project.Process
import SourcePages.Proofs.Unit.Span

namespace SourcePages

def byteLines (bytes : List UInt8) : List (List UInt8) := Text.split 0x0A bytes

theorem lines_sourceText (bytes : List UInt8) :
    Text.lines (sourceText bytes) = (byteLines bytes).map sourceText := by
  rw [Text.lines, sourceText, String.toList_ofList, Text.split_decodeLossy, List.map_map]
  rfl

/-- The lines of a unit are those lines of bytes that its span tells, each decoded on its own, and
the lines of the next unit come after them. -/
theorem units_at_byteLines (bytes : List UInt8) :
    (∀ u ∈ extract (sourceText bytes), u.span.start ≤ u.span.stop ∧
      u.span.stop < (byteLines bytes).length ∧
      u.signature = (((byteLines bytes).drop u.span.start).take
        (u.span.stop + 1 - u.span.start)).map sourceText) ∧
    (extract (sourceText bytes)).Pairwise fun a b => a.span.stop < b.span.start := by
  obtain ⟨stands, apart⟩ := standsIn_extract (sourceText bytes)
  rw [lines_sourceText] at stands
  refine ⟨fun u member => ?_, apart⟩
  obtain ⟨-, ordered, last⟩ := (stands u member).bounds
  rw [Nat.zero_add, List.length_map] at last
  refine ⟨ordered, last, ?_⟩
  rw [List.map_take, List.map_drop]
  exact (stands u member).signature_eq

end SourcePages
