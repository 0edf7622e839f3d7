import Mathlib.Algebra.Group.Nat.Defs
import SourcePages.Proofs.Text.Split
import SourcePages.Text.Utf8

/-!
Lossy decoding and lines. A line feed ends every character that is open before it, and nothing else
decodes to a line feed, so it makes no difference whether bytes are decoded before or after they are
split into lines.
-/

namespace SourcePages.Text

theorem split_append_of_not_mem {α : Type} [DecidableEq α] {separator : α} {front : List α}
    (plain : separator ∉ front) {s piece : List α} {pieces : List (List α)}
    (parts : split separator s = piece :: pieces) :
    split separator (front ++ s) = (front ++ piece) :: pieces := by
  induction front with
  | nil => exact parts
  | cons a rest ih =>
    have other : a ≠ separator := fun same => plain (same ▸ List.mem_cons_self)
    have later := ih fun inside => plain (List.mem_cons_of_mem _ inside)
    rw [List.cons_append, split, if_neg other, later]
    rfl

/-- Whether every character that an open one may become takes more than one byte. The least of them
goes on with the least byte and then with bytes that add nothing. -/
structure Partial.Wide (p : Partial) : Prop where
  low : 0x80 ≤ p.low.toNat
  least : 0x80 ≤ (p.bits * 64 + (p.low.toNat - 0x80)) * 64 ^ p.following

def IsWide (state : Option Partial) : Prop := ∀ p ∈ state, p.Wide

theorem isWide_none : IsWide none := by simp [IsWide]

structure Step.Plain (s : Step) : Prop where
  pieces : some '\n' ∉ s.pieces
  wide : IsWide s.open?

theorem Step.Plain.opened {bits following : Nat} {low high : UInt8} (lowest : 0x80 ≤ low.toNat)
    (least : 0x80 ≤ (bits * 64 + (low.toNat - 0x80)) * 64 ^ following) :
    Step.Plain ⟨[], some ⟨bits, following, low, high⟩⟩ := by
  refine ⟨List.not_mem_nil, fun p same => ?_⟩
  rw [← Option.some.inj same]
  exact ⟨lowest, least⟩

theorem Step.Plain.defect : Step.Plain ⟨[none], none⟩ := ⟨by simp, isWide_none⟩

theorem eq_ten_of_newline {n : Nat} (same : Char.ofNat n = '\n') : n = 10 := by
  by_cases valid : n.isValidChar
  · have value := congrArg Char.toNat same
    have number : (Char.ofNatAux n valid).toNat = n := rfl
    rw [Char.ofNat, dif_pos valid, number] at value
    exact value
  · rw [Char.ofNat, dif_neg valid] at same
    exact absurd same (by decide)

theorem Step.Plain.char {n : Nat} (other : n ≠ 10) : Step.Plain ⟨[some (Char.ofNat n)], none⟩ := by
  refine ⟨fun member => ?_, isWide_none⟩
  have same := Option.some.inj (List.mem_singleton.mp member)
  exact other (eq_ten_of_newline same.symm)

theorem beginChar_newline : beginChar 0x0A = ⟨[some '\n'], none⟩ := rfl

theorem plain_beginChar {b : UInt8} (other : b ≠ 0x0A) : (beginChar b).Plain := by
  have lows : UInt8.toNat 0x80 = 0x80 ∧ UInt8.toNat 0x90 = 0x90 ∧ UInt8.toNat 0xA0 = 0xA0 := by
    decide
  rw [Ne, ← UInt8.toNat_inj] at other
  unfold beginChar
  simp only [UInt8.lt_iff_toNat_lt, beq_iff_eq, ← UInt8.toNat_inj, UInt8.reduceToNat] at other ⊢
  split
  · exact .char other
  split
  · exact .defect
  -- The first byte of a longer character, of which there are seven kinds.
  iterate 7
    split
    · exact .opened (by omega) (by omega)
  exact .defect

theorem continueChar_newline {p : Partial} (wide : p.Wide) :
    continueChar p 0x0A = ⟨[none, some '\n'], none⟩ := by
  have below : ¬ p.low ≤ 0x0A := by
    have low := wide.low
    rw [UInt8.le_iff_toNat_le]
    simp only [UInt8.reduceToNat]
    omega
  simp [continueChar, below, beginChar_newline]

theorem plain_continueChar {p : Partial} (wide : p.Wide) {b : UInt8} (other : b ≠ 0x0A) :
    (continueChar p b).Plain := by
  unfold continueChar
  split
  · rename_i inside
    simp only [Bool.and_eq_true, decide_eq_true_eq, UInt8.le_iff_toNat_le] at inside
    have bound : 0x80 ≤ (p.bits * 64 + (b.toNat - 0x80)) * 64 ^ p.following :=
      Nat.le_trans wide.least (Nat.mul_le_mul_right _ (by omega))
    dsimp only
    split
    · rename_i last
      rw [last, Nat.pow_zero, Nat.mul_one] at bound
      exact .char (by omega)
    · rename_i n more
      rw [more, Nat.pow_succ'] at bound
      exact .opened (by simp) (by simpa [Nat.mul_assoc] using bound)
  · have next := plain_beginChar other
    exact ⟨by simpa using next.pieces, next.wide⟩

theorem readByte_newline {state : Option Partial} (wide : IsWide state) :
    readByte state 0x0A = ⟨piecesFrom state [] ++ [some '\n'], none⟩ := by
  cases state with
  | none => exact beginChar_newline
  | some p => exact continueChar_newline (wide p rfl)

theorem plain_readByte {state : Option Partial} (wide : IsWide state) {b : UInt8}
    (other : b ≠ 0x0A) : (readByte state b).Plain := by
  cases state with
  | none => exact plain_beginChar other
  | some p => exact plain_continueChar (wide p rfl) other

def shown (pieces : List (Option Char)) : List Char := pieces.map (·.getD '\uFFFD')

theorem newline_not_mem_shown {pieces : List (Option Char)} (plain : some '\n' ∉ pieces) :
    '\n' ∉ shown pieces := by
  intro inside
  obtain ⟨piece, member, same⟩ := List.mem_map.mp inside
  cases piece with
  | none => exact absurd same (by decide)
  | some c =>
    cases same
    exact plain member

theorem shown_append (a b : List (Option Char)) : shown (a ++ b) = shown a ++ shown b :=
  List.map_append

theorem piecesFrom_cons (state : Option Partial) (b : UInt8) (rest : List UInt8) :
    piecesFrom state (b :: rest) =
      (readByte state b).pieces ++ piecesFrom (readByte state b).open? rest := by
  cases state <;> rfl

theorem newline_not_mem_end (state : Option Partial) : '\n' ∉ shown (piecesFrom state []) := by
  apply newline_not_mem_shown
  cases state <;> simp [piecesFrom]

/-- From inside a character or between two, the lines of what is read are what is read of the lines;
the first of them goes on with the open character. -/
theorem split_shown {state : Option Partial} (wide : IsWide state) (bytes : List UInt8) :
    ∃ first rest, split 0x0A bytes = first :: rest ∧
      split '\n' (shown (piecesFrom state bytes)) =
        shown (piecesFrom state first) :: rest.map decodeLossy := by
  induction bytes generalizing state with
  | nil => exact ⟨[], [], rfl, split_of_not_mem (newline_not_mem_end state)⟩
  | cons b more ih =>
    by_cases newline : b = 0x0A
    · subst newline
      obtain ⟨first, rest, parts, lines⟩ := ih isWide_none
      have read : shown (piecesFrom state (0x0A :: more)) =
          shown (piecesFrom state []) ++ '\n' :: shown (piecesFrom none more) := by
        rw [piecesFrom_cons, readByte_newline wide, shown_append, shown_append, List.append_assoc]
        rfl
      refine ⟨[], first :: rest, by rw [split, if_pos rfl, parts], ?_⟩
      rw [read, split_append_separator, split_of_not_mem (newline_not_mem_end state), lines]
      rfl
    · have plain := plain_readByte wide newline
      obtain ⟨first, rest, parts, lines⟩ := ih plain.wide
      refine ⟨b :: first, rest, by rw [split, if_neg newline, parts], ?_⟩
      rw [piecesFrom_cons, piecesFrom_cons, shown_append, shown_append]
      exact split_append_of_not_mem (newline_not_mem_shown plain.pieces) lines

theorem split_decodeLossy (bytes : List UInt8) :
    split '\n' (decodeLossy bytes) = (split 0x0A bytes).map decodeLossy := by
  obtain ⟨first, rest, parts, lines⟩ := split_shown isWide_none bytes
  rw [parts, List.map_cons]
  exact lines

end SourcePages.Text
