import Mathlib.Tactic.SplitIfs
import SourcePages.Text.Utf8

namespace SourcePages.Text

/-- Of two characters, the bytes of the lesser one come first whatever follows them. The first byte
tells how many bytes there are, and more bytes are for greater characters. -/
theorem encodeChar_lt {c d : Char} (less : c < d) (x y : List UInt8) :
    String.utf8EncodeChar c ++ x < String.utf8EncodeChar d ++ y := by
  have order : c.val.toNat < d.val.toNat := less
  have bound : d.val.toNat < 0x110000 := by
    have valid := d.valid
    simp only [UInt32.isValidChar, Nat.isValidChar] at valid
    omega
  unfold String.utf8EncodeChar
  dsimp only
  generalize c.val.toNat = v at order
  generalize d.val.toNat = w at order bound
  -- The bytes hold the digits of the code point to base 64.
  have digits : ∀ n, n < 0x110000 →
      n = n / 262144 % 8 * 262144 + n / 4096 % 64 * 4096 + n / 64 % 64 * 64 + n % 64 := by
    intro n small
    omega
  have lesser := digits v (by omega)
  have greater := digits w bound
  split_ifs
  all_goals
    simp only [List.cons_append, List.cons_lt_cons_iff, UInt8.lt_iff_toNat_lt, ← UInt8.toNat_inj,
      UInt8.toNat_ofNat']
    simp (disch := omega) only [Nat.mod_eq_of_lt (b := 2 ^ 8)]
    omega

theorem encode_lt {a b : List Char} (less : a < b) : encode a < encode b := by
  induction a generalizing b with
  | nil =>
    cases b with
    | nil => exact absurd less (List.lt_irrefl _)
    | cons d more =>
      obtain ⟨first, rest, bytes⟩ :=
        List.exists_cons_of_ne_nil (String.utf8EncodeChar_ne_nil (c := d))
      rw [encode, encode, List.flatMap_cons, bytes]
      exact List.nil_lt_cons _ _
  | cons c rest ih =>
    cases b with
    | nil => exact absurd less (List.not_lt_nil _)
    | cons d more =>
      rcases List.cons_lt_cons_iff.mp less with first | ⟨rfl, later⟩
      · exact encodeChar_lt first _ _
      · exact List.append_left_lt (ih later)

end SourcePages.Text
