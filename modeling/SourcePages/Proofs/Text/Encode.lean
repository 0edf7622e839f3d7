import Mathlib.Tactic.SplitIfs
import SourcePages.Proofs.Text.Order
import SourcePages.Proofs.Text.Utf8

namespace SourcePages.Text

theorem toNat_byte {n : Nat} (small : n < 256) : (UInt8.ofNat n).toNat = n := by
  rw [UInt8.toNat_ofNat', Nat.mod_eq_of_lt small]

section

variable {bits following n : Nat} {low high : UInt8} (small : n < 64)
  (above : low.toNat ≤ n + 128) (below : n + 128 ≤ high.toNat) (rest : List UInt8)

include small above below

theorem piecesFrom_last :
    piecesFrom (some ⟨bits, 0, low, high⟩) (UInt8.ofNat (n + 128) :: rest) =
      some (Char.ofNat (bits * 64 + n)) :: piecesFrom none rest := by
  have value : (UInt8.ofNat (n + 128)).toNat = n + 128 := toNat_byte (by omega)
  have last : continueChar ⟨bits, 0, low, high⟩ (UInt8.ofNat (n + 128)) =
      ⟨[some (Char.ofNat (bits * 64 + n))], none⟩ := by
    simp only [continueChar, UInt8.le_iff_toNat_le, value, above, below, decide_true, Bool.and_self,
      if_true, Nat.add_sub_cancel]
  rw [piecesFrom_cons, readByte, last]
  rfl

theorem piecesFrom_next :
    piecesFrom (some ⟨bits, following + 1, low, high⟩) (UInt8.ofNat (n + 128) :: rest) =
      piecesFrom (some ⟨bits * 64 + n, following, 0x80, 0xBF⟩) rest := by
  have value : (UInt8.ofNat (n + 128)).toNat = n + 128 := toNat_byte (by omega)
  have next : continueChar ⟨bits, following + 1, low, high⟩ (UInt8.ofNat (n + 128)) =
      ⟨[], some ⟨bits * 64 + n, following, 0x80, 0xBF⟩⟩ := by
    simp only [continueChar, UInt8.le_iff_toNat_le, value, above, below, decide_true, Bool.and_self,
      if_true, Nat.add_sub_cancel]
  rw [piecesFrom_cons, readByte, next]
  rfl

end

/-- A first byte that opens a character, and the second bytes that may follow it. The ranges leave
out what fewer bytes can say, surrogates, and what is no code point. -/
structure Leads (first : UInt8) (bits following second : Nat) : Prop where
  small : second < 64
  kind : (following = 0 ∧ first.toNat = bits + 192 ∧ 2 ≤ bits ∧ bits < 32) ∨
    (following = 1 ∧ first.toNat = bits + 224 ∧ bits < 16 ∧ (bits = 0 → 32 ≤ second) ∧
      (bits = 13 → second < 32)) ∨
    (following = 2 ∧ first.toNat = bits + 240 ∧ bits < 5 ∧ (bits = 0 → 16 ≤ second) ∧
      (bits = 4 → second < 16))

theorem Leads.opens {first : UInt8} {bits following second : Nat}
    (leads : Leads first bits following second) :
    ∃ low high, beginChar first = ⟨[], some ⟨bits, following, low, high⟩⟩ ∧
      low.toNat ≤ second + 128 ∧ second + 128 ≤ high.toNat := by
  obtain ⟨small, kind⟩ := leads
  simp only [beginChar, UInt8.lt_iff_toNat_lt, beq_iff_eq, ← UInt8.toNat_inj, UInt8.reduceToNat]
  -- The first and the last of the longer ones narrow the second byte.
  rcases kind with ⟨rfl, value, least, most⟩ | ⟨rfl, value, most, least, last⟩ |
    ⟨rfl, value, most, least, last⟩
  · rw [if_neg (by omega), if_neg (by omega), if_pos (by omega), value, Nat.add_sub_cancel]
    exact ⟨_, _, rfl, by simp, by simp; omega⟩
  · rw [if_neg (by omega), if_neg (by omega), if_neg (by omega)]
    by_cases first : bits = 0
    · rw [if_pos (by omega), first]
      exact ⟨_, _, rfl, by simp; omega, by simp; omega⟩
    by_cases late : bits = 13
    · rw [if_neg (by omega), if_pos (by omega), late]
      exact ⟨_, _, rfl, by simp, by simp; omega⟩
    · rw [if_neg (by omega), if_neg (by omega), if_pos (by omega), value, Nat.add_sub_cancel]
      exact ⟨_, _, rfl, by simp, by simp; omega⟩
  · rw [if_neg (by omega), if_neg (by omega), if_neg (by omega), if_neg (by omega),
      if_neg (by omega), if_neg (by omega)]
    by_cases first : bits = 0
    · rw [if_pos (by omega), first]
      exact ⟨_, _, rfl, by simp; omega, by simp; omega⟩
    by_cases late : bits = 4
    · rw [if_neg (by omega), if_neg (by omega), if_pos (by omega), late]
      exact ⟨_, _, rfl, by simp, by simp; omega⟩
    · rw [if_neg (by omega), if_pos (by omega), value, Nat.add_sub_cancel]
      exact ⟨_, _, rfl, by simp, by simp; omega⟩

theorem piecesFrom_encodeChar (c : Char) (rest : List UInt8) :
    piecesFrom none (String.utf8EncodeChar c ++ rest) = some c :: piecesFrom none rest := by
  have valid := c.valid
  simp only [UInt32.isValidChar, Nat.isValidChar] at valid
  have whole : ∀ n, n = c.val.toNat → Char.ofNat n = c := by
    rintro n rfl
    exact Char.ofNat_toNat c
  have low : UInt8.toNat 0x80 = 128 := rfl
  have high : UInt8.toNat 0xBF = 191 := rfl
  unfold String.utf8EncodeChar
  dsimp only
  generalize c.val.toNat = v at valid whole
  split
  · have value : (UInt8.ofNat v).toNat = v := toNat_byte (by omega)
    have ascii : UInt8.ofNat v < 0x80 := by
      rw [UInt8.lt_iff_toNat_lt, value, low]
      omega
    rw [List.singleton_append, piecesFrom_cons, readByte, beginChar, if_pos ascii, value,
      whole v rfl]
    rfl
  split
  · have leads : Leads (UInt8.ofNat (v / 64 % 32 + 192)) (v / 64) 0 (v % 64) := by
      refine ⟨by omega, .inl ⟨rfl, ?_, by omega, by omega⟩⟩
      rw [toNat_byte (by omega)]
      omega
    obtain ⟨_, _, begun, above, below⟩ := leads.opens
    simp only [List.cons_append, List.nil_append]
    rw [piecesFrom_cons, readByte, begun, List.nil_append,
      piecesFrom_last leads.small above below, whole _ (by omega)]
  split
  · have leads : Leads (UInt8.ofNat (v / 4096 % 16 + 224)) (v / 4096) 1 (v / 64 % 64) := by
      refine ⟨by omega, .inr (.inl ⟨rfl, ?_, by omega, by omega, by omega⟩)⟩
      rw [toNat_byte (by omega)]
      omega
    obtain ⟨_, _, begun, above, below⟩ := leads.opens
    simp only [List.cons_append, List.nil_append]
    rw [piecesFrom_cons, readByte, begun, List.nil_append,
      piecesFrom_next leads.small above below,
      piecesFrom_last (by omega) (by omega) (by omega), whole _ (by omega)]
  · have leads : Leads (UInt8.ofNat (v / 262144 % 8 + 240)) (v / 262144) 2 (v / 4096 % 64) := by
      refine ⟨by omega, .inr (.inr ⟨rfl, ?_, by omega, by omega, by omega⟩)⟩
      rw [toNat_byte (by omega)]
      omega
    obtain ⟨_, _, begun, above, below⟩ := leads.opens
    simp only [List.cons_append, List.nil_append]
    rw [piecesFrom_cons, readByte, begun, List.nil_append,
      piecesFrom_next leads.small above below, piecesFrom_next (by omega) (by omega) (by omega),
      piecesFrom_last (by omega) (by omega) (by omega), whole _ (by omega)]

theorem pieces_encode (text : List Char) : pieces (encode text) = text.map some := by
  induction text with
  | nil => rfl
  | cons c rest ih =>
    have first : pieces (encode (c :: rest)) = some c :: pieces (encode rest) :=
      piecesFrom_encodeChar c _
    rw [first, ih, List.map_cons]

theorem decode_encode (text : List Char) : decode? (encode text) = some text := by
  rw [decode?, pieces_encode]
  induction text with
  | nil => rfl
  | cons c rest ih =>
    rw [List.map_cons, List.mapM_cons, ih]
    rfl

theorem encode_append (a b : List Char) : encode (a ++ b) = encode a ++ encode b :=
  List.flatMap_append

theorem encode_cons (c : Char) (rest : List Char) :
    encode (c :: rest) = String.utf8EncodeChar c ++ encode rest := rfl

theorem encodeChar_append_inj {c d : Char} {x y : List UInt8}
    (same : String.utf8EncodeChar c ++ x = String.utf8EncodeChar d ++ y) : c = d ∧ x = y := by
  -- Encoded characters are in order wherever they differ, whatever follows them.
  by_cases less : c < d
  · exact absurd (same ▸ encodeChar_lt less x y) (List.lt_irrefl _)
  by_cases greater : d < c
  · exact absurd (same ▸ encodeChar_lt greater y x) (List.lt_irrefl _)
  obtain rfl : c = d := Char.le_antisymm (Char.not_lt.mp greater) (Char.not_lt.mp less)
  exact ⟨rfl, List.append_cancel_left same⟩

def begins (b : UInt8) : Bool := b.toNat < 0x80 || 0xC0 ≤ b.toNat

theorem begins_byte {n : Nat} (small : n < 256) :
    begins (UInt8.ofNat n) = (decide (n < 0x80) || decide (0xC0 ≤ n)) := by
  rw [begins, toNat_byte small]

theorem exists_encodeChar (c : Char) : ∃ first others, String.utf8EncodeChar c = first :: others ∧
    begins first = true ∧ ∀ b ∈ others, begins b = false := by
  have follows : ∀ n < 64, begins (UInt8.ofNat (n + 128)) = false := by
    intro n small
    rw [begins_byte (by omega)]
    simp
    omega
  unfold String.utf8EncodeChar
  dsimp only
  generalize c.val.toNat = v
  split_ifs
  all_goals
    refine ⟨_, _, rfl, ?_, ?_⟩
    · rw [begins_byte (by omega)]
      simp only [Bool.or_eq_true, decide_eq_true_eq]
      omega
    · simp (disch := omega) only [List.forall_mem_cons, follows, List.not_mem_nil, false_imp_iff,
        implies_true, and_true]

theorem slash_not_mem_encodeChar {c : Char} (other : c ≠ '/') : 0x2F ∉ String.utf8EncodeChar c := by
  obtain ⟨first, others, bytes, -, follow⟩ := exists_encodeChar c
  rw [bytes]
  intro member
  rcases List.mem_cons.mp member with rfl | member
  · have same : String.utf8EncodeChar c ++ [] = String.utf8EncodeChar '/' ++ others := by
      rw [bytes, List.append_nil]
      rfl
    exact other (encodeChar_append_inj same).1
  · exact absurd (follow _ member) (by decide)

theorem exists_of_encode_eq {text : List Char} {x y : List UInt8} (parts : encode text = x ++ y)
    (starts : ∀ b ∈ y.head?, begins b = true) :
    ∃ a b, text = a ++ b ∧ encode a = x ∧ encode b = y := by
  induction text generalizing x with
  | nil =>
    obtain ⟨rfl, rfl⟩ := List.nil_eq_append_iff.mp parts
    exact ⟨[], [], rfl, rfl, rfl⟩
  | cons c rest ih =>
    cases x with
    | nil => exact ⟨[], c :: rest, rfl, rfl, parts⟩
    | cons first more =>
      obtain ⟨b, others, bytes, -, follow⟩ := exists_encodeChar c
      rw [encode_cons, bytes, List.cons_append, List.cons_append] at parts
      obtain ⟨rfl, tails⟩ := List.cons_eq_cons.mp parts
      -- The cut is not among the bytes of the first character, none of which may begin another.
      rcases List.append_eq_append_iff.mp tails with ⟨behind, rfl, later⟩ | ⟨left, cut, later⟩
      · obtain ⟨a, z, rfl, front, back⟩ := ih later
        refine ⟨c :: a, z, rfl, ?_, back⟩
        rw [encode_cons, bytes, front]
        rfl
      · cases left with
        | nil =>
          obtain ⟨a, z, rfl, front, back⟩ := @ih [] later.symm
          refine ⟨c :: a, z, rfl, ?_, back⟩
          rw [encode_cons, bytes, front, cut, List.append_nil, List.append_nil]
        | cons d left =>
          have inside : d ∈ others := by simp [cut]
          have start := starts d (by simp [later])
          rw [follow d inside] at start
          cases start

end SourcePages.Text
