import Mathlib.Algebra.Group.Nat.Defs
import Mathlib.Data.List.TakeWhile
import SourcePages.Json.Value

namespace SourcePages.Json

section

variable (rest : List Char)

theorem pieces_simple {c mark : Char} (named : simpleEscape? mark = some c) (plain : mark ≠ 'u') :
    pieces? ('\\' :: mark :: rest) = (pieces? rest).map (.char c :: ·) := by
  rw [pieces?.eq_3 _ _ fun _ _ _ _ _ same => absurd same plain, named]
  cases pieces? rest <;> rfl

theorem pieces_unit {a b c d : Char} {n : Nat} (digits : hexNumber? [a, b, c, d] = some n) :
    pieces? ('\\' :: 'u' :: a :: b :: c :: d :: rest) = (pieces? rest).map (.unit n :: ·) := by
  rw [pieces?, digits]
  cases pieces? rest <;> rfl

theorem pieces_char {c : Char} (notBackslash : c ≠ '\\') (notMark : c ≠ '"')
    (large : ¬ c.toNat < 0x20) :
    pieces? (c :: rest) = (pieces? rest).map (.char c :: ·) := by
  rw [pieces?.eq_4 _ _ (fun _ _ _ _ _ same => absurd same notBackslash)
    fun _ _ same => absurd same notBackslash]
  simp [notBackslash, notMark, large]

theorem hexNumber_hexDigits {n : Nat} (small : n < 0x20) :
    hexNumber? ['0', '0', hexDigit (n / 16), hexDigit (n % 16)] = some n := by
  have all : ∀ n < 0x20, hexNumber? ['0', '0', hexDigit (n / 16), hexDigit (n % 16)] = some n := by
    decide
  exact all n small

def Piece.Shows (piece : Piece) (c : Char) : Prop :=
  piece = .char c ∨ (piece = .unit c.toNat ∧ c.toNat < 0x20)

theorem pieces_escapeChar (c : Char) : ∃ piece : Piece, piece.Shows c ∧
    pieces? (escapeChar c ++ rest) = (pieces? rest).map (piece :: ·) := by
  unfold escapeChar
  split
  case h_8 =>
    rename_i quotation backslash _ _ _ _ _
    split
    · rename_i small
      exact ⟨_, .inr ⟨rfl, small⟩, pieces_unit rest (hexNumber_hexDigits small)⟩
    · rename_i large
      exact ⟨_, .inl rfl, pieces_char rest backslash quotation large⟩
  all_goals exact ⟨_, .inl rfl, pieces_simple rest rfl (by decide)⟩

end

theorem joinPieces_shows {piece : Piece} {c : Char} (shows : piece.Shows c) (rest : List Piece) :
    joinPieces? (piece :: rest) = (joinPieces? rest).map (c :: ·) := by
  rcases shows with rfl | ⟨rfl, small⟩
  · rfl
  · have high : isHighSurrogate c.toNat = false := by
      simp only [isHighSurrogate, Bool.and_eq_false_iff, decide_eq_false_iff_not]
      omega
    have low : isLowSurrogate c.toNat = false := by
      simp only [isLowSurrogate, Bool.and_eq_false_iff, decide_eq_false_iff_not]
      omega
    conv => lhs; unfold joinPieces?
    simp only [high, low, Bool.false_eq_true, if_false, Char.ofNat_toNat]

theorem unescape_escape (text : List Char) : unescape? (escape text) = some text := by
  have read : ∃ pieces, pieces? (escape text) = some pieces ∧ joinPieces? pieces = some text := by
    induction text with
    | nil => exact ⟨[], rfl, rfl⟩
    | cons c rest ih =>
      obtain ⟨pieces, found, joined⟩ := ih
      obtain ⟨piece, shows, first⟩ := pieces_escapeChar (escape rest) c
      refine ⟨piece :: pieces, ?_, ?_⟩
      · rw [escape, List.flatMap_cons, ← escape, first, found]
        rfl
      · rw [joinPieces_shows shows, joined]
        rfl
  obtain ⟨pieces, found, joined⟩ := read
  rw [unescape?, found, Option.bind_some, joined]

theorem head_toDigits {n : Nat} (positive : 0 < n) : (Nat.toDigits 10 n).head? ≠ some '0' := by
  induction n using Nat.strongRecOn with
  | ind n ih =>
    by_cases short : n < 10
    · rw [Nat.toDigits_of_lt_base short]
      have all : ∀ n < 10, 0 < n → [n.digitChar].head? ≠ some '0' := by decide
      exact all n short positive
    · have front := ih (n / 10) (Nat.div_lt_self positive (by decide)) (by omega)
      obtain ⟨c, more, digits⟩ :=
        List.exists_cons_of_ne_nil (Nat.toDigits_ne_nil (n := n / 10) (b := 10))
      rw [digits] at front
      rwa [Nat.toDigits_of_base_le (by decide) (Nat.le_of_not_lt short), digits]

theorem written_toDigits (n : Nat) :
    written? (Nat.toDigits 10 n) = some ⟨false, Nat.toDigits 10 n, [], none⟩ := by
  have digit : ∀ c ∈ Nat.toDigits 10 n, c.isDigit = true :=
    fun c member => Nat.isDigit_of_mem_toDigits (by decide) (by decide) member
  have whole : (Nat.toDigits 10 n).takeWhile Char.isDigit = Nat.toDigits 10 n :=
    List.takeWhile_eq_self_iff.mpr digit
  have leading : ¬ ((Nat.toDigits 10 n).isEmpty ||
      ((Nat.toDigits 10 n).head? = some '0' && (Nat.toDigits 10 n).length ≠ 1)) = true := by
    rcases Nat.eq_zero_or_pos n with rfl | positive
    · decide
    · simp [Nat.toDigits_ne_nil, head_toDigits positive]
  unfold written?
  split
  rename_i negative text sign
  have unsigned : (false, Nat.toDigits 10 n) = (negative, text) := by
    rw [← sign]
    split
    · rename_i rest minus
      have bad := digit '-' (minus ▸ List.mem_cons_self)
      cases bad
    · rfl
  cases unsigned
  dsimp only
  rw [whole, if_neg leading, List.drop_length]
  rfl

theorem read_natural {n : Nat} (small : n < 2 ^ 64) :
    Number.read? (toString n).toList = some (.natural n) := by
  have text : (toString n).toList = Nat.toDigits 10 n := Nat.toList_repr
  have value : decimalValue (Nat.toDigits 10 n) = n := Nat.ofDigitChars_ten_toDigits
  have fits : n < Nat.pow 2 64 := small
  rw [Number.read?, text, written_toDigits, Option.bind_some, Written.number?]
  simp [value, fits]

def isWordChar (c : Char) : Bool :=
  c.isAlphanum || c = '-' || c = '+' || c = '.'

theorem wordChar_of_isDigit {c : Char} (digit : c.isDigit = true) : isWordChar c = true := by
  simp [isWordChar, Char.isAlphanum, digit]

theorem wordChar_of_digits {digits : List Char} (all : digits.all Char.isDigit = true) {c : Char}
    (member : c ∈ digits) : isWordChar c = true :=
  wordChar_of_isDigit (List.all_eq_true.mp all c member)

theorem wordChar_of_mem_takeWhile {text : List Char} {c : Char}
    (member : c ∈ text.takeWhile Char.isDigit) : isWordChar c = true :=
  wordChar_of_isDigit (List.mem_takeWhile_imp member)

theorem wordChar_of_mem_exponentPart {text : List Char} {e : Option (Bool × List Char)}
    (part : exponentPart? text = some e) {c : Char} (member : c ∈ text) : isWordChar c = true := by
  unfold exponentPart? at part
  dsimp only at part
  split at part
  · cases member
  · rename_i mark rest
    split at part
    · rename_i exponent
      have first : isWordChar mark = true := by
        simp only [Bool.or_eq_true, decide_eq_true_eq] at exponent
        rcases exponent with rfl | rfl <;> decide
      rcases List.mem_cons.mp member with rfl | later
      · exact first
      · split at part
        all_goals
          split at part
          · cases part
          · rename_i digits
            simp only [Bool.or_eq_true, not_or, Bool.not_eq_true', Bool.not_eq_false] at digits
            first
              | exact wordChar_of_digits digits.2 later
              | rcases List.mem_cons.mp later with rfl | last
                · decide
                · exact wordChar_of_digits digits.2 last
    · cases part

theorem mem_takeWhile_or_drop (test : Char → Bool) {text : List Char} {c : Char}
    (member : c ∈ text) :
    c ∈ text.takeWhile test ∨ c ∈ text.drop (text.takeWhile test).length := by
  have parts := List.take_append_drop (text.takeWhile test).length text
  rw [← List.prefix_iff_eq_take.mp (List.takeWhile_prefix test)] at parts
  rw [← parts] at member
  exact List.mem_append.mp member

theorem wordChar_of_mem_written {text : List Char} {w : Written} (read : written? text = some w)
    {c : Char} (member : c ∈ text) : isWordChar c = true := by
  unfold written? at read
  split at read
  rename_i negative unsigned sign
  have signed : c = '-' ∨ c ∈ unsigned := by
    split at sign
    · cases sign
      exact List.mem_cons.mp member
    · cases sign
      exact .inr member
  rcases signed with rfl | member
  · decide
  · dsimp only at read
    split at read
    · cases read
    · rcases mem_takeWhile_or_drop Char.isDigit member with digit | behind
      · exact wordChar_of_mem_takeWhile digit
      · split at read
        · rename_i rest point
          rw [point] at behind
          rcases List.mem_cons.mp behind with rfl | behind
          · decide
          · split at read
            · cases read
            · obtain ⟨e, part, -⟩ := Option.map_eq_some_iff.mp read
              rcases mem_takeWhile_or_drop Char.isDigit behind with digit | last
              · exact wordChar_of_mem_takeWhile digit
              · exact wordChar_of_mem_exponentPart part last
        · obtain ⟨e, part, -⟩ := Option.map_eq_some_iff.mp read
          exact wordChar_of_mem_exponentPart part behind

theorem written_ne_nil {text : List Char} {w : Written} (read : written? text = some w) :
    text ≠ [] := by
  rintro rfl
  cases read

end SourcePages.Json
