import ClassAudit.Bytes
import Mathlib.Data.List.Induction

/-!
# Properties of words and numerals

A fixed-width word and its big-endian form determine each other. Every width rests on one
fact: among byte strings of equal length, the denoted number determines the bytes. Likewise
a number below 65536 is determined by its four hexadecimal digits.
-/

set_option autoImplicit false

namespace ClassAudit

/-! ## Splitting -/

theorem Bytes.split?_eq_some_iff {count : Nat} {bytes taken rest : Bytes} :
    bytes.split? count = some (taken, rest) ↔
      taken.length = count ∧ bytes = taken ++ rest := by
  simp only [Bytes.split?, List.splitAt_eq]
  constructor
  · intro found
    split at found
    · rename_i full
      simp only [Option.some.injEq, Prod.mk.injEq] at found
      obtain ⟨rfl, rfl⟩ := found
      exact ⟨full, (List.take_append_drop count bytes).symm⟩
    · cases found
  · intro given
    obtain ⟨rfl, rfl⟩ := given
    simp

theorem Bytes.split?_eq_none_iff {count : Nat} {bytes : Bytes} :
    bytes.split? count = none ↔ bytes.length < count := by
  simp only [Bytes.split?, List.splitAt_eq, ite_eq_right_iff, reduceCtorEq, imp_false,
    List.length_take]
  omega

/-! ## Denoted numbers -/

@[simp] theorem bigEndian_nil : bigEndian [] = 0 := rfl

/-- The last byte is the least significant one. -/
theorem bigEndian_concat (bytes : Bytes) (byte : UInt8) :
    bigEndian (bytes ++ [byte]) = bigEndian bytes * 256 + byte.toNat := by
  simp [bigEndian]

theorem bigEndian_lt (bytes : Bytes) : bigEndian bytes < Nat.pow 256 bytes.length := by
  induction bytes using List.reverseRecOn with
  | nil => simp
  | append_singleton bytes byte ih =>
      have bounded := byte.toNat_lt
      rw [bigEndian_concat, List.length_append, List.length_singleton]
      change _ < Nat.pow 256 bytes.length * 256
      omega

/-- Bytes of equal length that denote the same number are equal. Without the premise
leading zeros could differ. -/
theorem bigEndian_injective {left right : Bytes} (lengths : left.length = right.length)
    (denoted : bigEndian left = bigEndian right) : left = right := by
  induction left using List.reverseRecOn generalizing right with
  | nil => exact (List.length_eq_zero_iff.mp lengths.symm).symm
  | append_singleton left byte ih =>
      cases right using List.reverseRecOn with
      | nil => simp at lengths
      | append_singleton right other =>
          have byteBounded := byte.toNat_lt
          have otherBounded := other.toNat_lt
          simp only [List.length_append, List.length_singleton] at lengths
          rw [bigEndian_concat, bigEndian_concat] at denoted
          have leading : left = right := ih (by omega) (by omega)
          have last : byte = other := UInt8.toNat_inj.mp (by omega)
          rw [leading, last]

/-! ## Written words -/

@[simp] theorem length_bytesOfU2 (word : UInt16) : (bytesOfU2 word).length = 2 := rfl

@[simp] theorem length_bytesOfU4 (word : UInt32) : (bytesOfU4 word).length = 4 := rfl

@[simp] theorem length_bytesOfU8 (word : UInt64) : (bytesOfU8 word).length = 8 := rfl

theorem bigEndian_bytesOfU2 (word : UInt16) : bigEndian (bytesOfU2 word) = word.toNat := by
  have bounded := word.toNat_lt
  simp only [bigEndian, bytesOfU2, List.foldl_cons, List.foldl_nil]
  simp
  omega

theorem bigEndian_bytesOfU4 (word : UInt32) : bigEndian (bytesOfU4 word) = word.toNat := by
  have bounded := word.toNat_lt
  simp only [bigEndian, bytesOfU4, List.foldl_cons, List.foldl_nil]
  simp
  omega

theorem bigEndian_bytesOfU8 (word : UInt64) : bigEndian (bytesOfU8 word) = word.toNat := by
  have bounded := word.toNat_lt
  simp only [bigEndian, bytesOfU8, bytesOfU4, List.cons_append, List.nil_append,
    List.foldl_cons, List.foldl_nil]
  simp
  omega

@[simp] theorem toUInt16_bigEndian (word : UInt16) :
    (bigEndian (bytesOfU2 word)).toUInt16 = word := by
  simp [bigEndian_bytesOfU2]

@[simp] theorem toUInt32_bigEndian (word : UInt32) :
    (bigEndian (bytesOfU4 word)).toUInt32 = word := by
  simp [bigEndian_bytesOfU4]

@[simp] theorem toUInt64_bigEndian (word : UInt64) :
    (bigEndian (bytesOfU8 word)).toUInt64 = word := by
  simp [bigEndian_bytesOfU8]

/-! ## Sizes as words -/

/-- A size that fits a word is the number of the word that stands for it. -/
theorem eq_toUInt16_iff {size : Nat} {word : UInt16} :
    size < 0x10000 ∧ word = size.toUInt16 ↔ size = word.toNat := by
  constructor
  · intro given
    obtain ⟨fits, rfl⟩ := given
    exact (UInt16.toNat_ofNat_of_lt fits).symm
  · intro same
    subst same
    exact ⟨word.toNat_lt, by simp⟩

theorem eq_toUInt32_iff {size : Nat} {word : UInt32} :
    size < 0x100000000 ∧ word = size.toUInt32 ↔ size = word.toNat := by
  constructor
  · intro given
    obtain ⟨fits, rfl⟩ := given
    exact (UInt32.toNat_ofNat_of_lt fits).symm
  · intro same
    subst same
    exact ⟨word.toNat_lt, by simp⟩

/-! ## Words of bytes -/

theorem bytesOfU1_bigEndian {bytes : Bytes} (full : bytes.length = 1) :
    [(bigEndian bytes).toUInt8] = bytes := by
  have bounded := bigEndian_lt bytes
  rw [full] at bounded
  apply bigEndian_injective (by simp [full])
  rw [← List.nil_append [_], bigEndian_concat, bigEndian_nil, Nat.zero_mul, Nat.zero_add]
  exact UInt8.toNat_ofNat_of_lt bounded

theorem bytesOfU2_bigEndian {bytes : Bytes} (full : bytes.length = 2) :
    bytesOfU2 (bigEndian bytes).toUInt16 = bytes := by
  have bounded := bigEndian_lt bytes
  rw [full] at bounded
  apply bigEndian_injective (by simp [full])
  rw [bigEndian_bytesOfU2]
  exact UInt16.toNat_ofNat_of_lt bounded

theorem bytesOfU4_bigEndian {bytes : Bytes} (full : bytes.length = 4) :
    bytesOfU4 (bigEndian bytes).toUInt32 = bytes := by
  have bounded := bigEndian_lt bytes
  rw [full] at bounded
  apply bigEndian_injective (by simp [full])
  rw [bigEndian_bytesOfU4]
  exact UInt32.toNat_ofNat_of_lt bounded

theorem bytesOfU8_bigEndian {bytes : Bytes} (full : bytes.length = 8) :
    bytesOfU8 (bigEndian bytes).toUInt64 = bytes := by
  have bounded := bigEndian_lt bytes
  rw [full] at bounded
  apply bigEndian_injective (by simp [full])
  rw [bigEndian_bytesOfU8]
  exact UInt64.toNat_ofNat_of_lt bounded

/-! ## Hexadecimal numerals -/

def hexDigit (digit : Nat) : UInt8 := Bytes.ofChar digit.digitChar

theorem hexPadded_succ (width value : Nat) :
    hexPadded (width + 2) value =
      hexPadded (width + 1) (value / 16) ++ [hexDigit (value % 16)] := by
  by_cases single : value < 16
  · have low : value / 16 = 0 := Nat.div_eq_of_lt single
    rw [hexPadded, hexPadded, numeral, numeral, low, Nat.mod_eq_of_lt single,
      Nat.toDigits_of_lt_base single, Nat.toDigits_zero]
    change List.replicate (width + 1) 0x30 ++ _ = _
    rw [List.replicate_succ']
    rfl
  · have several : 16 ≤ value := Nat.le_of_not_lt single
    rw [hexPadded, hexPadded, numeral, numeral, Nat.toDigits_of_base_le (by decide) several]
    simp only [List.map_append, List.map_cons, List.map_nil, List.length_append, List.length_map,
      List.length_cons, List.length_nil, Nat.reduceAdd, List.append_assoc]
    rw [Nat.succ_sub_succ]
    rfl

theorem hexPadded_one {value : Nat} (digit : value < 16) :
    hexPadded 1 value = [hexDigit value] := by
  rw [hexPadded, numeral, Nat.toDigits_of_lt_base digit]
  rfl

theorem hexPadded_four {code : Nat} (basic : code < 0x10000) :
    hexPadded 4 code =
      [hexDigit (code / 16 / 16 / 16), hexDigit (code / 16 / 16 % 16), hexDigit (code / 16 % 16),
        hexDigit (code % 16)] := by
  rw [hexPadded_succ, hexPadded_succ, hexPadded_succ, hexPadded_one (by omega)]
  rfl

theorem hexDigit_injective : ∀ left < 16, ∀ right < 16,
    hexDigit left = hexDigit right → left = right := by
  decide

theorem hexPadded_four_injective {left right : Nat} (leftBasic : left < 0x10000)
    (rightBasic : right < 0x10000) (same : hexPadded 4 left = hexPadded 4 right) :
    left = right := by
  rw [hexPadded_four leftBasic, hexPadded_four rightBasic] at same
  obtain ⟨first, rest⟩ := List.cons.inj same
  obtain ⟨second, rest⟩ := List.cons.inj rest
  obtain ⟨third, rest⟩ := List.cons.inj rest
  obtain ⟨fourth, _⟩ := List.cons.inj rest
  have first := hexDigit_injective _ (by omega) _ (by omega) first
  have second := hexDigit_injective _ (by omega) _ (by omega) second
  have third := hexDigit_injective _ (by omega) _ (by omega) third
  have fourth := hexDigit_injective _ (by omega) _ (by omega) fourth
  omega

theorem mem_toDigits_hex {value : Nat} {char : Char} (member : char ∈ Nat.toDigits 16 value) :
    ∃ digit < 16, char = digit.digitChar := by
  induction value using Nat.strongRecOn with
  | ind value ih =>
      rw [Nat.toDigits_eq_if (by decide)] at member
      split at member
      · rename_i digit
        exact ⟨value, digit, List.mem_singleton.mp member⟩
      · rename_i several
        rcases List.mem_append.mp member with higher | last
        · exact ih (value / 16) (by omega) higher
        · exact ⟨value % 16, Nat.mod_lt _ (by decide), List.mem_singleton.mp last⟩

theorem mem_hexPadded {width value : Nat} {byte : UInt8} (member : byte ∈ hexPadded width value) :
    ∃ digit < 16, byte = hexDigit digit := by
  rcases List.mem_append.mp member with padding | digits
  · exact ⟨0, by decide, List.eq_of_mem_replicate padding⟩
  · obtain ⟨char, listed, rfl⟩ := List.mem_map.mp digits
    obtain ⟨digit, small, rfl⟩ := mem_toDigits_hex listed
    exact ⟨digit, small, rfl⟩

/-! ## Text constants -/

theorem Bytes.ofString_append (left right : String) :
    Bytes.ofString (left ++ right) = Bytes.ofString left ++ Bytes.ofString right := by
  simp [Bytes.ofString]

/-- Neighbouring constants are one. Two texts that differ only in how their constants are cut are
written alike by this rule. -/
theorem Bytes.ofString_append_ofString (left right : String) (rest : Bytes) :
    Bytes.ofString left ++ (Bytes.ofString right ++ rest) =
      Bytes.ofString (left ++ right) ++ rest := by
  rw [Bytes.ofString_append, List.append_assoc]

end ClassAudit
