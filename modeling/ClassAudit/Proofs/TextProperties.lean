import ClassAudit.Text.ModifiedUtf8
import Mathlib.Data.Set.List

/-!
# Properties of text

One inversion says what a well-formed character at the front of a byte string looks
like. Its UTF-8 form and its code unit follow from it. Text that is well-formed UTF-8 is
its own reading as class-file text.
-/

set_option autoImplicit false

namespace ClassAudit

/-! ## Byte tests -/

theorem toNat_ofNat_of_valid {code : Nat} (valid : code.isValidChar) :
    (Char.ofNat code).toNat = code := by
  rw [Char.ofNat, dif_pos valid]
  rfl

theorem toNat_and_mask (byte : UInt8) (width : Nat) (mask : UInt8)
    (low : mask.toNat = Nat.pow 2 width - 1) :
    (byte &&& mask).toNat = byte.toNat % Nat.pow 2 width := by
  rw [UInt8.toNat_and, low]
  exact Nat.and_two_pow_sub_one_eq_mod byte.toNat width

theorem toNat_payload (byte : UInt8) : (byte &&& 0x3F).toNat = byte.toNat % 64 :=
  toNat_and_mask byte 6 0x3F rfl

/-- A test of the high bits of a byte is a range, decided for the numbers below 256. -/
theorem mask_beq_iff (mask pattern : UInt8) (low high : Nat)
    (table : ∀ value < 256,
      (value &&& mask.toNat = pattern.toNat) ↔ low ≤ value ∧ value < high)
    (byte : UInt8) : (byte &&& mask == pattern) = true ↔ low ≤ byte.toNat ∧ byte.toNat < high := by
  rw [beq_iff_eq, ← UInt8.toNat_inj, UInt8.toNat_and]
  exact table byte.toNat byte.toNat_lt

theorem isContinuation_iff (byte : UInt8) :
    isContinuation byte = true ↔ 0x80 ≤ byte.toNat ∧ byte.toNat < 0xC0 :=
  mask_beq_iff 0xC0 0x80 0x80 0xC0 (by decide +kernel) byte

theorem leadsTwo_iff (byte : UInt8) :
    (byte &&& 0xE0 == 0xC0) = true ↔ 0xC0 ≤ byte.toNat ∧ byte.toNat < 0xE0 :=
  mask_beq_iff 0xE0 0xC0 0xC0 0xE0 (by decide +kernel) byte

theorem leadsThree_iff (byte : UInt8) :
    (byte &&& 0xF0 == 0xE0) = true ↔ 0xE0 ≤ byte.toNat ∧ byte.toNat < 0xF0 :=
  mask_beq_iff 0xF0 0xE0 0xE0 0xF0 (by decide +kernel) byte

theorem lt_ascii_iff (byte : UInt8) : byte < 0x80 ↔ byte.toNat < 0x80 := UInt8.lt_iff_toNat_lt

/-! ## Leading characters -/

/-- The character that a byte string starts with, and how many bytes follow its lead
byte. Each form gives the code of the character in the shortest way. -/
inductive StartsWithChar (first : UInt8) : Bytes → Char → Nat → Prop
  | one {following : Bytes} {char : Char} (lead : first.toNat < 0x80)
      (code : char.toNat = first.toNat) : StartsWithChar first following char 0
  | two {second : UInt8} {rest : Bytes} {char : Char}
      (lead : 0xC0 ≤ first.toNat ∧ first.toNat < 0xE0)
      (continued : 0x80 ≤ second.toNat ∧ second.toNat < 0xC0)
      (code : char.toNat = (first.toNat - 0xC0) * 64 + second.toNat % 64)
      (shortest : 0x80 ≤ char.toNat) : StartsWithChar first (second :: rest) char 1
  | three {second third : UInt8} {rest : Bytes} {char : Char}
      (lead : 0xE0 ≤ first.toNat ∧ first.toNat < 0xF0)
      (continued : 0x80 ≤ second.toNat ∧ second.toNat < 0xC0 ∧
        0x80 ≤ third.toNat ∧ third.toNat < 0xC0)
      (code : char.toNat =
        (first.toNat - 0xE0) * 4096 + second.toNat % 64 * 64 + third.toNat % 64)
      (shortest : 0x800 ≤ char.toNat) : StartsWithChar first (second :: third :: rest) char 2
  | four {second third fourth : UInt8} {rest : Bytes} {char : Char}
      (lead : 0xF0 ≤ first.toNat ∧ first.toNat < 0xF8)
      (continued : 0x80 ≤ second.toNat ∧ second.toNat < 0xC0 ∧
        0x80 ≤ third.toNat ∧ third.toNat < 0xC0 ∧ 0x80 ≤ fourth.toNat ∧ fourth.toNat < 0xC0)
      (code : char.toNat = (first.toNat - 0xF0) * 262144 + second.toNat % 64 * 4096 +
        third.toNat % 64 * 64 + fourth.toNat % 64)
      (shortest : 0x10000 ≤ char.toNat) :
      StartsWithChar first (second :: third :: fourth :: rest) char 3

theorem startsWithChar_of_leadingRune {first : UInt8} {following : Bytes} {char : Char}
    {taken : Nat} (read : leadingRune first following = (.char char, taken)) :
    StartsWithChar first following char taken := by
  revert read
  fun_cases leadingRune first following with
  | case1 lead payload ascii =>
      intro read
      obtain ⟨rfl, rfl⟩ : Char.ofNat first.toNat = char ∧ 0 = taken := by simpa using read
      exact .one ascii (toNat_ofNat_of_valid (by simp only [Nat.isValidChar]; omega))
  | case3 lead payload notAscii notStray leads second rest code accepted =>
      intro read
      obtain ⟨rfl, rfl⟩ : Char.ofNat code = char ∧ 1 = taken := by simpa using read
      simp only [Bool.and_eq_true, decide_eq_true_eq, isContinuation_iff] at accepted
      have value : code = (lead - 0xC0) * 64 + second.toNat % 64 := by
        simp only [code, payload, toNat_payload]
      have same : (Char.ofNat code).toNat = code :=
        toNat_ofNat_of_valid (by simp only [Nat.isValidChar]; omega)
      exact .two ⟨by omega, leads⟩ accepted.1 (same.trans value) (by omega)
  | case6 lead payload notAscii notStray notTwo leads second third rest code accepted =>
      intro read
      obtain ⟨rfl, rfl⟩ : Char.ofNat code = char ∧ 2 = taken := by simpa using read
      simp only [Bool.and_eq_true, Bool.not_eq_true', decide_eq_true_eq, isContinuation_iff,
        Bool.and_eq_false_iff, decide_eq_false_iff_not] at accepted
      have value : code = (lead - 0xE0) * 4096 + second.toNat % 64 * 64 + third.toNat % 64 := by
        simp only [code, payload, toNat_payload]
      have same : (Char.ofNat code).toNat = code :=
        toNat_ofNat_of_valid (by simp only [Nat.isValidChar]; omega)
      exact .three ⟨by omega, leads⟩ (by omega) (same.trans value) (by omega)
  | case9 lead payload notAscii notStray notTwo notThree leads second third fourth rest code
      accepted =>
      intro read
      obtain ⟨rfl, rfl⟩ : Char.ofNat code = char ∧ 3 = taken := by simpa using read
      simp only [Bool.and_eq_true, decide_eq_true_eq, isContinuation_iff] at accepted
      have value : code = (lead - 0xF0) * 262144 + second.toNat % 64 * 4096 +
          third.toNat % 64 * 64 + fourth.toNat % 64 := by
        simp only [code, payload, toNat_payload]
      have same : (Char.ofNat code).toNat = code :=
        toNat_ofNat_of_valid (by simp only [Nat.isValidChar]; omega)
      exact .four ⟨by omega, leads⟩ (by omega) (same.trans value) (by omega)
  | _ =>
      intro read
      simp at read

theorem StartsWithChar.encode {first : UInt8} {following : Bytes} {char : Char} {taken : Nat}
    (starts : StartsWithChar first following char taken) :
    String.utf8EncodeChar char = first :: following.take taken := by
  have code : char.val.toNat = char.toNat := rfl
  cases starts with
  | one lead same =>
      simp only [String.utf8EncodeChar, code, same]
      rw [if_pos (by omega)]
      simp
  | two lead continued same shortest =>
      simp only [String.utf8EncodeChar, code]
      rw [if_neg (by omega), if_pos (by omega), same]
      simp [← UInt8.toNat_inj]
      omega
  | three lead continued same shortest =>
      simp only [String.utf8EncodeChar, code]
      rw [if_neg (by omega), if_neg (by omega), if_pos (by omega), same]
      simp [← UInt8.toNat_inj]
      omega
  | four lead continued same shortest =>
      simp only [String.utf8EncodeChar, code]
      rw [if_neg (by omega), if_neg (by omega), if_neg (by omega), same]
      simp [← UInt8.toNat_inj]
      omega

/-! ## Leading code units -/

/-- The code unit that a byte string starts with, and how many bytes follow its lead byte. A
form of two or three bytes may be longer than its unit needs. -/
inductive StartsWithUnit (first : UInt8) : Bytes → UInt16 → Nat → Prop
  | one {following : Bytes} {unit : UInt16} (lead : first.toNat < 0x80)
      (code : unit.toNat = first.toNat) : StartsWithUnit first following unit 0
  | two {second : UInt8} {rest : Bytes} {unit : UInt16}
      (lead : 0xC0 ≤ first.toNat ∧ first.toNat < 0xE0)
      (continued : 0x80 ≤ second.toNat ∧ second.toNat < 0xC0)
      (code : unit.toNat = (first.toNat - 0xC0) * 64 + second.toNat % 64) :
      StartsWithUnit first (second :: rest) unit 1
  | three {second third : UInt8} {rest : Bytes} {unit : UInt16}
      (lead : 0xE0 ≤ first.toNat ∧ first.toNat < 0xF0)
      (continued : 0x80 ≤ second.toNat ∧ second.toNat < 0xC0 ∧
        0x80 ≤ third.toNat ∧ third.toNat < 0xC0)
      (code : unit.toNat =
        (first.toNat - 0xE0) * 4096 + second.toNat % 64 * 64 + third.toNat % 64) :
      StartsWithUnit first (second :: third :: rest) unit 2

theorem StartsWithUnit.leadingUnit? {first : UInt8} {following : Bytes} {unit : UInt16}
    {taken : Nat} (starts : StartsWithUnit first following unit taken) :
    leadingUnit? first following = some (unit, taken) := by
  unfold ClassAudit.leadingUnit?
  simp only [lt_ascii_iff, leadsTwo_iff, leadsThree_iff]
  have same : unit.toNat.toUInt16 = unit := UInt16.ofNat_toNat
  cases starts with
  | one lead code =>
      rw [if_pos lead, ← same, code]
      simp
  | two lead continued code =>
      rw [if_neg (by omega), if_pos lead]
      simp only [(isContinuation_iff _).2 continued, if_true, toNat_payload,
        toNat_and_mask first 5 0x1F rfl]
      have leadBits : first.toNat % Nat.pow 2 5 = first.toNat - 0xC0 := by
        simp only [Nat.reducePow, Nat.pow_eq]
        omega
      rw [leadBits, ← code, same]
  | three lead continued code =>
      rw [if_neg (by omega), if_neg (by omega), if_pos lead]
      simp only [(isContinuation_iff _).2 ⟨continued.1, continued.2.1⟩,
        (isContinuation_iff _).2 continued.2.2, Bool.and_true, if_true, toNat_payload,
        toNat_and_mask first 4 0x0F rfl]
      have leadBits : first.toNat % Nat.pow 2 4 = first.toNat - 0xE0 := by
        simp only [Nat.reducePow, Nat.pow_eq]
        omega
      rw [leadBits, ← code, same]

theorem toNat_toUInt16_of_basic {char : Char} (basic : char.toNat < 0x10000) :
    char.toNat.toUInt16.toNat = char.toNat := by
  simpa using Nat.mod_eq_of_lt basic

/-- A character of the basic plane is written like its code unit. -/
theorem StartsWithChar.startsWithUnit {first : UInt8} {following : Bytes} {char : Char}
    {taken : Nat} (starts : StartsWithChar first following char taken)
    (basic : char.toNat < 0x10000) :
    StartsWithUnit first following char.toNat.toUInt16 taken := by
  have same := toNat_toUInt16_of_basic basic
  cases starts with
  | one lead code => exact .one lead (same.trans code)
  | two lead continued code shortest => exact .two lead continued (same.trans code)
  | three lead continued code shortest => exact .three lead continued (same.trans code)
  | four lead continued code shortest => omega

theorem StartsWithChar.leadingUnit? {first : UInt8} {following : Bytes} {char : Char}
    {taken : Nat} (starts : StartsWithChar first following char taken) :
    leadingUnit? first following =
      if char.toNat < 0x10000 then some (char.toNat.toUInt16, taken) else none := by
  by_cases basic : char.toNat < 0x10000
  · rw [if_pos basic]
    exact (starts.startsWithUnit basic).leadingUnit?
  · rw [if_neg basic]
    unfold ClassAudit.leadingUnit?
    simp only [lt_ascii_iff, leadsTwo_iff, leadsThree_iff]
    cases starts with
    | one lead code => omega
    | two lead continued code shortest => omega
    | three lead continued code shortest => omega
    | four lead continued code shortest =>
        rw [if_neg (by omega), if_neg (by omega), if_neg (by omega)]

/-! ## Whole texts -/

theorem encodeChars_of_runesAfter (skipped : Nat) (text : Bytes) (chars : List Char)
    (read : runesAfter skipped text = chars.map Rune.char) :
    encodeChars chars = text.drop skipped := by
  fun_induction runesAfter skipped text generalizing chars with
  | case1 skipped =>
      obtain rfl : chars = [] := by simpa using read
      simp [encodeChars]
  | case2 skipped first rest ih => exact ih chars read
  | case3 first rest rune taken leads ih =>
      obtain ⟨char, others, rfl, rfl, restRead⟩ := List.map_eq_cons_iff.1 read.symm
      have lead := (startsWithChar_of_leadingRune leads).encode
      calc encodeChars (char :: others)
          = String.utf8EncodeChar char ++ encodeChars others := by simp [encodeChars]
        _ = first :: rest.take taken ++ rest.drop taken := by rw [lead, ih others restRead.symm]
        _ = first :: rest := by simp

theorem unitsAfter?_of_runesAfter (skipped : Nat) (text : Bytes) (chars : List Char)
    (read : runesAfter skipped text = chars.map Rune.char) :
    unitsAfter? skipped text =
      if chars.all (·.toNat < 0x10000) then some (chars.map fun char => char.toNat.toUInt16)
      else none := by
  fun_induction runesAfter skipped text generalizing chars with
  | case1 skipped =>
      obtain rfl : chars = [] := by simpa using read
      simp [unitsAfter?]
  | case2 skipped first rest ih => exact ih chars read
  | case3 first rest rune taken leads ih =>
      obtain ⟨char, others, rfl, rfl, restRead⟩ := List.map_eq_cons_iff.1 read.symm
      rw [unitsAfter?, (startsWithChar_of_leadingRune leads).leadingUnit?, List.all_cons]
      by_cases basic : char.toNat < 0x10000
      · simp only [basic, if_true, ih others restRead.symm, decide_true, Bool.true_and]
        cases others.all (·.toNat < 0x10000) <;> rfl
      · simp only [basic, if_false, decide_false, Bool.false_and, Bool.false_eq_true]

theorem isHighSurrogate_iff (unit : UInt16) :
    isHighSurrogate unit = true ↔ 0xD800 ≤ unit.toNat ∧ unit.toNat ≤ 0xDBFF := by
  simp [isHighSurrogate, UInt16.le_iff_toNat_le]

theorem isLowSurrogate_iff (unit : UInt16) :
    isLowSurrogate unit = true ↔ 0xDC00 ≤ unit.toNat ∧ unit.toNat ≤ 0xDFFF := by
  simp [isLowSurrogate, UInt16.le_iff_toNat_le]

theorem loneChar_of_surrogate {unit : UInt16}
    (surrogate : 0xD800 ≤ unit.toNat ∧ unit.toNat ≤ 0xDFFF) :
    loneChar unit = Char.ofNat 0xFFFD := by
  have half : (isHighSurrogate unit || isLowSurrogate unit) = true := by
    rw [Bool.or_eq_true, isHighSurrogate_iff, isLowSurrogate_iff]
    omega
  rw [loneChar, if_pos half]

theorem loneChar_of_not_surrogate {unit : UInt16}
    (whole : unit.toNat < 0xD800 ∨ 0xDFFF < unit.toNat) :
    (loneChar unit).toNat = unit.toNat := by
  have bounded := unit.toNat_lt
  have notHalf : ¬ (isHighSurrogate unit || isLowSurrogate unit) = true := by
    rw [Bool.or_eq_true, isHighSurrogate_iff, isLowSurrogate_iff]
    omega
  rw [loneChar, if_neg notHalf]
  exact toNat_ofNat_of_valid (by simp only [Nat.isValidChar]; omega)

/-- No character is a surrogate, so one of the basic plane is a unit that stands alone. -/
theorem toNat_toUInt16_not_surrogate {char : Char} (basic : char.toNat < 0x10000) :
    char.toNat.toUInt16.toNat < 0xD800 ∨ 0xDFFF < char.toNat.toUInt16.toNat := by
  have valid : char.toNat < 0xD800 ∨ 0xDFFF < char.toNat ∧ char.toNat < 0x110000 := char.valid
  rw [toNat_toUInt16_of_basic basic]
  omega

theorem loneChar_of_basic {char : Char} (basic : char.toNat < 0x10000) :
    loneChar char.toNat.toUInt16 = char := by
  have code := loneChar_of_not_surrogate (toNat_toUInt16_not_surrogate basic)
  rw [toNat_toUInt16_of_basic basic] at code
  rw [← Char.ofNat_toNat (loneChar _), code, Char.ofNat_toNat]

theorem charsOfUnits_map (chars : List Char) (basic : ∀ char ∈ chars, char.toNat < 0x10000) :
    charsOfUnits (chars.map fun char => char.toNat.toUInt16) = chars := by
  induction chars with
  | nil => rfl
  | cons char others ih =>
      have lone := loneChar_of_basic (basic char (by simp))
      have rest := ih fun other member => basic other (by simp [member])
      -- a unit is read together with its neighbour, which no unit here pairs with
      cases others with
      | nil => simp [charsOfUnits, lone]
      | cons next others =>
          have notHigh : isHighSurrogate char.toNat.toUInt16 = false := by
            have alone := toNat_toUInt16_not_surrogate (basic char (by simp))
            rw [← Bool.not_eq_true, isHighSurrogate_iff]
            omega
          simp only [List.map_cons] at rest ⊢
          rw [charsOfUnits, notHigh, Bool.false_and, if_neg (by decide), rest, lone]

theorem runes_of_isUtf8 {text : Bytes} (wellFormed : isUtf8 text = true) :
    ∃ chars, runes text = List.map Rune.char chars := by
  have everyChar : ∀ rune ∈ runes text, ∃ char, Rune.char char = rune := by
    intro rune member
    have accepted := List.all_eq_true.1 wellFormed rune member
    cases rune with
    | char value => exact ⟨value, rfl⟩
    | stray byte => simp at accepted
  have mapped : runes text ∈ Set.range (List.map Rune.char) := by
    rw [Set.range_list_map]
    exact everyChar
  obtain ⟨chars, same⟩ := mapped
  exact ⟨chars, same.symm⟩

/-- Text that is well-formed UTF-8 stands for itself: where each character has one code
unit, the units give the characters back, and otherwise the body has no reading. -/
theorem decodeText_of_isUtf8 {text : Bytes} (wellFormed : isUtf8 text = true) :
    decodeText text = text := by
  obtain ⟨chars, read⟩ := runes_of_isUtf8 wellFormed
  have encoded : encodeChars chars = text := by
    simpa using encodeChars_of_runesAfter 0 text chars read
  unfold decodeText units?
  rw [unitsAfter?_of_runesAfter 0 text chars read]
  cases basic : chars.all (·.toNat < 0x10000) with
  | true =>
      have back := charsOfUnits_map chars (by simpa using basic)
      simp only [if_true, back, encoded, ite_self]
  | false => simp only [Bool.false_eq_true, if_false, ite_self]

end ClassAudit
