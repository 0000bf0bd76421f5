import ClassAudit.Proofs.TextProperties

/-!
# Class-file text

Reading a character back from its UTF-8 form, and a code unit from its own form, says what
decoding makes of any body. A body with a reading gives well-formed text that is no longer than
the body; every other body stands for itself.
-/

set_option autoImplicit false

namespace ClassAudit

/-! ## Reading characters back -/

theorem StartsWithChar.leadingRune {first : UInt8} {following : Bytes} {char : Char} {taken : Nat}
    (starts : StartsWithChar first following char taken) :
    leadingRune first following = (.char char, taken) := by
  have valid : char.toNat < 0xD800 ∨ 0xDFFF < char.toNat ∧ char.toNat < 0x110000 := char.valid
  have same := Char.ofNat_toNat char
  unfold ClassAudit.leadingRune
  cases starts with
  | one lead code =>
      rw [if_pos lead, ← code, same]
  | two lead continued code shortest =>
      rw [if_neg (by omega), if_neg (by omega), if_pos (by omega)]
      simp only [toNat_payload, ← code, (isContinuation_iff _).2 continued, Bool.true_and, same]
      rw [if_pos (by simpa using shortest)]
  | three lead continued code shortest =>
      rw [if_neg (by omega), if_neg (by omega), if_neg (by omega), if_pos (by omega)]
      simp only [toNat_payload, ← code, (isContinuation_iff _).2 ⟨continued.1, continued.2.1⟩,
        (isContinuation_iff _).2 continued.2.2, Bool.true_and, same]
      rw [if_pos]
      simp
      omega
  | four lead continued code shortest =>
      rw [if_neg (by omega), if_neg (by omega), if_neg (by omega), if_neg (by omega),
        if_pos (by omega)]
      simp only [toNat_payload, ← code, (isContinuation_iff _).2 ⟨continued.1, continued.2.1⟩,
        (isContinuation_iff _).2 ⟨continued.2.2.1, continued.2.2.2.1⟩,
        (isContinuation_iff _).2 continued.2.2.2.2, Bool.true_and, same]
      rw [if_pos]
      simp
      omega

/-- The UTF-8 form of a character starts with that character, whatever stands behind it. -/
theorem startsWithChar_encoded (char : Char) (rest : Bytes) :
    ∃ first more, String.utf8EncodeChar char = first :: more ∧
      StartsWithChar first (more ++ rest) char more.length := by
  have valid : char.toNat < 0xD800 ∨ 0xDFFF < char.toNat ∧ char.toNat < 0x110000 := char.valid
  have code : char.val.toNat = char.toNat := rfl
  unfold String.utf8EncodeChar
  simp only [code]
  split
  · exact ⟨_, [], rfl, .one (by simp; omega) (by simp; omega)⟩
  · split
    · exact ⟨_, [_], rfl, .two (by simp; omega) (by simp; omega) (by simp; omega) (by omega)⟩
    · split
      · exact ⟨_, [_, _], rfl,
          .three (by simp; omega) (by simp; omega) (by simp; omega) (by omega)⟩
      · exact ⟨_, [_, _, _], rfl,
          .four (by simp; omega) (by simp; omega) (by simp; omega) (by omega)⟩

theorem runesAfter_append (front rest : Bytes) :
    runesAfter front.length (front ++ rest) = runesAfter 0 rest := by
  induction front with
  | nil => rfl
  | cons byte front ih =>
      rw [List.length_cons, List.cons_append, runesAfter]
      exact ih

theorem runes_encodeChars (chars : List Char) : runes (encodeChars chars) = chars.map .char := by
  induction chars with
  | nil => rfl
  | cons char chars ih =>
      obtain ⟨first, more, form, starts⟩ := startsWithChar_encoded char (encodeChars chars)
      have split : encodeChars (char :: chars) = first :: (more ++ encodeChars chars) := by
        rw [encodeChars, List.flatMap_cons, form]
        rfl
      rw [split, runes, runesAfter, starts.leadingRune, List.map_cons]
      exact congrArg (Rune.char char :: ·) ((runesAfter_append more _).trans ih)

/-- A byte string is well-formed UTF-8 exactly when it is the written form of characters. -/
theorem isUtf8_iff (text : Bytes) : isUtf8 text = true ↔ ∃ chars, text = encodeChars chars := by
  constructor
  · intro wellFormed
    obtain ⟨chars, read⟩ := runes_of_isUtf8 wellFormed
    have encoded := encodeChars_of_runesAfter 0 text chars read
    exact ⟨chars, encoded.symm⟩
  · rintro ⟨chars, rfl⟩
    rw [isUtf8, runes_encodeChars, List.all_map]
    exact List.all_eq_true.mpr fun _ _ => rfl

/-! ## Reading code units back -/

theorem startsWithUnit_of_leadingUnit? {first : UInt8} {following : Bytes} {unit : UInt16}
    {taken : Nat} (read : leadingUnit? first following = some (unit, taken)) :
    StartsWithUnit first following unit taken := by
  revert read
  have bounded := first.toNat_lt
  fun_cases leadingUnit? first following with
  | case1 _ ascii =>
      intro read
      obtain ⟨rfl, rfl⟩ : first.toUInt16 = unit ∧ 0 = taken := by simpa using read
      exact .one ((lt_ascii_iff first).1 ascii) (by simp)
  | case2 payload notAscii leads second rest continued =>
      intro read
      obtain ⟨rfl, rfl⟩ : ((first &&& 0x1F).toNat * 64 + payload second).toUInt16 = unit ∧
        1 = taken := by simpa using read
      rw [leadsTwo_iff] at leads
      refine .two leads ((isContinuation_iff second).1 continued) ?_
      simp only [payload, toNat_payload, toNat_and_mask first 5 0x1F rfl]
      simp
      omega
  | case5 payload notAscii notTwo leads second third rest continued =>
      intro read
      obtain ⟨rfl, rfl⟩ : ((first &&& 0x0F).toNat * 4096 + payload second * 64 +
        payload third).toUInt16 = unit ∧ 2 = taken := by simpa using read
      rw [leadsThree_iff] at leads
      simp only [Bool.and_eq_true, isContinuation_iff] at continued
      refine .three leads (by omega) ?_
      simp only [payload, toNat_payload, toNat_and_mask first 4 0x0F rfl]
      simp
      omega
  | _ =>
      intro read
      cases read

/-- The written form of a code unit starts with that unit, whatever stands behind it. -/
theorem startsWithUnit_encoded (unit : UInt16) (rest : Bytes) :
    ∃ first more, encodeUnit unit = first :: more ∧
      StartsWithUnit first (more ++ rest) unit more.length := by
  have bounded := unit.toNat_lt
  unfold encodeUnit
  simp only [Bool.and_eq_true, decide_eq_true_eq]
  split
  · exact ⟨_, [], rfl, .one (by simp; omega) (by simp; omega)⟩
  · split
    · exact ⟨_, [_], rfl, .two (by simp; omega) (by simp; omega) (by simp; omega)⟩
    · exact ⟨_, [_, _], rfl, .three (by simp; omega) (by simp; omega) (by simp; omega)⟩

theorem unitsAfter?_append (front rest : Bytes) :
    unitsAfter? front.length (front ++ rest) = unitsAfter? 0 rest := by
  induction front with
  | nil => rfl
  | cons byte front ih =>
      rw [List.length_cons, List.cons_append, unitsAfter?]
      exact ih

theorem units?_encodeUnits (units : List UInt16) : units? (encodeUnits units) = some units := by
  induction units with
  | nil => rfl
  | cons unit units ih =>
      obtain ⟨first, more, form, starts⟩ := startsWithUnit_encoded unit (encodeUnits units)
      have split : encodeUnits (unit :: units) = first :: (more ++ encodeUnits units) := by
        rw [encodeUnits, List.flatMap_cons, form]
        rfl
      have others : unitsAfter? more.length (more ++ encodeUnits units) = some units :=
        (unitsAfter?_append more _).trans ih
      rw [split, units?, unitsAfter?, starts.leadingUnit?]
      simp only [others]

/-! ## Lengths -/

theorem length_encodeChars_cons (char : Char) (chars : List Char) :
    (encodeChars (char :: chars)).length =
      (String.utf8EncodeChar char).length + (encodeChars chars).length := by
  rw [encodeChars, List.flatMap_cons, List.length_append]
  rfl

theorem length_encode_le (char : Char) :
    (char.toNat < 0x80 → (String.utf8EncodeChar char).length ≤ 1) ∧
      (char.toNat < 0x800 → (String.utf8EncodeChar char).length ≤ 2) ∧
      (char.toNat < 0x10000 → (String.utf8EncodeChar char).length ≤ 3) ∧
      (String.utf8EncodeChar char).length ≤ 4 := by
  have code : char.val.toNat = char.toNat := rfl
  unfold String.utf8EncodeChar
  simp only [code]
  split
  · simp
  · split
    · simp
      omega
    · split
      · simp
        omega
      · simp
        omega

/-- A surrogate is written as U+FFFD, which takes as many bytes as the surrogate did. -/
theorem StartsWithUnit.length_loneChar_le {first : UInt8} {following : Bytes} {unit : UInt16}
    {taken : Nat} (starts : StartsWithUnit first following unit taken) :
    (String.utf8EncodeChar (loneChar unit)).length ≤ taken + 1 := by
  have bounded := unit.toNat_lt
  obtain ⟨one, two, three, -⟩ := length_encode_le (loneChar unit)
  by_cases surrogate : 0xD800 ≤ unit.toNat ∧ unit.toNat ≤ 0xDFFF
  · cases starts with
    | one lead code => omega
    | two lead continued code => omega
    | three lead continued code =>
        rw [loneChar_of_surrogate surrogate]
        decide
  · rw [loneChar_of_not_surrogate (by omega)] at one two three
    cases starts with
    | one lead code => exact one (by omega)
    | two lead continued code => exact two (by omega)
    | three lead continued code => exact three bounded

theorem StartsWithUnit.taken_le {first : UInt8} {following : Bytes} {unit : UInt16}
    {taken : Nat} (starts : StartsWithUnit first following unit taken) :
    taken ≤ following.length := by
  cases starts <;> simp

theorem length_loneChars_le (skipped : Nat) (body : Bytes) (units : List UInt16)
    (read : unitsAfter? skipped body = some units) :
    (encodeChars (units.map loneChar)).length ≤ (body.drop skipped).length := by
  fun_induction unitsAfter? skipped body generalizing units with
  | case1 skipped =>
      cases read
      exact Nat.zero_le _
  | case2 skipped byte rest ih => exact ih units read
  | case3 first rest unread => cases read
  | case4 first rest unit taken leads unread ih => cases read
  | case5 first rest unit taken leads others continued ih =>
      cases read
      have starts := startsWithUnit_of_leadingUnit? leads
      have head := starts.length_loneChar_le
      have available := starts.taken_le
      have tail := ih others continued
      rw [List.length_drop] at tail
      rw [List.map_cons, length_encodeChars_cons, List.drop_zero, List.length_cons]
      omega

theorem length_charsOfUnits_le (units : List UInt16) :
    (encodeChars (charsOfUnits units)).length ≤ (encodeChars (units.map loneChar)).length := by
  fun_induction charsOfUnits units with
  | case1 => exact Nat.le_refl _
  | case2 unit => exact Nat.le_refl _
  | case3 high low rest paired ih =>
      rw [Bool.and_eq_true, isHighSurrogate_iff, isLowSurrogate_iff] at paired
      have replaced : (String.utf8EncodeChar (Char.ofNat 0xFFFD)).length = 3 := by decide
      have whole := (length_encode_le (pairChar high low)).2.2.2
      rw [List.map_cons, List.map_cons, length_encodeChars_cons, length_encodeChars_cons,
        length_encodeChars_cons, loneChar_of_surrogate (by omega),
        loneChar_of_surrogate (by omega), replaced]
      omega
  | case4 unit next rest unpaired ih =>
      rw [List.map_cons, length_encodeChars_cons, length_encodeChars_cons]
      exact Nat.add_le_add_left ih _

/-! ## Characters of code units -/

/-- The characters that code units spell. A high surrogate directly before a low one spells the
supplementary character of the two, and every other surrogate U+FFFD. -/
inductive Spells : List UInt16 → List Char → Prop
  | nil : Spells [] []
  | pair {high low : UInt16} {units : List UInt16} {char : Char} {chars : List Char}
      (leads : isHighSurrogate high = true) (trails : isLowSurrogate low = true)
      (code : char.toNat = 0x10000 + (high.toNat - 0xD800) * 0x400 + (low.toNat - 0xDC00))
      (others : Spells units chars) : Spells (high :: low :: units) (char :: chars)
  | unpaired {unit : UInt16} {units : List UInt16} {char : Char} {chars : List Char}
      (surrogate : isHighSurrogate unit = true ∨ isLowSurrogate unit = true)
      (apart : isHighSurrogate unit = true → ∀ next ∈ units.head?, isLowSurrogate next = false)
      (code : char.toNat = 0xFFFD)
      (others : Spells units chars) : Spells (unit :: units) (char :: chars)
  | whole {unit : UInt16} {units : List UInt16} {char : Char} {chars : List Char}
      (notHigh : isHighSurrogate unit = false) (notLow : isLowSurrogate unit = false)
      (code : char.toNat = unit.toNat)
      (others : Spells units chars) : Spells (unit :: units) (char :: chars)

theorem pairChar_toNat {high low : UInt16} (leads : isHighSurrogate high = true)
    (trails : isLowSurrogate low = true) :
    (pairChar high low).toNat =
      0x10000 + (high.toNat - 0xD800) * 0x400 + (low.toNat - 0xDC00) := by
  rw [isHighSurrogate_iff] at leads
  rw [isLowSurrogate_iff] at trails
  exact toNat_ofNat_of_valid (by simp only [Nat.isValidChar]; omega)

theorem spells_loneChar {unit : UInt16} {units : List UInt16} {chars : List Char}
    (apart : isHighSurrogate unit = true → ∀ next ∈ units.head?, isLowSurrogate next = false)
    (others : Spells units chars) : Spells (unit :: units) (loneChar unit :: chars) := by
  by_cases surrogate : isHighSurrogate unit = true ∨ isLowSurrogate unit = true
  · refine .unpaired surrogate apart ?_ others
    rw [isHighSurrogate_iff, isLowSurrogate_iff] at surrogate
    rw [loneChar_of_surrogate (by omega)]
    decide
  · rw [not_or, Bool.not_eq_true, Bool.not_eq_true] at surrogate
    obtain ⟨notHigh, notLow⟩ := surrogate
    refine .whole notHigh notLow ?_ others
    apply loneChar_of_not_surrogate
    rw [← Bool.not_eq_true, isHighSurrogate_iff] at notHigh
    rw [← Bool.not_eq_true, isLowSurrogate_iff] at notLow
    omega

theorem spells_charsOfUnits (units : List UInt16) : Spells units (charsOfUnits units) := by
  fun_induction charsOfUnits units with
  | case1 => exact .nil
  | case2 unit => exact spells_loneChar (fun _ => nofun) .nil
  | case3 high low rest paired ih =>
      obtain ⟨leads, trails⟩ := Bool.and_eq_true_iff.mp paired
      exact .pair leads trails (pairChar_toNat leads trails) ih
  | case4 unit next rest unpaired ih =>
      refine spells_loneChar ?_ ih
      intro leads follower member
      cases member
      rw [leads, Bool.true_and] at unpaired
      exact Bool.eq_false_iff.mpr unpaired

/-- Code units spell one sequence of characters: whether a unit is a high or a low surrogate,
and what follows it, leaves one form for it. -/
theorem Spells.unique {units : List UInt16} {chars others : List Char}
    (spelled : Spells units chars) (again : Spells units others) : chars = others := by
  induction spelled generalizing others with
  | nil =>
      cases again
      rfl
  | pair leads trails code _ ih =>
      cases again with
      | pair _ _ sameCode rest => rw [Char.toNat_inj.mp (code.trans sameCode.symm), ih rest]
      | unpaired _ apart _ _ => cases trails.symm.trans (apart leads _ rfl)
      | whole notHigh _ _ _ => cases leads.symm.trans notHigh
  | unpaired surrogate apart code _ ih =>
      cases again with
      | pair leads trails _ _ => cases trails.symm.trans (apart leads _ rfl)
      | unpaired _ _ sameCode rest => rw [Char.toNat_inj.mp (code.trans sameCode.symm), ih rest]
      | whole notHigh notLow _ _ =>
          rcases surrogate with high | low
          · cases high.symm.trans notHigh
          · cases low.symm.trans notLow
  | whole notHigh notLow code _ ih =>
      cases again with
      | pair leads _ _ _ => cases leads.symm.trans notHigh
      | unpaired surrogate _ _ _ =>
          rcases surrogate with high | low
          · cases high.symm.trans notHigh
          · cases low.symm.trans notLow
      | whole _ _ sameCode rest => rw [Char.toNat_inj.mp (code.trans sameCode.symm), ih rest]

/-! ## Whole bodies -/

/-- The text that a body reads as, where every byte of it fits a form. -/
def reading? (body : Bytes) : Option Bytes :=
  (units? body).map fun units => encodeChars (charsOfUnits units)

theorem units?_encodeChars (chars : List Char) :
    units? (encodeChars chars) =
      if chars.all (·.toNat < 0x10000) then some (chars.map fun char => char.toNat.toUInt16)
      else none :=
  unitsAfter?_of_runesAfter 0 (encodeChars chars) chars (runes_encodeChars chars)

theorem reading?_of_basic {chars : List Char} (basic : ∀ char ∈ chars, char.toNat < 0x10000) :
    reading? (encodeChars chars) = some (encodeChars chars) := by
  rw [reading?, units?_encodeChars, if_pos (by simpa using basic), Option.map_some,
    charsOfUnits_map chars basic]

theorem encodeChars_ascii {body : Bytes} (ascii : body.all (· < 0x80) = true) :
    ∃ chars, body = encodeChars chars ∧ ∀ char ∈ chars, char.toNat < 0x10000 := by
  induction body with
  | nil => exact ⟨[], rfl, List.forall_mem_nil _⟩
  | cons byte body ih =>
      rw [List.all_cons, Bool.and_eq_true, decide_eq_true_eq, lt_ascii_iff] at ascii
      obtain ⟨small, ascii⟩ := ascii
      obtain ⟨chars, rfl, basic⟩ := ih ascii
      have code : (Char.ofNat byte.toNat).toNat = byte.toNat :=
        toNat_ofNat_of_valid (by simp only [Nat.isValidChar]; omega)
      have form := StartsWithChar.encode (.one small code : StartsWithChar byte [] _ 0)
      refine ⟨Char.ofNat byte.toNat :: chars, ?_, ?_⟩
      · rw [encodeChars, encodeChars, List.flatMap_cons, form]
        rfl
      · rw [List.forall_mem_cons, code]
        exact ⟨by omega, basic⟩

theorem reading?_ascii {body : Bytes} (ascii : body.all (· < 0x80) = true) :
    reading? body = some body := by
  obtain ⟨chars, rfl, basic⟩ := encodeChars_ascii ascii
  exact reading?_of_basic basic

theorem isUtf8_of_reading? {body text : Bytes} (read : reading? body = some text) :
    isUtf8 text = true := by
  obtain ⟨units, -, rfl⟩ := Option.map_eq_some_iff.mp read
  exact (isUtf8_iff _).mpr ⟨_, rfl⟩

theorem length_reading?_le {body text : Bytes} (read : reading? body = some text) :
    text.length ≤ body.length := by
  obtain ⟨units, found, rfl⟩ := Option.map_eq_some_iff.mp read
  exact Nat.le_trans (length_charsOfUnits_le units) (length_loneChars_le 0 body units found)

/-- ASCII reads as itself and no reading is ill-formed, so that neither test changes the text. -/
theorem decodeText_eq_reading (body : Bytes) : decodeText body = (reading? body).getD body := by
  unfold decodeText
  split
  · next ascii =>
      rw [reading?_ascii ascii, Option.getD_some]
  · cases found : units? body with
    | none => rw [reading?, found, Option.map_none, Option.getD_none]
    | some units =>
        have read : reading? body = some (encodeChars (charsOfUnits units)) := by
          rw [reading?, found, Option.map_some]
        simp only [read, isUtf8_of_reading? read, if_true, Option.getD_some]

/-- Decoding the written form of code units gives the characters that they spell, and ASCII is
what reading its code units would give. -/
theorem decodeText_inverts_unit_encoding (units : List UInt16) :
    (∃ chars, Spells units chars ∧ (∀ others, Spells units others → others = chars) ∧
      decodeText (encodeUnits units) = encodeChars chars) ∧
    ∀ body : Bytes, body.all (· < 0x80) = true → reading? body = some (decodeText body) := by
  constructor
  · refine ⟨charsOfUnits units, spells_charsOfUnits units, ?_, ?_⟩
    · intro others spelled
      exact spelled.unique (spells_charsOfUnits units)
    · rw [decodeText_eq_reading, reading?, units?_encodeUnits, Option.map_some, Option.getD_some]
  · intro body ascii
    rw [decodeText_eq_reading, reading?_ascii ascii, Option.getD_some]

example : decodeText (encodeUnits [0, 0xD83D, 0xDE00, 0xDE00, 0x41]) =
    [0, 0xF0, 0x9F, 0x98, 0x80, 0xEF, 0xBF, 0xBD, 0x41] := by decide

/-- Decoding keeps well-formed text, whatever else it meets. Its result is the body itself or
well-formed text no longer than the body, and stays as it is when decoded again. -/
theorem decodeText_keeps_wellFormed_text (body : Bytes) :
    (isUtf8 body = true ↔ ∃ chars, body = encodeChars chars) ∧
    (isUtf8 body = true → decodeText body = body) ∧
    (decodeText body = body ∨ isUtf8 (decodeText body) = true) ∧
    (decodeText body).length ≤ body.length ∧
    decodeText (decodeText body) = decodeText body ∧
    ∀ text, reading? body = some text → isUtf8 text = true ∧ decodeText body = text := by
  refine ⟨isUtf8_iff body, decodeText_of_isUtf8, ?_⟩
  cases read : reading? body with
  | none =>
      have kept : decodeText body = body := by rw [decodeText_eq_reading, read, Option.getD_none]
      rw [kept]
      exact ⟨.inl rfl, Nat.le_refl _, kept, nofun⟩
  | some text =>
      have converted : decodeText body = text := by
        rw [decodeText_eq_reading, read, Option.getD_some]
      have wellFormed := isUtf8_of_reading? read
      rw [converted]
      refine ⟨.inr wellFormed, length_reading?_le read, decodeText_of_isUtf8 wellFormed, ?_⟩
      intro other same
      cases same
      exact ⟨wellFormed, rfl⟩

end ClassAudit
