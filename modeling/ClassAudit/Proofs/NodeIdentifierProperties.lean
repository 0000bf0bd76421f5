import ClassAudit.Proofs.ClassTextProperties
import ClassAudit.Proofs.DrawingLimitProperties

/-!
# Identifiers of class nodes

An identifier keeps letters, digits and underscores and escapes every other character. Underscores
also start escapes, and escapes beyond U+FFFF have no fixed width, so that different names can
have one identifier. Among the names with an identifier exactly one is plain: it has no character
beyond U+FFFF, and spells out no escape.
-/

set_option autoImplicit false

namespace ClassAudit

/-! ## Spelled characters -/

/-- Whether a code is that of a letter, a digit or an underscore. -/
def isWordCode (code : Nat) : Bool :=
  (0x61 ≤ code && code ≤ 0x7A) || (0x41 ≤ code && code ≤ 0x5A) ||
    (0x30 ≤ code && code ≤ 0x39) || code == 0x5F

/-- How an identifier spells a character. -/
def spelling (char : Char) : Bytes :=
  if isWordCode char.toNat then [char.toNat.toUInt8] else 0x5F :: hexPadded 4 char.toNat

theorem nodeId_encodeChars (chars : List Char) :
    nodeId (encodeChars chars) = "n_" ++ chars.flatMap spelling := by
  rw [nodeId, runes_encodeChars, List.flatMap_map]
  rfl

theorem spelling_of_word {char : Char} (word : isWordCode char.toNat = true) :
    spelling char = [char.toNat.toUInt8] := if_pos word

theorem spelling_of_escaped {char : Char} (escaped : isWordCode char.toNat = false) :
    spelling char = 0x5F :: hexPadded 4 char.toNat := if_neg (ne_true_of_eq_false escaped)

theorem lt_of_isWordCode {code : Nat} (word : isWordCode code = true) : code < 128 := by
  simp only [isWordCode, Bool.or_eq_true, Bool.and_eq_true, decide_eq_true_eq, beq_iff_eq] at word
  omega

theorem toNat_toUInt8_of_word {code : Nat} (word : isWordCode code = true) :
    code.toUInt8.toNat = code := by
  have small := lt_of_isWordCode word
  rw [Nat.toUInt8_eq]
  exact UInt8.toNat_ofNat_of_lt (Nat.lt_trans small (by decide))

def charOfByte (byte : UInt8) : Char := Char.ofNat byte.toNat

theorem toNat_charOfByte {byte : UInt8} (word : isWordCode byte.toNat = true) :
    (charOfByte byte).toNat = byte.toNat := by
  have small := lt_of_isWordCode word
  exact toNat_ofNat_of_valid (.inl (by omega))

theorem spelling_charOfByte {byte : UInt8} (word : isWordCode byte.toNat = true) :
    spelling (charOfByte byte) = [byte] := by
  have code := toNat_charOfByte word
  rw [spelling_of_word (code ▸ word), code]
  simp

theorem flatMap_spelling_charOfByte {bytes : Bytes}
    (words : ∀ byte ∈ bytes, isWordCode byte.toNat = true) :
    (bytes.map charOfByte).flatMap spelling = bytes := by
  induction bytes with
  | nil => rfl
  | cons byte bytes ih =>
      obtain ⟨word, words⟩ := List.forall_mem_cons.mp words
      rw [List.map_cons, List.flatMap_cons, spelling_charOfByte word, ih words]
      rfl

theorem isWordCode_hexDigit : ∀ digit < 16, isWordCode (hexDigit digit).toNat = true := by
  decide

theorem hexDigit_ne_underscore : ∀ digit < 16, hexDigit digit ≠ 0x5F := by
  decide

theorem isWordCode_of_mem_hexPadded {width value : Nat} {byte : UInt8}
    (member : byte ∈ hexPadded width value) : isWordCode byte.toNat = true := by
  obtain ⟨digit, small, rfl⟩ := mem_hexPadded member
  exact isWordCode_hexDigit digit small

theorem isWordCode_of_mem_spelling {char : Char} {byte : UInt8} (member : byte ∈ spelling char) :
    isWordCode byte.toNat = true := by
  cases word : isWordCode char.toNat with
  | true =>
      rw [spelling_of_word word, List.mem_singleton] at member
      rw [member, toNat_toUInt8_of_word word]
      exact word
  | false =>
      rw [spelling_of_escaped word, List.mem_cons] at member
      rcases member with rfl | digit
      · decide
      · exact isWordCode_of_mem_hexPadded digit

/-- A byte other than an underscore stands for itself. -/
theorem eq_cons_of_flatMap_spelling {chars : List Char} {byte : UInt8} {rest : Bytes}
    (literal : byte ≠ 0x5F) (spelled : chars.flatMap spelling = byte :: rest) :
    ∃ others, chars = charOfByte byte :: others ∧ others.flatMap spelling = rest := by
  cases chars with
  | nil => cases spelled
  | cons char others =>
      rw [List.flatMap_cons] at spelled
      cases word : isWordCode char.toNat with
      | true =>
          rw [spelling_of_word word, List.singleton_append] at spelled
          obtain ⟨rfl, remaining⟩ := List.cons.inj spelled
          refine ⟨others, ?_, remaining⟩
          rw [charOfByte, toNat_toUInt8_of_word word, Char.ofNat_toNat]
      | false =>
          rw [spelling_of_escaped word, List.cons_append] at spelled
          exact absurd (List.cons.inj spelled).1.symm literal

theorem eq_append_of_flatMap_spelling {chars : List Char} {bytes rest : Bytes}
    (literal : ∀ byte ∈ bytes, byte ≠ 0x5F) (spelled : chars.flatMap spelling = bytes ++ rest) :
    ∃ others, chars = bytes.map charOfByte ++ others ∧ others.flatMap spelling = rest := by
  induction bytes generalizing chars with
  | nil => exact ⟨chars, rfl, spelled⟩
  | cons byte bytes ih =>
      obtain ⟨first, literal⟩ := List.forall_mem_cons.mp literal
      obtain ⟨others, rfl, behind⟩ := eq_cons_of_flatMap_spelling first spelled
      obtain ⟨others, rfl, remaining⟩ := ih literal behind
      exact ⟨others, rfl, remaining⟩

/-! ## Plain names -/

/-- The characters that the escape of a character shows. -/
def escapeChars (char : Char) : List Char := '_' :: (hexPadded 4 char.toNat).map charOfByte

/-- Whether a character up to U+FFFF is escaped. -/
def IsEscaped (char : Char) : Prop := char.toNat < 0x10000 ∧ isWordCode char.toNat = false

/-- No character beyond U+FFFF, and nowhere the escape of a character spelled out. -/
def PlainChars (chars : List Char) : Prop :=
  (∀ char ∈ chars, char.toNat < 0x10000) ∧ ∀ char, IsEscaped char → ¬ escapeChars char <:+: chars

theorem plainChars_nil : PlainChars [] := by
  refine ⟨List.forall_mem_nil _, ?_⟩
  intro char _ spelled
  cases List.eq_nil_of_infix_nil spelled

theorem plainChars_cons_iff {char : Char} {chars : List Char} :
    PlainChars (char :: chars) ↔
      char.toNat < 0x10000 ∧ PlainChars chars ∧
        ∀ other, IsEscaped other → ¬ escapeChars other <+: char :: chars := by
  simp only [PlainChars, List.forall_mem_cons, List.infix_cons_iff, not_or]
  constructor
  · intro plain
    obtain ⟨⟨basic, others⟩, unspelled⟩ := plain
    exact ⟨basic, ⟨others, fun other escaped => (unspelled other escaped).2⟩,
      fun other escaped => (unspelled other escaped).1⟩
  · intro plain
    obtain ⟨basic, ⟨others, unspelled⟩, leading⟩ := plain
    exact ⟨⟨basic, others⟩, fun other escaped => ⟨leading other escaped, unspelled other escaped⟩⟩

/-- What starts with the spelling of an escaped character starts with that character or spells out
its escape. -/
theorem not_spelled_of_plain {char other : Char} {chars : List Char} {rest : Bytes}
    (plain : PlainChars (char :: chars)) (word : isWordCode char.toNat = true)
    (escaped : IsEscaped other) :
    (char :: chars).flatMap spelling ≠ spelling other ++ rest := by
  intro spelled
  rw [List.flatMap_cons, spelling_of_word word, spelling_of_escaped escaped.2] at spelled
  obtain ⟨underscore, digits⟩ := List.cons.inj spelled
  have literal : ∀ byte ∈ hexPadded 4 other.toNat, byte ≠ 0x5F := by
    intro byte member
    obtain ⟨digit, small, rfl⟩ := mem_hexPadded member
    exact hexDigit_ne_underscore digit small
  obtain ⟨others, rfl, _⟩ := eq_append_of_flatMap_spelling literal digits
  have same : char = '_' := by
    have code := congrArg UInt8.toNat underscore
    rw [toNat_toUInt8_of_word word] at code
    rw [← Char.ofNat_toNat char, code]
    rfl
  refine (plainChars_cons_iff.mp plain).2.2 other escaped ⟨others, ?_⟩
  rw [same]
  rfl

theorem spelling_ne_nil (char : Char) : spelling char ≠ [] := by
  unfold spelling
  split <;> exact List.cons_ne_nil _ _

theorem word_append_inj {left right : Char} {after others : Bytes}
    (leftWord : isWordCode left.toNat = true) (rightWord : isWordCode right.toNat = true)
    (same : spelling left ++ after = spelling right ++ others) : left = right ∧ after = others := by
  rw [spelling_of_word leftWord, spelling_of_word rightWord] at same
  obtain ⟨first, rest⟩ := List.cons.inj same
  have code := congrArg UInt8.toNat first
  rw [toNat_toUInt8_of_word leftWord, toNat_toUInt8_of_word rightWord] at code
  exact ⟨Char.toNat_inj.mp code, rest⟩

theorem escape_append_inj {left right : Char} {after others : Bytes}
    (leftEscaped : IsEscaped left) (rightEscaped : IsEscaped right)
    (same : spelling left ++ after = spelling right ++ others) : left = right ∧ after = others := by
  rw [spelling_of_escaped leftEscaped.2, spelling_of_escaped rightEscaped.2] at same
  have widths : (hexPadded 4 left.toNat).length = (hexPadded 4 right.toNat).length := by
    rw [hexPadded_four leftEscaped.1, hexPadded_four rightEscaped.1]
    rfl
  obtain ⟨digits, rest⟩ := List.append_inj (List.cons.inj same).2 widths
  have code := hexPadded_four_injective leftEscaped.1 rightEscaped.1 digits
  exact ⟨Char.toNat_inj.mp code, rest⟩

/-- Plain names are told apart by their spelling. -/
theorem eq_of_flatMap_spelling {left right : List Char} (leftPlain : PlainChars left)
    (rightPlain : PlainChars right)
    (same : left.flatMap spelling = right.flatMap spelling) : left = right := by
  induction left generalizing right with
  | nil =>
      cases right with
      | nil => rfl
      | cons other others =>
          rw [List.flatMap_nil, List.flatMap_cons] at same
          exact absurd (List.append_eq_nil_iff.mp same.symm).1 (spelling_ne_nil other)
  | cons char chars ih =>
      cases right with
      | nil =>
          rw [List.flatMap_nil, List.flatMap_cons] at same
          exact absurd (List.append_eq_nil_iff.mp same).1 (spelling_ne_nil char)
      | cons other others =>
          obtain ⟨charBasic, charsPlain, _⟩ := plainChars_cons_iff.mp leftPlain
          obtain ⟨otherBasic, othersPlain, _⟩ := plainChars_cons_iff.mp rightPlain
          -- where one side escapes and the other does not, the other would spell out the escape
          cases word : isWordCode char.toNat with
          | true =>
              cases otherWord : isWordCode other.toNat with
              | true =>
                  obtain ⟨rfl, rest⟩ := word_append_inj word otherWord same
                  rw [ih charsPlain othersPlain rest]
              | false =>
                  exact absurd same
                    (not_spelled_of_plain leftPlain word ⟨otherBasic, otherWord⟩)
          | false =>
              cases otherWord : isWordCode other.toNat with
              | true =>
                  exact absurd same.symm
                    (not_spelled_of_plain rightPlain otherWord ⟨charBasic, word⟩)
              | false =>
                  obtain ⟨rfl, rest⟩ :=
                    escape_append_inj ⟨charBasic, word⟩ ⟨otherBasic, otherWord⟩ same
                  rw [ih charsPlain othersPlain rest]

theorem plainChars_cons_of_escaped {char : Char} {chars : List Char} (escaped : IsEscaped char)
    (plain : PlainChars chars) : PlainChars (char :: chars) := by
  refine plainChars_cons_iff.mpr ⟨escaped.1, plain, ?_⟩
  intro other _ spelled
  obtain ⟨others, spelled⟩ := spelled
  have underscore : '_' = char := (List.cons.inj spelled).1
  rw [← underscore] at escaped
  exact absurd escaped.2 (by decide)

theorem flatMap_spelling_of_escapeChars {char : Char} {chars : List Char}
    (escaped : IsEscaped char) (shown : escapeChars char <+: chars) :
    ∃ rest, chars.flatMap spelling = spelling char ++ rest := by
  obtain ⟨others, rfl⟩ := shown
  refine ⟨others.flatMap spelling, ?_⟩
  rw [escapeChars, List.cons_append, List.flatMap_cons, List.flatMap_append,
    flatMap_spelling_charOfByte fun _ member => isWordCode_of_mem_hexPadded member,
    spelling_of_escaped escaped.2]
  rfl

/-- Every text of letters, digits and underscores is the spelling of a plain name. -/
theorem exists_plain_spelling (text : Bytes)
    (words : ∀ byte ∈ text, isWordCode byte.toNat = true) :
    ∃ chars, PlainChars chars ∧ chars.flatMap spelling = text := by
  induction size : text.length using Nat.strongRecOn generalizing text with
  | ind length ih =>
      by_cases leading : ∃ char rest, IsEscaped char ∧ text = spelling char ++ rest
      · -- an escape at the front is read as its character
        obtain ⟨char, rest, escaped, rfl⟩ := leading
        have shorter : rest.length < length := by
          rw [← size, List.length_append, spelling_of_escaped escaped.2, List.length_cons]
          omega
        have remaining : ∀ byte ∈ rest, isWordCode byte.toNat = true :=
          fun byte member => words byte (List.mem_append_right _ member)
        obtain ⟨chars, plain, rfl⟩ := ih rest.length shorter rest remaining rfl
        exact ⟨char :: chars, plainChars_cons_of_escaped escaped plain, rfl⟩
      · -- any other byte is read as itself
        cases text with
        | nil => exact ⟨[], plainChars_nil, rfl⟩
        | cons byte rest =>
            obtain ⟨word, remaining⟩ := List.forall_mem_cons.mp words
            have shorter : rest.length < length := by
              rw [← size, List.length_cons]
              omega
            obtain ⟨chars, plain, rfl⟩ := ih rest.length shorter rest remaining rfl
            have spelled : (charOfByte byte :: chars).flatMap spelling =
                byte :: chars.flatMap spelling := by
              rw [List.flatMap_cons, spelling_charOfByte word]
              rfl
            refine ⟨charOfByte byte :: chars, plainChars_cons_iff.mpr ⟨?_, plain, ?_⟩, spelled⟩
            · have small := lt_of_isWordCode word
              rw [toNat_charOfByte word]
              omega
            · intro other escaped shown
              obtain ⟨rest, same⟩ := flatMap_spelling_of_escapeChars escaped shown
              exact leading ⟨other, rest, escaped, spelled.symm.trans same⟩

/-! ## Names of drawings -/

/-- A well-formed name with plain characters. -/
def PlainName (name : Bytes) : Prop := ∃ chars, name = encodeChars chars ∧ PlainChars chars

theorem PlainName.eq_of_nodeId_eq {left right : Bytes} (leftPlain : PlainName left)
    (rightPlain : PlainName right) (same : nodeId left = nodeId right) : left = right := by
  obtain ⟨chars, rfl, plain⟩ := leftPlain
  obtain ⟨others, rfl, othersPlain⟩ := rightPlain
  rw [nodeId_encodeChars, nodeId_encodeChars] at same
  rw [eq_of_flatMap_spelling plain othersPlain (List.append_cancel_left same)]

theorem exists_plainName {name : Bytes} (wellFormed : isUtf8 name = true) :
    ∃ plain, PlainName plain ∧ nodeId plain = nodeId name := by
  obtain ⟨chars, rfl⟩ := (isUtf8_iff name).mp wellFormed
  have words : ∀ byte ∈ chars.flatMap spelling, isWordCode byte.toNat = true := by
    intro byte member
    obtain ⟨char, _, spelled⟩ := List.mem_flatMap.mp member
    exact isWordCode_of_mem_spelling spelled
  obtain ⟨others, plain, spelled⟩ := exists_plain_spelling _ words
  refine ⟨encodeChars others, ⟨others, rfl, plain⟩, ?_⟩
  rw [nodeId_encodeChars, nodeId_encodeChars, spelled]

/-- No two plain names have one identifier, so that no two classes of a drawing with plain names
become one node. Every other well-formed name has the identifier of a plain name. -/
theorem node_identifiers_tell_plain_names_apart (references : List Reference) (limit : Int) :
    (∀ left right, PlainName left → PlainName right → nodeId left = nodeId right →
      left = right) ∧
    (∀ name, isUtf8 name = true → ¬ PlainName name →
      ∃ other, PlainName other ∧ other ≠ name ∧ nodeId other = nodeId name) ∧
    ((∀ name ∈ drawnClasses references limit, PlainName name) →
      ((drawnClasses references limit).map nodeId).Nodup) := by
  refine ⟨?_, ?_, ?_⟩
  · intro left right leftPlain rightPlain same
    exact leftPlain.eq_of_nodeId_eq rightPlain same
  · intro name wellFormed ambiguous
    obtain ⟨other, plain, same⟩ := exists_plainName wellFormed
    refine ⟨other, plain, ?_, same⟩
    rintro rfl
    exact ambiguous plain
  · intro plain
    refine List.Nodup.map_on ?_ (nodup_drawnClasses references limit)
    intro left leftDrawn right rightDrawn same
    exact (plain left leftDrawn).eq_of_nodeId_eq (plain right rightDrawn) same

theorem nodeId_of_spelled_out_escape :
    isUtf8 "a/b" = true ∧ isUtf8 "a_002fb" = true ∧ Bytes.ofString "a/b" ≠ "a_002fb" ∧
      nodeId "a/b" = nodeId "a_002fb" ∧
      drawnClasses [⟨"a/b", "a_002fb", "run", "()V", false⟩] 0 = ["a/b", "a_002fb"] := by
  refine ⟨by decide, by decide, by decide, by decide, ?_⟩
  rw [drawnClasses, rankedClasses_of_call (by decide)]
  rfl

end ClassAudit
