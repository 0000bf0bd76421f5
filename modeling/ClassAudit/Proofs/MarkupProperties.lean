import ClassAudit.Reference.Drawing
import Mathlib.Data.List.Infix

/-!
# Escaped markup

Escaping writes each markup character as its entity and every other byte as it is, although
it goes over the text once for every character. It can be undone, and an escaped text says
nothing to a reader of labels: it neither opens nor closes a bracket.
-/

set_option autoImplicit false

namespace ClassAudit

/-! ## Entities -/

/-- The markup characters, each with its entity. -/
def markupEntities : List (UInt8 × Bytes) :=
  [(0x26, "&amp;"), (0x3C, "&lt;"), (0x3E, "&gt;"), (0x22, "&quot;")]

/-- How a byte is written in markup. -/
def entityOf (byte : UInt8) : Bytes := (markupEntities.lookup byte).getD [byte]

/-- The markup character whose entity a text starts with, and that entity. -/
def leadingEntity? (text : Bytes) : Option (UInt8 × Bytes) :=
  markupEntities.find? fun entry => entry.2.isPrefixOf text

/-- Replaces entities by their characters in one pass from left to right. -/
def unescapeMarkup : Bytes → Bytes
  | [] => []
  | byte :: rest =>
      match leadingEntity? (byte :: rest) with
      | some (char, entity) => char :: unescapeMarkup (rest.drop (entity.length - 1))
      | none => byte :: unescapeMarkup rest
termination_by text => text.length
decreasing_by all_goals simp only [List.length_drop, List.length_cons]; omega

/-- A byte is a markup character with its entity, or it is written as it is. -/
theorem entityOf_cases (byte : UInt8) :
    (byte, entityOf byte) ∈ markupEntities ∨
      byte ∉ markupEntities.map Prod.fst ∧ entityOf byte = [byte] := by
  cases found : markupEntities.lookup byte with
  | some entity =>
      left
      obtain ⟨before, after, shape, -⟩ := List.lookup_eq_some_iff.mp found
      rw [entityOf, found, shape]
      exact List.mem_append_right before List.mem_cons_self
  | none =>
      right
      rw [entityOf, found]
      refine ⟨?_, rfl⟩
      intro member
      obtain ⟨entry, listed, rfl⟩ := List.mem_map.mp member
      simpa using List.lookup_eq_none_iff.mp found entry listed

/-- The four replacements one after the other, on a single byte. -/
theorem escapeMarkup_singleton (byte : UInt8) : escapeMarkup [byte] = entityOf byte := by
  rcases entityOf_cases byte with listed | ⟨plain, same⟩
  · -- No replacement after the first that applies finds anything to replace in its entity.
    have closed : markupEntities.all fun entry => escapeMarkup [entry.1] == entry.2 := by
      decide
    have written := List.all_eq_true.mp closed _ listed
    exact eq_of_beq written
  · simp only [markupEntities, List.map_cons, List.map_nil, List.mem_cons, List.not_mem_nil,
      or_false, not_or] at plain
    obtain ⟨ampersand, less, greater, quote⟩ := plain
    rw [same]
    simp [escapeMarkup, Bytes.replaceByte, ampersand, less, greater, quote]

theorem Bytes.replaceByte_append (left right : Bytes) (old : UInt8) (new : Bytes) :
    (left ++ right).replaceByte old new =
      left.replaceByte old new ++ right.replaceByte old new :=
  List.flatMap_append

theorem escapeMarkup_append (left right : Bytes) :
    escapeMarkup (left ++ right) = escapeMarkup left ++ escapeMarkup right := by
  simp only [escapeMarkup, Bytes.replaceByte_append]

theorem escapeMarkup_eq_flatMap (text : Bytes) : escapeMarkup text = text.flatMap entityOf := by
  induction text with
  | nil => rfl
  | cons byte rest ih =>
      rw [← List.singleton_append, escapeMarkup_append, escapeMarkup_singleton, ih,
        List.flatMap_append, List.flatMap_singleton]

theorem escapeMarkup_cons (byte : UInt8) (rest : Bytes) :
    escapeMarkup (byte :: rest) = entityOf byte ++ escapeMarkup rest := by
  rw [← List.singleton_append, escapeMarkup_append, escapeMarkup_singleton]

/-! ## What an escaped text holds -/

theorem notMem_entityOf {mark : UInt8} (marks : mark = 0x3C ∨ mark = 0x3E ∨ mark = 0x22)
    (byte : UInt8) : mark ∉ entityOf byte := by
  rcases entityOf_cases byte with listed | ⟨plain, same⟩
  · have closed : markupEntities.all fun entry =>
        !entry.2.contains 0x3C && !entry.2.contains 0x3E && !entry.2.contains 0x22 := by
      decide
    have free := List.all_eq_true.mp closed _ listed
    simp only [Bool.and_eq_true, Bool.not_eq_true', List.contains_eq_mem,
      decide_eq_false_iff_not] at free
    rcases marks with rfl | rfl | rfl
    · exact free.1.1
    · exact free.1.2
    · exact free.2
  · rw [same, List.mem_singleton]
    rintro rfl
    apply plain
    rcases marks with rfl | rfl | rfl <;> decide

theorem notMem_escapeMarkup {mark : UInt8} (marks : mark = 0x3C ∨ mark = 0x3E ∨ mark = 0x22)
    (text : Bytes) : mark ∉ escapeMarkup text := by
  rw [escapeMarkup_eq_flatMap]
  intro member
  obtain ⟨byte, -, written⟩ := List.mem_flatMap.mp member
  exact notMem_entityOf marks byte written

theorem entity_shape {entry : UInt8 × Bytes} (listed : entry ∈ markupEntities) :
    ∃ name, entry.2 = 0x26 :: name ∧ 0x26 ∉ name := by
  have closed : markupEntities.all fun entry =>
      entry.2.head? == some 0x26 && !entry.2.tail.contains 0x26 := by
    decide
  have shape := List.all_eq_true.mp closed _ listed
  simp only [Bool.and_eq_true, beq_iff_eq, Bool.not_eq_true', List.contains_eq_mem,
    decide_eq_false_iff_not] at shape
  exact ⟨entry.2.tail, (List.cons_head?_tail shape.1).symm, shape.2⟩

theorem entity_of_ampersand {text before after : Bytes}
    (found : escapeMarkup text = before ++ 0x26 :: after) :
    ∃ entry ∈ markupEntities, entry.2 <+: 0x26 :: after := by
  induction text generalizing before with
  | nil => simp [escapeMarkup, Bytes.replaceByte] at found
  | cons byte rest ih =>
      rw [escapeMarkup_cons] at found
      -- The ampersand stands in the form of the first byte or behind it.
      rcases List.append_eq_append_iff.mp found with ⟨between, -, behind⟩ | ⟨between, here, whole⟩
      · exact ih behind
      · cases between with
        | nil => exact ih (show _ = [] ++ 0x26 :: after from whole.symm)
        | cons first between =>
            obtain ⟨rfl, rfl⟩ := List.cons.inj whole
            rcases entityOf_cases byte with listed | ⟨plain, same⟩
            · obtain ⟨name, shape, free⟩ := entity_shape listed
              change entityOf byte = 0x26 :: name at shape
              cases before with
              | nil => exact ⟨_, listed, here ▸ List.prefix_append _ _⟩
              | cons start before =>
                  rw [here] at shape
                  obtain ⟨-, inside⟩ := List.cons.inj shape
                  exact absurd (inside ▸ List.mem_append_right before List.mem_cons_self) free
            · -- A byte that is written as it is would be the ampersand, which has an entity.
              have member : (0x26 : UInt8) ∈ [byte] := by
                rw [← same, here]
                exact List.mem_append_right before List.mem_cons_self
              rw [← List.mem_singleton.mp member] at plain
              exact absurd (by decide) plain

/-! ## Undoing -/

theorem leadingEntity?_entity {entry : UInt8 × Bytes} (listed : entry ∈ markupEntities)
    (rest : Bytes) : leadingEntity? (entry.2 ++ rest) = some entry := by
  -- The letter behind the ampersand tells the entities apart.
  simp only [markupEntities, List.mem_cons, List.not_mem_nil, or_false] at listed
  rcases listed with rfl | rfl | rfl | rfl <;> rfl

theorem leadingEntity?_plain {byte : UInt8} (plain : byte ≠ 0x26) (rest : Bytes) :
    leadingEntity? (byte :: rest) = none := by
  refine List.find?_eq_none.mpr ?_
  intro entry listed
  obtain ⟨name, shape, -⟩ := entity_shape listed
  simp [shape, List.isPrefixOf, Ne.symm plain]

theorem unescapeMarkup_entity {entry : UInt8 × Bytes} (listed : entry ∈ markupEntities)
    (rest : Bytes) : unescapeMarkup (entry.2 ++ rest) = entry.1 :: unescapeMarkup rest := by
  have leading := leadingEntity?_entity listed rest
  obtain ⟨name, shape, -⟩ := entity_shape listed
  rw [shape, List.cons_append] at leading ⊢
  rw [unescapeMarkup, leading]
  simp [shape]

theorem unescapeMarkup_plain {byte : UInt8} (plain : byte ≠ 0x26) (rest : Bytes) :
    unescapeMarkup (byte :: rest) = byte :: unescapeMarkup rest := by
  rw [unescapeMarkup, leadingEntity?_plain plain]

theorem unescapeMarkup_escapeMarkup (text : Bytes) :
    unescapeMarkup (escapeMarkup text) = text := by
  induction text with
  | nil =>
      rw [show escapeMarkup [] = [] from rfl, unescapeMarkup]
  | cons byte rest ih =>
      rw [escapeMarkup_cons]
      rcases entityOf_cases byte with listed | ⟨plain, same⟩
      · rw [unescapeMarkup_entity listed, ih]
      · have other : byte ≠ 0x26 := by
          rintro rfl
          exact plain (by decide)
        rw [same, List.singleton_append, unescapeMarkup_plain other, ih]

/-! ## Labels -/

/-- Reads a label from behind its opening bracket, inside `depth` brackets more: the label up to
the bracket that closes it, and what stands behind that. -/
def readLabel? : Nat → Bytes → Option (Bytes × Bytes)
  | _, [] => none
  | depth, byte :: rest =>
      if byte = 0x3C then
        (readLabel? (depth + 1) rest).map fun (label, behind) => (byte :: label, behind)
      else if byte = 0x3E then
        if depth = 0 then some ([], rest)
        else (readLabel? (depth - 1) rest).map fun (label, behind) => (byte :: label, behind)
      else (readLabel? depth rest).map fun (label, behind) => (byte :: label, behind)

/-- A text holds a label: read from its opening bracket, whatever comes after the text, the label
ends at the bracket that stands behind it. -/
def HoldsLabel (text label : Bytes) : Prop :=
  ∃ opening behind, text = opening ++ "label=<" ++ label ++ ">" ++ behind ∧
    ∀ rest, readLabel? 0 (label ++ ">" ++ behind ++ rest) = some (label, behind ++ rest)

theorem readLabel?_plain {plain : Bytes} (less : 0x3C ∉ plain) (greater : 0x3E ∉ plain)
    (depth : Nat) (rest : Bytes) :
    readLabel? depth (plain ++ rest) =
      (readLabel? depth rest).map fun found => (plain ++ found.1, found.2) := by
  induction plain with
  | nil => simp
  | cons byte plain ih =>
      rw [List.mem_cons, not_or] at less greater
      rw [List.cons_append, readLabel?, if_neg (Ne.symm less.1), if_neg (Ne.symm greater.1),
        ih less.2 greater.2, Option.map_map]
      rfl

theorem readLabel?_escapeMarkup (text : Bytes) (depth : Nat) (rest : Bytes) :
    readLabel? depth (escapeMarkup text ++ rest) =
      (readLabel? depth rest).map fun found => (escapeMarkup text ++ found.1, found.2) :=
  readLabel?_plain (notMem_escapeMarkup (.inl rfl) text)
    (notMem_escapeMarkup (.inr (.inl rfl)) text) depth rest

/-- The label of a text in a font: a tag without brackets inside, and the text. -/
def fontLabel (attributes text : Bytes) : Bytes :=
  "<font " ++ attributes ++ ">" ++ escapeMarkup text ++ "</font>"

theorem readLabel?_fontLabel {attributes : Bytes} (less : 0x3C ∉ attributes)
    (greater : 0x3E ∉ attributes) (text behind : Bytes) :
    readLabel? 0 (fontLabel attributes text ++ ">" ++ behind) =
      some (fontLabel attributes text, behind) := by
  have closing : readLabel? 0 ("</font>" ++ (">" ++ behind) : Bytes) =
      some (Bytes.ofString "</font>", behind) := rfl
  have tag : readLabel? 1 (">" ++ (escapeMarkup text ++ ("</font>" ++ (">" ++ behind))) : Bytes) =
      some (">" ++ (escapeMarkup text ++ "</font>"), behind) := by
    change (readLabel? 0 (escapeMarkup text ++ ("</font>" ++ (">" ++ behind)))).map _ = _
    rw [readLabel?_escapeMarkup, closing]
    rfl
  have inside : readLabel? 1 ("font " ++ attributes ++
      (">" ++ (escapeMarkup text ++ ("</font>" ++ (">" ++ behind)))) : Bytes) =
      some ("font " ++ attributes ++ (">" ++ (escapeMarkup text ++ "</font>")), behind) := by
    rw [readLabel?_plain, tag]
    · rfl
    · rw [List.mem_append, not_or]
      exact ⟨by decide, less⟩
    · rw [List.mem_append, not_or]
      exact ⟨by decide, greater⟩
  have bracket : ("<font " : Bytes) = 0x3C :: Bytes.ofString "font " := rfl
  simp only [List.append_assoc] at inside
  simp only [fontLabel, bracket, List.append_assoc, List.cons_append]
  rw [readLabel?, if_pos rfl, inside]
  rfl

theorem classNodeLine_holdsLabel (theme : Theme) (input : Bytes → Bool) (name : Bytes) :
    HoldsLabel (classNodeLine theme input name)
      (fontLabel "point-size=\"10\"" (dottedName name)) := by
  obtain ⟨style, shape⟩ : ∃ style : Bytes, classNodeLine theme input name =
      "  " ++ nodeId name ++ " [label=<<font point-size=\"10\">" ++
        escapeMarkup (dottedName name) ++ "</font>>" ++ style ++ "];\n" := ⟨_, rfl⟩
  refine ⟨("  " ++ nodeId name ++ " [" : Bytes), (style ++ "];\n" : Bytes), ?_, ?_⟩
  · simp only [shape, fontLabel, List.append_assoc]
    rfl
  · intro rest
    rw [List.append_assoc _ _ rest]
    exact readLabel?_fontLabel (by decide) (by decide) (dottedName name) _

/-- The attributes of the font that a title is shown in. -/
def titleFont (colour : Bytes) : Bytes :=
  "face=\"Helvetica Neue,Helvetica\" point-size=\"8\" color=\"" ++ colour ++ "\""

theorem titleLines_holdsLabel {colour title : Bytes} (less : 0x3C ∉ colour)
    (greater : 0x3E ∉ colour) (shown : title ≠ []) :
    HoldsLabel (titleLines colour title) (fontLabel (titleFont colour) title) := by
  refine ⟨"  labelloc=t;\n  labeljust=l;\n  ", ";\n", ?_, ?_⟩
  · simp only [titleLines, if_neg shown, fontLabel, titleFont, List.append_assoc]
    rfl
  · intro rest
    rw [List.append_assoc _ _ rest]
    refine readLabel?_fontLabel ?_ ?_ title _
    · simp only [titleFont, List.mem_append, not_or]
      exact ⟨⟨by decide, less⟩, by decide⟩
    · simp only [titleFont, List.mem_append, not_or]
      exact ⟨⟨by decide, greater⟩, by decide⟩

/-- Escaping loses nothing. The four replacements are one pass that writes each markup character
as its entity; nothing of the result is a bracket or a quote, and every ampersand starts an
entity; one pass over the result gives the text back. Whatever a title or the name of a class
holds, the label around it ends at its own bracket. -/
theorem escapeMarkup_lossless (text : Bytes) :
    escapeMarkup text = text.flatMap entityOf ∧
    (0x3C ∉ escapeMarkup text ∧ 0x3E ∉ escapeMarkup text ∧ 0x22 ∉ escapeMarkup text) ∧
    (∀ before after, escapeMarkup text = before ++ 0x26 :: after →
      ∃ entry ∈ markupEntities, entry.2 <+: 0x26 :: after) ∧
    unescapeMarkup (escapeMarkup text) = text ∧
    Function.Injective escapeMarkup ∧
    (∀ depth rest, readLabel? depth (escapeMarkup text ++ rest) =
      (readLabel? depth rest).map fun found => (escapeMarkup text ++ found.1, found.2)) ∧
    (∀ colour, 0x3C ∉ colour → 0x3E ∉ colour → text ≠ [] →
      HoldsLabel (titleLines colour text) (fontLabel (titleFont colour) text)) ∧
    ∀ theme input, HoldsLabel (classNodeLine theme input text)
      (fontLabel "point-size=\"10\"" (dottedName text)) := by
  refine ⟨escapeMarkup_eq_flatMap text, ⟨?_, ?_, ?_⟩, fun _ _ => entity_of_ampersand,
    unescapeMarkup_escapeMarkup text, ?_, readLabel?_escapeMarkup text, ?_, ?_⟩
  · exact notMem_escapeMarkup (.inl rfl) text
  · exact notMem_escapeMarkup (.inr (.inl rfl)) text
  · exact notMem_escapeMarkup (.inr (.inr rfl)) text
  · exact Function.LeftInverse.injective unescapeMarkup_escapeMarkup
  · intro colour less greater shown
    exact titleLines_holdsLabel less greater shown
  · intro theme input
    exact classNodeLine_holdsLabel theme input text

/-- A text that closes a label, holds an entity already, and would open a new statement. -/
def closingText : Bytes := "&lt;</font>>]; x [label=\"&"

theorem escapeMarkup_lossless_closing :
    escapeMarkup closingText = "&amp;lt;&lt;/font&gt;&gt;]; x [label=&quot;&amp;" ∧
      unescapeMarkup (escapeMarkup closingText) = closingText ∧
      (∃ entry ∈ markupEntities, entry.2 <+: escapeMarkup closingText) ∧
      HoldsLabel (titleLines "#1A1A1A" closingText)
        (fontLabel (titleFont "#1A1A1A") closingText) := by
  obtain ⟨-, -, ampersands, undone, -, -, titles, -⟩ := escapeMarkup_lossless closingText
  have written :
      escapeMarkup closingText = "&amp;lt;&lt;/font&gt;&gt;]; x [label=&quot;&amp;" := by
    decide
  refine ⟨written, undone, ?_, titles "#1A1A1A" (by decide) (by decide) (by decide)⟩
  rw [written]
  exact ampersands [] _ written

end ClassAudit
