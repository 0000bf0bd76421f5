import ClassAudit.Rule.BinaryName
import Mathlib.Data.List.Basic

/-!
# Properties of names that join two actions

The search for joined words is given twice more: as a decomposition of the name, and as a pattern
with alternatives, repetitions and an anchor. All three agree on every name.
-/

set_option autoImplicit false

namespace ClassAudit

/-! ## Decompositions -/

/-- The words that join two actions as words of their own. -/
def joiningWords : List (List Char) := [['a', 'n', 'd'], ['o', 'r'], ['A', 'N', 'D'], ['O', 'R']]

/-- The words that join two actions in camel case. -/
def camelWords : List (List Char) := [['A', 'n', 'd'], ['O', 'r']]

/-- A joining word, an upper-case letter or an underscore, and one more character of the line. -/
def OpensJoin (text : List Char) : Prop :=
  ∃ (word : List Char) (mark next : Char) (after : List Char),
    text = word ++ mark :: next :: after ∧ word ∈ joiningWords ∧
      ('A' ≤ mark ∧ mark ≤ 'Z' ∨ mark = '_') ∧ next ≠ '\n'

/-- A lower-case letter, a capitalized joining word and an upper-case letter. -/
def OpensCamelJoin (text : List Char) : Prop :=
  ∃ (first : Char) (word : List Char) (last : Char) (after : List Char),
    text = first :: (word ++ last :: after) ∧ ('a' ≤ first ∧ first ≤ 'z') ∧
      word ∈ camelWords ∧ 'A' ≤ last ∧ last ≤ 'Z'

theorem isUpper_iff (char : Char) : char.isUpper = true ↔ 'A' ≤ char ∧ char ≤ 'Z' :=
  decide_eq_true_iff

theorem isLower_iff (char : Char) : char.isLower = true ↔ 'a' ≤ char ∧ char ≤ 'z' :=
  Bool.and_eq_true_iff.trans (and_congr decide_eq_true_iff decide_eq_true_iff)

theorem afterJoiningWord?_eq_some_iff {text rest : List Char} :
    afterJoiningWord? text = some rest ↔ ∃ word ∈ joiningWords, text = word ++ rest := by
  constructor
  · intro found
    unfold afterJoiningWord? at found
    split at found
    · cases found
      exact ⟨['a', 'n', 'd'], by decide, rfl⟩
    · cases found
      exact ⟨['o', 'r'], by decide, rfl⟩
    · cases found
      exact ⟨['A', 'N', 'D'], by decide, rfl⟩
    · cases found
      exact ⟨['O', 'R'], by decide, rfl⟩
    · cases found
  · intro found
    obtain ⟨word, listed, rfl⟩ := found
    simp only [joiningWords, List.mem_cons, List.not_mem_nil, or_false] at listed
    rcases listed with rfl | rfl | rfl | rfl <;> rfl

theorem startsWithJoin_iff {text : List Char} : startsWithJoin text = true ↔ OpensJoin text := by
  constructor
  · intro joined
    unfold startsWithJoin at joined
    split at joined
    · rename_i mark next after found
      obtain ⟨word, listed, shape⟩ := afterJoiningWord?_eq_some_iff.mp found
      simp only [Bool.and_eq_true, Bool.or_eq_true, isUpper_iff, beq_iff_eq, bne_iff_ne] at joined
      exact ⟨word, mark, next, after, shape, listed, joined⟩
    · cases joined
  · intro joined
    obtain ⟨word, mark, next, after, shape, listed, marked, sameLine⟩ := joined
    rw [startsWithJoin, afterJoiningWord?_eq_some_iff.mpr ⟨word, listed, shape⟩]
    simp only [Bool.and_eq_true, Bool.or_eq_true, isUpper_iff, beq_iff_eq, bne_iff_ne]
    exact ⟨marked, sameLine⟩

theorem startsWithCamelJoin_iff {text : List Char} :
    startsWithCamelJoin text = true ↔ OpensCamelJoin text := by
  constructor
  · intro joined
    unfold startsWithCamelJoin at joined
    split at joined
    · rename_i first last after
      simp only [Bool.and_eq_true, isLower_iff, isUpper_iff] at joined
      exact ⟨first, ['A', 'n', 'd'], last, after, rfl, joined.1, by decide, joined.2⟩
    · rename_i first last after
      simp only [Bool.and_eq_true, isLower_iff, isUpper_iff] at joined
      exact ⟨first, ['O', 'r'], last, after, rfl, joined.1, by decide, joined.2⟩
    · cases joined
  · intro joined
    obtain ⟨first, word, last, after, rfl, lower, listed, upper⟩ := joined
    have letters : (first.isLower && last.isUpper) = true := by
      rw [Bool.and_eq_true, isLower_iff, isUpper_iff]
      exact ⟨lower, upper⟩
    simp only [camelWords, List.mem_cons, List.not_mem_nil, or_false] at listed
    rcases listed with rfl | rfl <;> exact letters

/-! ## Searches -/

/-- What may stand before a joined word: text of one line that ends in an underscore, or nothing
where a word may start right away. -/
def EndsAtBoundary (boundary : Bool) (before : List Char) : Prop :=
  '\n' ∉ before ∧ (before = [] ∧ boundary = true ∨ before.getLast? = some '_')

theorem endsAtBoundary_nil {boundary : Bool} : EndsAtBoundary boundary [] ↔ boundary = true := by
  simp [EndsAtBoundary]

theorem endsAtBoundary_cons {boundary : Bool} {char : Char} {before : List Char} :
    EndsAtBoundary boundary (char :: before) ↔
      char ≠ '\n' ∧ EndsAtBoundary (char == '_') before := by
  cases before with
  | nil => simp [EndsAtBoundary, eq_comm (b := char)]
  | cons next before =>
      simp [EndsAtBoundary, List.getLast?_cons_cons, and_assoc, eq_comm (b := char)]

theorem endsAtBoundary_true_iff {before : List Char} :
    EndsAtBoundary true before ↔
      before = [] ∨ '\n' ∉ before ∧ before.getLast? = some '_' := by
  cases before with
  | nil => simp [EndsAtBoundary]
  | cons char before => simp [EndsAtBoundary]

/-- The search goes on behind a character of the line, and remembers only whether a word may
start there. -/
theorem hasWordJoin_iff {boundary : Bool} {text : List Char} :
    hasWordJoin boundary text = true ↔
      ∃ before rest, text = before ++ rest ∧ EndsAtBoundary boundary before ∧ OpensJoin rest := by
  induction text generalizing boundary with
  | nil =>
      refine ⟨nofun, ?_⟩
      intro found
      obtain ⟨before, rest, shape, -, word, mark, next, after, rfl, -⟩ := found
      simp at shape
  | cons char text ih =>
      simp only [hasWordJoin, Bool.or_eq_true, Bool.and_eq_true, startsWithJoin_iff, bne_iff_ne, ih]
      constructor
      · intro found
        rcases found with ⟨free, joined⟩ | ⟨sameLine, before, rest, rfl, ended, joined⟩
        · exact ⟨[], char :: text, rfl, endsAtBoundary_nil.mpr free, joined⟩
        · exact ⟨char :: before, rest, rfl, endsAtBoundary_cons.mpr ⟨sameLine, ended⟩, joined⟩
      · intro found
        obtain ⟨before, rest, shape, ended, joined⟩ := found
        cases before with
        | nil =>
            cases shape
            exact .inl ⟨endsAtBoundary_nil.mp ended, joined⟩
        | cons first before =>
            cases shape
            obtain ⟨sameLine, ended⟩ := endsAtBoundary_cons.mp ended
            exact .inr ⟨sameLine, before, rest, rfl, ended, joined⟩

theorem hasCamelJoin_iff {text : List Char} :
    hasCamelJoin text = true ↔ ∃ before rest, text = before ++ rest ∧ OpensCamelJoin rest := by
  induction text with
  | nil =>
      refine ⟨nofun, ?_⟩
      intro found
      obtain ⟨before, rest, shape, first, word, last, after, rfl, -⟩ := found
      simp at shape
  | cons char text ih =>
      simp only [hasCamelJoin, Bool.or_eq_true, startsWithCamelJoin_iff, ih]
      constructor
      · intro found
        rcases found with joined | ⟨before, rest, rfl, joined⟩
        · exact ⟨[], char :: text, rfl, joined⟩
        · exact ⟨char :: before, rest, rfl, joined⟩
      · intro found
        obtain ⟨before, rest, shape, joined⟩ := found
        cases before with
        | nil =>
            cases shape
            exact .inl joined
        | cons first before =>
            cases shape
            exact .inr ⟨before, rest, rfl, joined⟩

/-! ## Patterns -/

/-- A pattern of characters. `start` holds only where the text begins. -/
inductive Pattern where
  | start
  | one (test : Char → Bool)
  | word (chars : List Char)
  | either (left right : Pattern)
  | inOrder (first second : Pattern)
  | repeated (inner : Pattern)

/-- Any number of matches in a row, each judged by what stands before it. -/
inductive Repeats (holds : List Char → List Char → Prop) : List Char → List Char → Prop
  | done {before : List Char} : Repeats holds before []
  | more {before first rest : List Char} (matched : holds before first)
      (others : Repeats holds (before ++ first) rest) : Repeats holds before (first ++ rest)

/-- Whether a piece of text matches a pattern, behind the text before it. -/
def Pattern.Matches : Pattern → List Char → List Char → Prop
  | .start, before, piece => before = [] ∧ piece = []
  | .one test, _, piece => ∃ char, test char = true ∧ piece = [char]
  | .word chars, _, piece => piece = chars
  | .either left right, before, piece => left.Matches before piece ∨ right.Matches before piece
  | .inOrder first second, before, piece => ∃ head tail, piece = head ++ tail ∧
      first.Matches before head ∧ second.Matches (before ++ head) tail
  | .repeated inner, before, piece => Repeats inner.Matches before piece

/-- Some piece of the text matches. -/
def Pattern.FoundIn (pattern : Pattern) (text : List Char) : Prop :=
  ∃ before piece after, text = before ++ (piece ++ after) ∧ pattern.Matches before piece

namespace Pattern

/-- Any character but the end of a line. -/
def inLine : Pattern := .one (· != '\n')

/-- Nothing or one underscore, or a line up to an underscore. -/
def lead : Pattern :=
  .either (.either (.word []) (.word ['_'])) (.inOrder (.repeated inLine) (.word ['_']))

/-- A joining word with what sets it off. -/
def join : Pattern :=
  .inOrder (.either (.word ['a', 'n', 'd']) <| .either (.word ['o', 'r']) <|
    .either (.word ['A', 'N', 'D']) (.word ['O', 'R'])) <|
  .inOrder (.either (.one Char.isUpper) (.word ['_'])) <|
  .inOrder inLine (.repeated inLine)

/-- A joining word of its own, behind the start of the text. -/
def wordJoin : Pattern := .inOrder .start (.inOrder lead join)

/-- A joining word in camel case. -/
def camelJoin : Pattern :=
  .inOrder (.one Char.isLower) <|
    .inOrder (.either (.word ['A', 'n', 'd']) (.word ['O', 'r'])) (.one Char.isUpper)

/-- The two ways in which a name joins actions. -/
def binaryName : Pattern := .either wordJoin camelJoin

theorem either_foundIn_iff {left right : Pattern} {text : List Char} :
    (Pattern.either left right).FoundIn text ↔ left.FoundIn text ∨ right.FoundIn text := by
  simp only [FoundIn, Matches, and_or_left, exists_or]

theorem inLine_matches_iff {before piece : List Char} :
    inLine.Matches before piece ↔ ∃ char, char ≠ '\n' ∧ piece = [char] := by
  simp only [inLine, Matches, bne_iff_ne]

theorem repeated_inLine_matches_iff {before piece : List Char} :
    (Pattern.repeated inLine).Matches before piece ↔ '\n' ∉ piece := by
  constructor
  · intro matched
    induction matched with
    | done => exact List.not_mem_nil
    | more first others ih =>
        obtain ⟨char, sameLine, rfl⟩ := inLine_matches_iff.mp first
        simpa using ⟨sameLine.symm, ih⟩
  · intro sameLine
    induction piece generalizing before with
    | nil => exact .done
    | cons char piece ih =>
        rw [List.mem_cons, not_or] at sameLine
        exact .more (inLine_matches_iff.mpr ⟨char, Ne.symm sameLine.1, rfl⟩) (ih sameLine.2)

theorem lead_matches_iff {before piece : List Char} :
    lead.Matches before piece ↔ piece = [] ∨ '\n' ∉ piece ∧ piece.getLast? = some '_' := by
  constructor
  · intro matched
    rcases matched with (rfl | rfl) | ⟨line, mark, rfl, repeated, rfl⟩
    · exact .inl rfl
    · exact .inr (by decide)
    · have sameLine := repeated_inLine_matches_iff.mp repeated
      exact .inr ⟨by simpa using sameLine, List.getLast?_concat⟩
  · intro given
    rcases given with rfl | ⟨sameLine, ended⟩
    · exact .inl (.inl rfl)
    · obtain ⟨line, rfl⟩ := List.getLast?_eq_some_iff.mp ended
      refine .inr ⟨line, ['_'], rfl, repeated_inLine_matches_iff.mpr ?_, rfl⟩
      exact fun member => sameLine (List.mem_append_left _ member)

/-- What follows the first character behind the mark does not matter. -/
theorem join_matches_iff {before text : List Char} :
    (∃ piece after, text = piece ++ after ∧ join.Matches before piece) ↔ OpensJoin text := by
  constructor
  · intro found
    obtain ⟨_, after, rfl, word, _, rfl, listed, _, _, rfl, marked, _, more, rfl, line, -⟩ := found
    obtain ⟨next, sameLine, rfl⟩ := inLine_matches_iff.mp line
    have listed : word ∈ joiningWords := by simpa [joiningWords, Matches] using listed
    rcases marked with ⟨mark, upper, rfl⟩ | rfl
    · exact ⟨word, mark, next, more ++ after, by simp, listed, .inl ((isUpper_iff mark).mp upper),
        sameLine⟩
    · exact ⟨word, '_', next, more ++ after, by simp, listed, .inr rfl, sameLine⟩
  · intro joined
    obtain ⟨word, mark, next, after, rfl, listed, marked, sameLine⟩ := joined
    refine ⟨word ++ ([mark] ++ ([next] ++ [])), after, by simp, word, _, rfl, ?_,
      [mark], _, rfl, ?_, [next], [], rfl, inLine_matches_iff.mpr ⟨next, sameLine, rfl⟩, .done⟩
    · simpa [joiningWords, Matches] using listed
    · rcases marked with upper | rfl
      · exact .inl ⟨mark, (isUpper_iff mark).mpr upper, rfl⟩
      · exact .inr rfl

theorem camelJoin_matches_iff {before text : List Char} :
    (∃ piece after, text = piece ++ after ∧ camelJoin.Matches before piece) ↔
      OpensCamelJoin text := by
  constructor
  · intro found
    obtain ⟨_, after, rfl, _, _, rfl, ⟨first, lower, rfl⟩, word, _, rfl, listed, ending⟩ := found
    obtain ⟨last, upper, rfl⟩ := ending
    have listed : word ∈ camelWords := by simpa [camelWords, Matches] using listed
    exact ⟨first, word, last, after, by simp, (isLower_iff first).mp lower, listed,
      (isUpper_iff last).mp upper⟩
  · intro joined
    obtain ⟨first, word, last, after, rfl, lower, listed, upper⟩ := joined
    refine ⟨[first] ++ (word ++ [last]), after, by simp, [first], _, rfl,
      ⟨first, (isLower_iff first).mpr lower, rfl⟩, word, _, rfl, ?_,
      ⟨last, (isUpper_iff last).mpr upper, rfl⟩⟩
    simpa [camelWords, Matches] using listed

end Pattern

/-- A joining word of its own, at the start of a name or behind an underscore of its first
line. -/
def JoinsWords (name : List Char) : Prop :=
  ∃ before rest, name = before ++ rest ∧
    (before = [] ∨ '\n' ∉ before ∧ before.getLast? = some '_') ∧ OpensJoin rest

/-- A joining word in camel case, anywhere in a name. -/
def JoinsCamelCase (name : List Char) : Prop :=
  ∃ before rest, name = before ++ rest ∧ OpensCamelJoin rest

theorem Pattern.wordJoin_foundIn_iff {text : List Char} :
    Pattern.wordJoin.FoundIn text ↔ JoinsWords text := by
  constructor
  · intro found
    obtain ⟨_, _, after, rfl, _, _, rfl, ⟨rfl, rfl⟩, before, piece, rfl, led, joined⟩ := found
    exact ⟨before, piece ++ after, by simp, lead_matches_iff.mp led,
      join_matches_iff.mp ⟨piece, after, rfl, joined⟩⟩
  · intro joins
    obtain ⟨before, rest, rfl, led, joined⟩ := joins
    obtain ⟨piece, after, rfl, matched⟩ := join_matches_iff.mpr joined
    exact ⟨[], [] ++ (before ++ piece), after, by simp, [], _, rfl, ⟨rfl, rfl⟩, before, piece, rfl,
      lead_matches_iff.mpr led, matched⟩

theorem Pattern.camelJoin_foundIn_iff {text : List Char} :
    Pattern.camelJoin.FoundIn text ↔ JoinsCamelCase text := by
  constructor
  · intro found
    obtain ⟨before, piece, after, rfl, matched⟩ := found
    exact ⟨before, piece ++ after, rfl, camelJoin_matches_iff.mp ⟨piece, after, rfl, matched⟩⟩
  · intro joins
    obtain ⟨before, rest, rfl, joined⟩ := joins
    obtain ⟨piece, after, rfl, matched⟩ := camelJoin_matches_iff.mpr joined
    exact ⟨before, piece, after, rfl, matched⟩

/-- A name joins two actions exactly when its characters fall apart around a joining word, and
exactly when the pattern is found in them. -/
theorem isBinaryName_iff_joins (name : Bytes) :
    (isBinaryName name = true ↔
      JoinsWords ((runes name).map Rune.toChar) ∨ JoinsCamelCase ((runes name).map Rune.toChar)) ∧
    (isBinaryName name = true ↔
      Pattern.binaryName.FoundIn ((runes name).map Rune.toChar)) := by
  have decomposed : isBinaryName name = true ↔
      JoinsWords ((runes name).map Rune.toChar) ∨
        JoinsCamelCase ((runes name).map Rune.toChar) := by
    simp only [isBinaryName, Bool.or_eq_true, hasWordJoin_iff, hasCamelJoin_iff,
      endsAtBoundary_true_iff]
    rfl
  refine ⟨decomposed, decomposed.trans ?_⟩
  rw [Pattern.binaryName, Pattern.either_foundIn_iff, Pattern.wordJoin_foundIn_iff,
    Pattern.camelJoin_foundIn_iff]

end ClassAudit
