import ClassAudit.Proofs.PathProperties
import Mathlib.Data.List.Basic

/-!
# Cleaned paths

A cleaned path consists of steps up followed by names, without steps up if it starts at the root.
Cleaning it again changes nothing, so a path that is continued by names has the parts of the path
and then those names.
-/

set_option autoImplicit false

namespace ClassAudit

theorem Bytes.splitOn_append_separator (separator : UInt8) (left right : Bytes) :
    Bytes.splitOn separator (left ++ separator :: right) =
      Bytes.splitOn separator left ++ Bytes.splitOn separator right := by
  induction left with
  | nil => exact Bytes.splitOn_append List.not_mem_nil right
  | cons byte left ih =>
      simp only [Bytes.splitOn, List.cons_append, List.cons.injEq] at ih
      by_cases same : byte = separator
      · simp only [Bytes.splitOn, List.cons_append, List.foldr_cons, if_pos same, ih.1, ih.2]
      · simp only [Bytes.splitOn, List.cons_append, List.foldr_cons, if_neg same, ih.1, ih.2]

namespace Path

/-! ## The form of cleaned paths -/

/-- The parts that cleaning keeps, last first: names behind steps up, and no step up from the
root. -/
def Kept (absolute : Bool) (kept : List Bytes) : Prop :=
  ∃ names ups, kept = names ++ List.replicate ups above ∧ (∀ name ∈ names, IsName name) ∧
    (absolute = true → ups = 0)

theorem kept_cleanStep {absolute : Bool} {kept : List Bytes} (form : Kept absolute kept)
    {part : Bytes} (free : slash ∉ part) : Kept absolute (cleanStep absolute kept part) := by
  unfold cleanStep
  split
  · exact form
  · next counts =>
      simp only [Bool.or_eq_true, decide_eq_true_eq, not_or] at counts
      obtain ⟨names, ups, rfl, named, rooted⟩ := form
      split
      · cases names with
        | nil =>
            cases ups with
            | zero =>
                cases absolute with
                | true => exact ⟨[], 0, rfl, List.forall_mem_nil _, fun _ => rfl⟩
                | false => exact ⟨[], 1, rfl, List.forall_mem_nil _, nofun⟩
            | succ ups =>
                refine ⟨[], ups + 2, rfl, List.forall_mem_nil _, ?_⟩
                intro isAbsolute
                cases rooted isAbsolute
        | cons name names =>
            obtain ⟨first, others⟩ := List.forall_mem_cons.mp named
            refine ⟨names, ups, ?_, others, rooted⟩
            simp only [List.cons_append, if_neg first.notAbove]
      · next notAbove =>
          have name : IsName part := ⟨counts.1, counts.2, notAbove, free⟩
          exact ⟨part :: names, ups, rfl, List.forall_mem_cons.mpr ⟨name, named⟩, rooted⟩

theorem kept_foldl_cleanStep {absolute : Bool} {parts kept : List Bytes}
    (form : Kept absolute kept) (free : ∀ part ∈ parts, slash ∉ part) :
    Kept absolute (parts.foldl (cleanStep absolute) kept) := by
  induction parts generalizing kept with
  | nil => exact form
  | cons part parts ih =>
      obtain ⟨first, others⟩ := List.forall_mem_cons.mp free
      exact ih (kept_cleanStep form first) others

theorem kept_cleanParts (path : Bytes) : Kept (isAbsolute path) (cleanParts path).reverse := by
  rw [cleanParts, List.reverse_reverse]
  apply kept_foldl_cleanStep ⟨[], 0, rfl, List.forall_mem_nil _, fun _ => rfl⟩
  intro part member
  exact Bytes.not_mem_of_mem_splitOn member

theorem Kept.text {absolute : Bool} {kept : List Bytes} (form : Kept absolute kept) :
    ∀ part ∈ kept, part ≠ [] ∧ slash ∉ part := by
  obtain ⟨names, ups, rfl, named, -⟩ := form
  refine List.forall_mem_append.mpr ⟨?_, ?_⟩
  · intro part member
    exact ⟨(named part member).nonempty, (named part member).noSlash⟩
  · intro part member
    rw [List.eq_of_mem_replicate member]
    decide

/-! ## Cleaning twice -/

theorem foldl_cleanStep_above (ups : Nat) :
    (List.replicate ups above).foldl (cleanStep false) [] = List.replicate ups above := by
  induction ups with
  | zero => rfl
  | succ ups ih =>
      rw [List.replicate_succ', List.foldl_append, ih, ← List.replicate_succ']
      cases ups with
      | zero => rfl
      | succ ups => rfl

theorem Kept.foldl_cleanStep {absolute : Bool} {kept : List Bytes} (form : Kept absolute kept) :
    kept.reverse.foldl (cleanStep absolute) [] = kept := by
  obtain ⟨names, ups, rfl, named, rooted⟩ := form
  have fromAbove : (List.replicate ups above).foldl (cleanStep absolute) [] =
      List.replicate ups above := by
    cases absolute with
    | true =>
        rw [rooted rfl]
        rfl
    | false => exact foldl_cleanStep_above ups
  have reversed : ∀ name ∈ names.reverse, IsName name :=
    fun name member => named name (List.mem_reverse.mp member)
  rw [List.reverse_append, List.reverse_replicate, List.foldl_append, fromAbove,
    foldl_cleanStep_names reversed, List.reverse_reverse]

theorem clean_of_relative {path : Bytes} (relative : isAbsolute path = false)
    (moves : cleanParts path ≠ []) : clean path = Bytes.joinWith [slash] (cleanParts path) := by
  have nonempty : ¬ (cleanParts path).isEmpty = true := mt List.isEmpty_iff.mp moves
  simp only [clean, relative, Bool.false_eq_true, if_false, if_neg nonempty]

theorem clean_of_unmoved {path : Bytes} (relative : isAbsolute path = false)
    (unmoved : cleanParts path = []) : clean path = here := by
  simp only [clean, relative, Bool.false_eq_true, if_false, unmoved, List.isEmpty_nil, if_true]

theorem clean_of_absolute {path : Bytes} (absolute : isAbsolute path = true) :
    clean path = ofParts (cleanParts path) := by
  simp only [clean, absolute, if_true]

theorem isAbsolute_joinWith {parts : List Bytes}
    (texts : ∀ part ∈ parts, part ≠ [] ∧ slash ∉ part) :
    isAbsolute (Bytes.joinWith [slash] parts) = false := by
  cases parts with
  | nil => rfl
  | cons first others =>
      obtain ⟨nonempty, free⟩ := texts first List.mem_cons_self
      cases first with
      | nil => exact absurd rfl nonempty
      | cons byte first =>
          have apart : byte ≠ slash := fun same => free (same ▸ List.mem_cons_self)
          simpa [isAbsolute, Bytes.joinWith] using apart

theorem isAbsolute_clean (path : Bytes) : isAbsolute (clean path) = isAbsolute path := by
  cases absolute : isAbsolute path with
  | true =>
      rw [clean_of_absolute absolute]
      rfl
  | false =>
      by_cases moves : cleanParts path = []
      · rw [clean_of_unmoved absolute moves]
        rfl
      · rw [clean_of_relative absolute moves]
        apply isAbsolute_joinWith
        intro part member
        exact (kept_cleanParts path).text part (List.mem_reverse.mpr member)

theorem cleanParts_clean (path : Bytes) : cleanParts (clean path) = cleanParts path := by
  have form := kept_cleanParts path
  have free : ∀ part ∈ cleanParts path, slash ∉ part :=
    fun part member => (form.text part (List.mem_reverse.mpr member)).2
  have again := form.foldl_cleanStep
  rw [List.reverse_reverse] at again
  cases absolute : isAbsolute path with
  | true =>
      rw [absolute] at again
      rw [clean_of_absolute absolute, cleanParts_ofParts free, again, List.reverse_reverse]
  | false =>
      by_cases moves : cleanParts path = []
      · rw [clean_of_unmoved absolute moves, moves]
        rfl
      · have relative := isAbsolute_clean path
        rw [absolute, clean_of_relative absolute moves] at relative
        rw [absolute] at again
        rw [clean_of_relative absolute moves, cleanParts, relative, parts,
          Bytes.splitOn_joinWith moves free, again, List.reverse_reverse]

/-! ## Continued paths -/

theorem cleanParts_of_name {name : Bytes} (isName : IsName name) : cleanParts name = [name] := by
  rw [cleanParts, parts, Bytes.splitOn_of_not_mem isName.noSlash,
    foldl_cleanStep_names (List.forall_mem_singleton.mpr isName)]
  rfl

theorem cleanParts_continued {path name : Bytes} (nonempty : path ≠ []) (isName : IsName name) :
    cleanParts (path ++ slash :: name) = cleanParts path ++ [name] := by
  have absolute : isAbsolute (path ++ slash :: name) = isAbsolute path := by
    cases path with
    | nil => exact absurd rfl nonempty
    | cons byte path => rfl
  rw [cleanParts, absolute, parts, Bytes.splitOn_append_separator,
    Bytes.splitOn_of_not_mem isName.noSlash, List.foldl_append,
    foldl_cleanStep_names (List.forall_mem_singleton.mpr isName), List.reverse_append,
    List.reverse_reverse]
  rfl

/-- Joining a name to a path appends the name to its parts. -/
theorem cleanParts_join {path name : Bytes} (isName : IsName name) :
    cleanParts (join path name) = cleanParts path ++ [name] := by
  cases path with
  | nil =>
      have empty : name.isEmpty = false := by simpa using isName.nonempty
      simp only [join, List.isEmpty_nil, if_true, empty, Bool.false_eq_true, if_false,
        cleanParts_clean, cleanParts_of_name isName]
      rfl
  | cons byte path =>
      simp only [join, List.isEmpty_cons, Bool.false_eq_true, if_false, cleanParts_clean]
      exact cleanParts_continued (List.cons_ne_nil byte path) isName

/-- A path continued by names one after the other. -/
def below (path : Bytes) (names : List Bytes) : Bytes := names.foldl join path

theorem cleanParts_below {path : Bytes} {names : List Bytes}
    (areNames : ∀ name ∈ names, IsName name) :
    cleanParts (below path names) = cleanParts path ++ names := by
  induction names generalizing path with
  | nil => exact (List.append_nil _).symm
  | cons name names ih =>
      obtain ⟨first, others⟩ := List.forall_mem_cons.mp areNames
      rw [below, List.foldl_cons, ← below, ih others, cleanParts_join first, List.append_assoc]
      rfl

end Path

end ClassAudit
