import ClassAudit.Path

/-!
# Properties of paths

Splitting a path into its parts undoes joining them, and cleaning a path drops the steps up
together with the parts that they leave.
-/

set_option autoImplicit false

namespace ClassAudit

/-! ## Splitting and joining -/

theorem Bytes.splitOn_of_not_mem {separator : UInt8} {part : Bytes} (free : separator ∉ part) :
    Bytes.splitOn separator part = [part] := by
  induction part with
  | nil => rfl
  | cons byte part ih =>
      obtain ⟨apart, rest⟩ := not_or.mp (fun member => free (List.mem_cons.mpr member))
      have inner := ih rest
      simp only [Bytes.splitOn, List.cons.injEq] at inner
      simp only [Bytes.splitOn, List.foldr_cons, if_neg (Ne.symm apart), inner]

theorem Bytes.splitOn_append {separator : UInt8} {part : Bytes} (free : separator ∉ part)
    (rest : Bytes) :
    Bytes.splitOn separator (part ++ separator :: rest) = part :: Bytes.splitOn separator rest := by
  induction part with
  | nil => simp [Bytes.splitOn]
  | cons byte part ih =>
      obtain ⟨apart, tailFree⟩ := not_or.mp (fun member => free (List.mem_cons.mpr member))
      have inner := ih tailFree
      simp only [Bytes.splitOn, List.cons.injEq] at inner
      simp only [Bytes.splitOn, List.cons_append, List.foldr_cons, if_neg (Ne.symm apart), inner]

theorem Bytes.not_mem_of_mem_splitOn {separator : UInt8} {bytes part : Bytes}
    (member : part ∈ Bytes.splitOn separator bytes) : separator ∉ part := by
  induction bytes generalizing part with
  | nil =>
      rw [List.mem_singleton.mp member]
      simp
  | cons byte bytes ih =>
      simp only [Bytes.splitOn, List.foldr_cons] at member ih
      split at member
      · rcases List.mem_cons.mp member with rfl | member
        · simp
        · exact ih member
      · rename_i apart
        rcases List.mem_cons.mp member with rfl | member
        · simp only [List.mem_cons, not_or]
          exact ⟨Ne.symm apart, ih List.mem_cons_self⟩
        · exact ih (List.mem_cons_of_mem _ member)

theorem Bytes.joinWith_cons_cons (separator first second : Bytes) (others : List Bytes) :
    Bytes.joinWith separator (first :: second :: others) =
      first ++ separator ++ Bytes.joinWith separator (second :: others) := by
  simp [Bytes.joinWith]

theorem Bytes.splitOn_joinWith {separator : UInt8} {parts : List Bytes} (nonempty : parts ≠ [])
    (free : ∀ part ∈ parts, separator ∉ part) :
    Bytes.splitOn separator (Bytes.joinWith [separator] parts) = parts := by
  induction parts with
  | nil => exact absurd rfl nonempty
  | cons first parts ih =>
      have firstFree := free first List.mem_cons_self
      cases parts with
      | nil =>
          have single : Bytes.joinWith [separator] [first] = first := by simp [Bytes.joinWith]
          rw [single, Bytes.splitOn_of_not_mem firstFree]
      | cons second others =>
          rw [Bytes.joinWith_cons_cons, List.append_assoc, List.singleton_append,
            Bytes.splitOn_append firstFree,
            ih (by simp) fun part member => free part (List.mem_cons_of_mem first member)]

theorem Path.parts_ofParts {parts : List Bytes} (nonempty : parts ≠ [])
    (free : ∀ part ∈ parts, Path.slash ∉ part) :
    Path.parts (Path.ofParts parts) = [] :: parts := by
  have split := Bytes.splitOn_append (List.not_mem_nil : Path.slash ∉ [])
    (Bytes.joinWith [Path.slash] parts)
  rw [Path.parts, Path.ofParts]
  exact split.trans (congrArg _ (Bytes.splitOn_joinWith nonempty free))

/-! ## Names -/

/-- A part that names an entry of a directory. -/
structure Path.IsName (part : Bytes) : Prop where
  nonempty : part ≠ []
  notHere : part ≠ Path.here
  notAbove : part ≠ Path.above
  noSlash : Path.slash ∉ part

theorem Path.foldl_cleanStep_names {parts : List Bytes} (names : ∀ part ∈ parts, Path.IsName part)
    (absolute : Bool) (kept : List Bytes) :
    parts.foldl (Path.cleanStep absolute) kept = parts.reverse ++ kept := by
  induction parts generalizing kept with
  | nil => rfl
  | cons part parts ih =>
      have name := names part List.mem_cons_self
      have step : Path.cleanStep absolute kept part = part :: kept := by
        simp [Path.cleanStep, name.nonempty, name.notHere, name.notAbove]
      rw [List.foldl_cons, step,
        ih (fun other member => names other (List.mem_cons_of_mem part member)),
        List.reverse_cons, List.append_assoc, List.singleton_append]

theorem Path.cleanParts_ofParts {parts : List Bytes}
    (free : ∀ part ∈ parts, Path.slash ∉ part) :
    Path.cleanParts (Path.ofParts parts) =
      (parts.foldl (Path.cleanStep true) []).reverse := by
  cases parts with
  | nil => rfl
  | cons part parts =>
      rw [Path.cleanParts, Path.parts_ofParts (List.cons_ne_nil part parts) free]
      rfl

theorem Path.clean_ofParts {parts : List Bytes} (free : ∀ part ∈ parts, Path.slash ∉ part) :
    Path.clean (Path.ofParts parts) =
      Path.ofParts (parts.foldl (Path.cleanStep true) []).reverse := by
  rw [← Path.cleanParts_ofParts free]
  rfl

theorem Path.clean_ofParts_names {parts : List Bytes} (names : ∀ part ∈ parts, Path.IsName part) :
    Path.clean (Path.ofParts parts) = Path.ofParts parts := by
  rw [Path.clean_ofParts fun part member => (names part member).noSlash,
    Path.foldl_cleanStep_names names, List.append_nil, List.reverse_reverse]

theorem Path.ofParts_eq_flatMap {parts : List Bytes} (nonempty : parts ≠ []) :
    Path.ofParts parts = parts.flatMap (Path.slash :: ·) := by
  cases parts with
  | nil => exact absurd rfl nonempty
  | cons first others => rfl

end ClassAudit
