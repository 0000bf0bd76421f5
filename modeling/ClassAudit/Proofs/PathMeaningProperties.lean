import ClassAudit.Proofs.FileTreeProperties
import ClassAudit.Proofs.PathCleaningProperties

/-!
# What cleaned paths mean

A path that is continued by names leads to the entries of these names, from wherever the cleaned
path leads. Where a cleaned path leads somewhere and the path has a canonical form, that form names
the same place.
-/

set_option autoImplicit false

namespace ClassAudit

/-! ## Texts of cleaned paths -/

theorem Bytes.mem_joinWith {separator byte : UInt8} {parts : List Bytes}
    (other : byte ≠ separator) :
    byte ∈ Bytes.joinWith [separator] parts ↔ ∃ part ∈ parts, byte ∈ part := by
  induction parts with
  | nil => simp [Bytes.joinWith]
  | cons first parts ih =>
      cases parts with
      | nil => simp [Bytes.joinWith]
      | cons second parts =>
          rw [Bytes.joinWith_cons_cons, List.mem_append, List.mem_append, ih,
            List.exists_mem_cons_iff]
          simp [other]

namespace Path

theorem clean_clean (path : Bytes) : clean (clean path) = clean path := by
  rw [clean, cleanParts_clean, isAbsolute_clean, clean]

theorem clean_join {path name : Bytes} (isName : IsName name) :
    clean (join path name) = join path name := by
  have nonempty : ¬ name.isEmpty = true := mt List.isEmpty_iff.mp isName.nonempty
  unfold join
  rw [if_neg nonempty]
  split
  · exact clean_clean name
  · exact clean_clean _

theorem IsName.relative {name : Bytes} (isName : IsName name) : isAbsolute name = false := by
  cases name with
  | nil => rfl
  | cons byte name =>
      have apart : byte ≠ slash := fun same => isName.noSlash (same ▸ List.mem_cons_self)
      simpa [isAbsolute] using apart

theorem isAbsolute_join {path name : Bytes} (isName : IsName name) :
    isAbsolute (join path name) = isAbsolute path := by
  have nonempty : ¬ name.isEmpty = true := mt List.isEmpty_iff.mp isName.nonempty
  unfold join
  rw [if_neg nonempty]
  cases path with
  | nil =>
      rw [if_pos List.isEmpty_nil, isAbsolute_clean, isName.relative]
      rfl
  | cons byte path =>
      rw [if_neg (by simp), isAbsolute_clean]
      rfl

theorem isAbsolute_below {path : Bytes} {names : List Bytes}
    (areNames : ∀ name ∈ names, IsName name) :
    isAbsolute (below path names) = isAbsolute path := by
  induction names generalizing path with
  | nil => rfl
  | cons name names ih =>
      obtain ⟨first, others⟩ := List.forall_mem_cons.mp areNames
      exact (ih others).trans (isAbsolute_join first)

theorem clean_below {path : Bytes} {names : List Bytes} (moves : names ≠ [])
    (areNames : ∀ name ∈ names, IsName name) : clean (below path names) = below path names := by
  induction names generalizing path with
  | nil => exact absurd rfl moves
  | cons name names ih =>
      obtain ⟨first, others⟩ := List.forall_mem_cons.mp areNames
      cases names with
      | nil => exact clean_join first
      | cons next names => exact ih (List.cons_ne_nil next names) others

theorem clean_ne_nil (path : Bytes) : clean path ≠ [] := by
  cases absolute : isAbsolute path with
  | true =>
      rw [clean_of_absolute absolute]
      exact List.cons_ne_nil _ _
  | false =>
      by_cases unmoved : cleanParts path = []
      · rw [clean_of_unmoved absolute unmoved]
        decide
      · intro empty
        have kept := cleanParts_clean path
        rw [empty] at kept
        exact unmoved kept.symm

/-- The bytes of a cleaned path other than slashes and dots stand in its parts. -/
theorem mem_clean_iff {path : Bytes} {byte : UInt8} (notSlash : byte ≠ slash)
    (notDot : byte ∉ here) : byte ∈ clean path ↔ ∃ part ∈ cleanParts path, byte ∈ part := by
  cases absolute : isAbsolute path with
  | true =>
      rw [clean_of_absolute absolute, ofParts, List.mem_cons, Bytes.mem_joinWith notSlash]
      simp [notSlash]
  | false =>
      by_cases unmoved : cleanParts path = []
      · rw [clean_of_unmoved absolute unmoved, unmoved]
        simp [notDot]
      · rw [clean_of_relative absolute unmoved, Bytes.mem_joinWith notSlash]

end Path

/-! ## Steps of cleaned paths -/

namespace Disk

theorem steps_joinWith {parts : List Bytes} (moves : parts ≠ [])
    (texts : ∀ part ∈ parts, part ≠ [] ∧ Path.slash ∉ part) :
    Disk.steps (Bytes.joinWith [Path.slash] parts) = parts := by
  have split : Path.parts (Bytes.joinWith [Path.slash] parts) = parts :=
    Bytes.splitOn_joinWith moves fun part member => (texts part member).2
  have kept : parts.filter (· != []) = parts := by
    refine List.filter_eq_self.mpr ?_
    intro part member
    simpa using (texts part member).1
  have noSlash : (Bytes.joinWith [Path.slash] parts).getLast? ≠ some Path.slash := by
    intro ends
    obtain ⟨before, text⟩ := List.getLast?_eq_some_iff.mp ends
    -- a slash at the end would leave an empty part behind it
    have last : Path.parts (Bytes.joinWith [Path.slash] parts) = Path.parts before ++ [[]] := by
      rw [text]
      exact Bytes.splitOn_append_separator Path.slash before []
    rw [split] at last
    refine (texts [] ?_).1 rfl
    rw [last]
    exact List.mem_append_right _ (List.mem_singleton_self _)
  rw [Disk.steps, split, kept, if_neg (by simpa using noSlash), List.append_nil]

theorem steps_slash {text : Bytes} (nonempty : text ≠ []) :
    Disk.steps (Path.slash :: text) = Disk.steps text := by
  have split : Path.parts (Path.slash :: text) = [] :: Path.parts text :=
    Bytes.splitOn_append_separator Path.slash [] text
  rw [Disk.steps, split, List.filter_cons_of_neg (by simp), Disk.steps, List.getLast?_cons]
  cases text with
  | nil => exact absurd rfl nonempty
  | cons byte text => simp [List.getLast?_cons]

/-- A cleaned path takes its parts as steps, unless it has none. -/
theorem steps_clean {path : Bytes} (moves : Path.cleanParts path ≠ []) :
    Disk.steps (Path.clean path) = Path.cleanParts path := by
  have texts : ∀ part ∈ Path.cleanParts path, part ≠ [] ∧ Path.slash ∉ part :=
    fun part member => (Path.kept_cleanParts path).text part (List.mem_reverse.mpr member)
  have joined := steps_joinWith moves texts
  cases absolute : Path.isAbsolute path with
  | false => rw [Path.clean_of_relative absolute moves, joined]
  | true =>
      rw [Path.clean_of_absolute absolute, Path.ofParts, steps_slash, joined]
      intro empty
      rw [empty] at joined
      exact moves joined.symm

variable {disk : Disk} {followLast : Bool} {links : Nat} {place steps middle found : List Bytes}

/-! ## Steps one after the other -/

theorem Follows.append {more : List Bytes} (follows : disk.Follows true links place steps middle)
    (goesOn : more ≠ []) (onward : ∀ left, disk.Follows followLast left middle more found) :
    disk.Follows followLast links place (steps ++ more) found := by
  induction follows with
  | done => exact onward _
  | here directory _ ih => exact .here directory (ih onward)
  | up directory _ ih => exact .up directory (ih onward)
  | down offers noLink _ ih => exact .down offers noLink (ih onward)
  | stop offers unfollowed => cases unfollowed
  | @through links place rest found part target offers _ _ ih =>
      have longer : rest ++ more ≠ [] := List.append_ne_nil_of_right_ne_nil rest goesOn
      have along := ih onward
      rw [List.append_assoc] at along
      exact .through offers (.inl longer) along

/-- Names of entries are steps down to what stands below. -/
theorem follows_names {node leaf : FileNode} {names rest : List Bytes}
    (here : disk.node? place = some node) (reached : node.descend? names = some leaf)
    (areNames : ∀ name ∈ names, FileNode.EntryName name) (noLink : ∀ target, leaf ≠ .link target)
    (onward : disk.Follows followLast links (place ++ names) rest found) :
    disk.Follows followLast links place (names ++ rest) found := by
  induction names generalizing place node with
  | nil =>
      rw [List.append_nil] at onward
      exact onward
  | cons name names ih =>
      obtain ⟨first, others⟩ := List.forall_mem_cons.mp areNames
      cases node with
      | file data => cases reached
      | link target => cases reached
      | directory entries =>
          obtain ⟨child, present, deeper⟩ := FileNode.descend?_cons_eq_some_iff.mp reached
          have offers : disk.Offers place name child :=
            ⟨⟨entries, here, present⟩, first.notHere, first.notAbove, first.short⟩
          rw [List.append_cons] at onward
          refine .down offers ?_ (ih offers.node? deeper others onward)
          intro target isLink
          subst isLink
          cases names with
          | nil =>
              cases deeper
              exact noLink target rfl
          | cons next names => cases deeper

/-- The last of the names may be that of a link, if links at the end are not followed. -/
theorem follows_to_entry {node leaf : FileNode} {names : List Bytes} {name : Bytes}
    (here : disk.node? place = some node)
    (reached : node.descend? (names ++ [name]) = some leaf)
    (areNames : ∀ other ∈ names ++ [name], FileNode.EntryName other)
    (final : followLast = false ∨ ∀ target, leaf ≠ .link target) :
    disk.Follows followLast links place (names ++ [name]) (place ++ names ++ [name]) := by
  obtain ⟨onWay, atEnd⟩ := List.forall_mem_append.mp areNames
  have isName := atEnd name (List.mem_singleton_self name)
  rw [FileNode.descend?_append] at reached
  obtain ⟨last, onto, entered⟩ := Option.bind_eq_some_iff.mp reached
  cases last with
  | file data => cases entered
  | link target => cases entered
  | directory entries =>
      obtain ⟨child, present, same⟩ := FileNode.descend?_cons_eq_some_iff.mp entered
      cases same
      have directory : disk.node? (place ++ names) = some (.directory entries) := by
        rw [node?, FileNode.descend?_append]
        exact Option.bind_eq_some_iff.mpr ⟨node, here, onto⟩
      have offers : disk.Offers (place ++ names) name leaf :=
        ⟨⟨entries, directory, present⟩, isName.notHere, isName.notAbove, isName.short⟩
      refine follows_names here onto onWay (FileNode.directory_ne_link entries) ?_
      cases leaf with
      | file data => exact .down offers (FileNode.file_ne_link data) .done
      | directory inner => exact .down offers (FileNode.directory_ne_link inner) .done
      | link target =>
          rcases final with unfollowed | noLink
          · exact .stop offers unfollowed
          · exact absurd rfl (noLink target)

theorem start_clean (disk : Disk) (path : Bytes) :
    disk.start (Path.clean path) = disk.start path := by
  rw [start, Path.isAbsolute_clean, start]

theorem follows_cleanParts {path : Bytes}
    (located : disk.locate true (Path.clean path) = .ok found) :
    disk.Follows true linkLimit (disk.start path) (Path.cleanParts path) found := by
  obtain ⟨-, follows⟩ := locate_eq_ok_iff.mp located
  rw [start_clean] at follows
  by_cases unmoved : Path.cleanParts path = []
  · have stays : Disk.steps (Path.clean path) = [Path.here] := by
      unfold Path.clean
      rw [unmoved]
      split
      · rfl
      · rfl
    rw [stays] at follows
    rw [unmoved]
    cases follows with
    | here _ onward => exact onward
    | down offers => exact absurd rfl offers.notHere
    | stop offers => exact absurd rfl offers.notHere
    | through offers => exact absurd rfl offers.notHere
  · rw [steps_clean unmoved] at follows
    exact follows

/-! ## Paths continued by names -/

section

variable {path : Bytes} {names : List Bytes}

theorem start_below (disk : Disk) (areNames : ∀ name ∈ names, Path.IsName name) :
    disk.start (Path.below path names) = disk.start path := by
  rw [start, Path.isAbsolute_below areNames, start]

theorem steps_below (moves : names ≠ []) (areNames : ∀ name ∈ names, Path.IsName name) :
    Disk.steps (Path.below path names) = Path.cleanParts path ++ names := by
  rw [← Path.clean_below moves areNames, steps_clean, Path.cleanParts_below areNames]
  rw [Path.cleanParts_below areNames]
  exact List.append_ne_nil_of_right_ne_nil _ moves

theorem zero_not_mem_below (moves : names ≠ [])
    (areNames : ∀ name ∈ names, FileNode.EntryName name) (free : 0 ∉ Path.clean path) :
    0 ∉ Path.below path names := by
  have isNames : ∀ name ∈ names, Path.IsName name :=
    fun name member => (areNames name member).toIsName
  rw [← Path.clean_below moves isNames, Path.mem_clean_iff (by decide) (by decide),
    Path.cleanParts_below isNames]
  intro zero
  obtain ⟨part, member, inPart⟩ := zero
  rcases List.mem_append.mp member with before | after
  · exact free ((Path.mem_clean_iff (by decide) (by decide)).mpr ⟨part, before, inPart⟩)
  · exact (areNames part after).noZero inPart

/-- From where a cleaned path leads, the names of entries lead on. -/
theorem find_below {name : Bytes} {node leaf : FileNode}
    (means : disk.stat (Path.clean path) = .ok node)
    (reached : node.descend? (names ++ [name]) = some leaf)
    (areNames : ∀ other ∈ names ++ [name], FileNode.EntryName other)
    (final : followLast = false ∨ ∀ target, leaf ≠ .link target)
    (short : (Path.below path (names ++ [name])).length < 4096) :
    disk.find followLast (Path.below path (names ++ [name])) = .ok leaf := by
  obtain ⟨middle, located, here⟩ := find_eq_ok_iff.mp means
  have moves : names ++ [name] ≠ [] := List.append_ne_nil_of_right_ne_nil names (by simp)
  have isNames : ∀ other ∈ names ++ [name], Path.IsName other :=
    fun other member => (areNames other member).toIsName
  have noZero := zero_not_mem_below moves areNames (locate_eq_ok_iff.mp located).1.2.1
  have nonempty : Path.below path (names ++ [name]) ≠ [] := by
    rw [← Path.clean_below moves isNames]
    exact Path.clean_ne_nil _
  have follows := (follows_cleanParts located).append moves
    fun _ => follows_to_entry here reached areNames final
  rw [← steps_below moves isNames, ← start_below disk isNames] at follows
  refine find_eq_ok_iff.mpr
    ⟨_, locate_eq_ok_iff.mpr ⟨⟨nonempty, noZero, short⟩, follows⟩, ?_⟩
  rw [node?, List.append_assoc, FileNode.descend?_append]
  exact Option.bind_eq_some_iff.mpr ⟨node, here, reached⟩

end

end Disk

end ClassAudit
