import ClassAudit.ClassFile.Opening
import ClassAudit.Proofs.PathProperties
import ClassAudit.Proofs.ReaderProperties
import Mathlib.Data.List.Flatten

/-!
# Canonical paths

A canonical path leads through directories alone: it holds no link and no step up. Taking
the canonical form again therefore changes nothing, and opening a file by its canonical
path reads what opening it by the path itself reads.
-/

set_option autoImplicit false

namespace ClassAudit

/-! ## Looking entries up by name -/

theorem FileNode.descend?_concat {node : FileNode} {place : List Bytes} {part : Bytes} :
    node.descend? (place ++ [part]) = (node.descend? place).bind (FileNode.child? part) := by
  induction place generalizing node with
  | nil => simp [FileNode.descend?]
  | cons first place ih =>
      simp only [List.cons_append, FileNode.descend?]
      cases node.child? first with
      | none => rfl
      | some child => exact ih

theorem Disk.node?_concat {disk : Disk} {place : List Bytes} {part : Bytes}
    {entries : List (Bytes × FileNode)} (directory : disk.node? place = some (.directory entries)) :
    disk.node? (place ++ [part]) = entries.lookup part := by
  rw [Disk.node?, FileNode.descend?_concat, ← Disk.node?, directory]
  rfl

theorem Disk.follow_nil {disk : Disk} {followLast : Bool} {links : Nat} {place : List Bytes} :
    disk.follow followLast links place [] = .ok place := by
  cases links with
  | zero | succ left => rfl

theorem Disk.follow_cons {disk : Disk} {followLast : Bool} {links : Nat}
    {place rest : List Bytes} {part : Bytes} :
    disk.follow followLast links place (part :: rest) =
      match disk.node? place with
      | some (.directory entries) =>
          if part = Path.here then disk.follow followLast links place rest
          else if part = Path.above then disk.follow followLast links place.dropLast rest
          else if 255 < part.length then .error .nameTooLong
          else
            match entries.lookup part with
            | none => .error .notFound
            | some (.link target) =>
                if rest.isEmpty && !followLast then .ok (place ++ [part])
                else
                  match links with
                  | 0 => .error .tooManyLinks
                  | left + 1 =>
                      disk.follow followLast left (if Path.isAbsolute target then [] else place)
                        (Disk.steps target ++ rest)
            | some _ => disk.follow followLast links (place ++ [part]) rest
      | _ => .error .notDirectory := by
  cases links with
  | zero | succ left => rfl

/-- A step by a name, where the entry is no link. -/
theorem Disk.follow_name {disk : Disk} {links : Nat} {place rest : List Bytes} {part : Bytes}
    {entries : List (Bytes × FileNode)} {node : FileNode} (name : Path.IsName part)
    (directory : disk.node? place = some (.directory entries)) (short : part.length ≤ 255)
    (present : entries.lookup part = some node) (noLink : ∀ target, node ≠ .link target) :
    disk.follow false links place (part :: rest) =
      disk.follow false links (place ++ [part]) rest := by
  rw [Disk.follow_cons]
  simp only [directory, name.notHere, name.notAbove, Nat.not_lt.mpr short, ↓reduceIte, present]

theorem Disk.follow_above {disk : Disk} {links : Nat} {place rest : List Bytes}
    {entries : List (Bytes × FileNode)} (directory : disk.node? place = some (.directory entries)) :
    disk.follow false links place (Path.above :: rest) =
      disk.follow false links place.dropLast rest := by
  rw [Disk.follow_cons]
  simp only [directory, show Path.above ≠ Path.here by decide, ↓reduceIte]

/-- Where a step by a single name ends, and what it found on the way. -/
theorem Disk.follow_single_eq_ok {disk : Disk} {links : Nat} {place found : List Bytes}
    {part : Bytes} (name : Path.IsName part)
    (followed : disk.follow false links place [part] = .ok found) :
    found = place ++ [part] ∧ ∃ entries node, disk.node? place = some (.directory entries) ∧
      part.length ≤ 255 ∧ entries.lookup part = some node := by
  rw [Disk.follow_cons] at followed
  split at followed
  · rename_i entries directory
    simp only [name.notHere, name.notAbove, ↓reduceIte] at followed
    by_cases long : 255 < part.length
    · rw [if_pos long] at followed
      cases followed
    · rw [if_neg long] at followed
      cases present : entries.lookup part with
      | none =>
          rw [present] at followed
          cases followed
      | some node =>
          refine ⟨?_, entries, node, directory, Nat.le_of_not_lt long, present⟩
          rw [present] at followed
          cases node with
          | link target =>
              simp at followed
              exact followed.symm
          | file data =>
              simp [Disk.follow_nil] at followed
              exact followed.symm
          | directory inner =>
              simp [Disk.follow_nil] at followed
              exact followed.symm
  · cases followed

theorem Disk.root_of_follow_eq_ok {disk : Disk} {links : Nat} {steps found : List Bytes}
    (moves : steps ≠ []) (followed : disk.follow false links [] steps = .ok found) :
    ∃ entries, disk.node? [] = some (.directory entries) := by
  cases steps with
  | nil => exact absurd rfl moves
  | cons part rest =>
      rw [Disk.follow_cons] at followed
      split at followed
      · rename_i entries directory
        exact ⟨entries, directory⟩
      · cases followed

theorem Disk.steps_ofParts {place : List Bytes} {part : Bytes}
    (texts : ∀ other ∈ place, other ≠ [] ∧ Path.slash ∉ other) (name : Path.IsName part) :
    Disk.steps (Path.ofParts (place ++ [part])) = place ++ [part] := by
  have whole : ∀ other ∈ place ++ [part], other ≠ [] ∧ Path.slash ∉ other :=
    List.forall_mem_append.mpr
      ⟨texts, List.forall_mem_singleton.mpr ⟨name.nonempty, name.noSlash⟩⟩
  have last : (Path.ofParts (place ++ [part])).getLast? = part.getLast? := by
    have ends := List.getLast?_eq_some_getLast name.nonempty
    rw [Path.ofParts_eq_flatMap (by simp), List.flatMap_append, List.flatMap_singleton,
      List.getLast?_append, List.getLast?_cons, ends]
    rfl
  have noSlash : part.getLast? ≠ some Path.slash := by
    intro ends
    exact name.noSlash (List.mem_of_getLast? ends)
  have kept : ([] :: (place ++ [part])).filter (· != []) = place ++ [part] := by
    rw [List.filter_cons_of_neg (by simp)]
    refine List.filter_eq_self.mpr ?_
    intro other member
    simpa using (whole other member).1
  rw [Disk.steps, Path.parts_ofParts (by simp) fun other member => (whole other member).2, kept,
    last, if_neg (by simpa using noSlash), List.append_nil]

/-- The entry of a name at a place that was written out, if the path is one at all. -/
theorem Disk.linkStat_eq_ok_iff {disk : Disk} {place : List Bytes} {part : Bytes}
    {node : FileNode} (texts : ∀ other ∈ place, other ≠ [] ∧ Path.slash ∉ other)
    (name : Path.IsName part) :
    disk.linkStat (Path.ofParts (place ++ [part])) = .ok node ↔
      0 ∉ Path.ofParts (place ++ [part]) ∧ (Path.ofParts (place ++ [part])).length < 4096 ∧
        ∃ found, disk.follow false Disk.linkLimit [] (place ++ [part]) = .ok found ∧
          disk.node? found = some node := by
  have located : disk.locate false (Path.ofParts (place ++ [part])) =
      if (Path.ofParts (place ++ [part])).contains 0 then .error .invalidPath
      else if 4096 ≤ (Path.ofParts (place ++ [part])).length then .error .nameTooLong
      else disk.follow false Disk.linkLimit [] (place ++ [part]) := by
    rw [Disk.locate, Disk.steps_ofParts texts name]
    rfl
  rw [Disk.linkStat, Disk.find, located]
  by_cases zero : (Path.ofParts (place ++ [part])).contains 0
  · rw [if_pos zero]
    refine ⟨nofun, ?_⟩
    rintro ⟨noZero, -⟩
    exact absurd (List.contains_iff_mem.mp zero) noZero
  · rw [if_neg zero]
    by_cases long : 4096 ≤ (Path.ofParts (place ++ [part])).length
    · rw [if_pos long]
      refine ⟨nofun, ?_⟩
      rintro ⟨-, short, -⟩
      exact absurd short (Nat.not_lt.mpr long)
    · rw [if_neg long]
      have noZero : 0 ∉ Path.ofParts (place ++ [part]) :=
        fun member => zero (List.contains_iff_mem.mpr member)
      constructor
      · intro success
        obtain ⟨found, followed, looked⟩ := bind_eq_ok success
        refine ⟨noZero, Nat.lt_of_not_le long, found, followed, ?_⟩
        cases present : disk.node? found with
        | none =>
            rw [present] at looked
            cases looked
        | some entry =>
            rw [present] at looked
            cases looked
            rfl
      · rintro ⟨-, -, found, followed, present⟩
        simp only [followed, present, bind, Except.bind]
        rfl

/-! ## Places without links -/

/-- A place that a path by names reaches through directories alone. -/
inductive Disk.Settled (disk : Disk) : List Bytes → Prop
  | root : Disk.Settled disk []
  | down {place : List Bytes} {part : Bytes} {entries : List (Bytes × FileNode)}
      (before : Disk.Settled disk place) (name : Path.IsName part)
      (found : disk.linkStat (Path.ofParts (place ++ [part])) = .ok (.directory entries)) :
      Disk.Settled disk (place ++ [part])

namespace Disk.Settled

variable {disk : Disk}

theorem names {place : List Bytes} (settled : disk.Settled place) :
    ∀ part ∈ place, Path.IsName part := by
  induction settled with
  | root => exact List.forall_mem_nil _
  | down before name found ih =>
      exact List.forall_mem_append.mpr ⟨ih, List.forall_mem_singleton.mpr name⟩

theorem texts {place : List Bytes} (settled : disk.Settled place) :
    ∀ part ∈ place, part ≠ [] ∧ Path.slash ∉ part :=
  fun part member => ⟨(settled.names part member).nonempty, (settled.names part member).noSlash⟩

theorem dropLast {place : List Bytes} (settled : disk.Settled place) :
    disk.Settled place.dropLast := by
  cases settled with
  | root => exact .root
  | down before name found =>
      rw [List.dropLast_concat]
      exact before

/-- Steps to a settled place lead there whatever comes next. -/
theorem follow {place : List Bytes} (settled : disk.Settled place) (links : Nat)
    (rest : List Bytes) :
    disk.follow false links [] (place ++ rest) = disk.follow false links place rest := by
  induction settled generalizing links rest with
  | root => rfl
  | @down place part entries before name found ih =>
      obtain ⟨-, -, reached, followed, present⟩ :=
        (Disk.linkStat_eq_ok_iff before.texts name).mp found
      rw [ih] at followed
      obtain ⟨rfl, siblings, node, directory, short, looked⟩ :=
        Disk.follow_single_eq_ok name followed
      rw [Disk.node?_concat directory, looked] at present
      cases present
      rw [List.append_assoc, ih]
      exact Disk.follow_name name directory short looked nofun

theorem directory {place : List Bytes} (settled : disk.Settled place)
    {top : List (Bytes × FileNode)} (root : disk.node? [] = some (.directory top)) :
    ∃ entries, disk.node? place = some (.directory entries) := by
  cases settled with
  | root => exact ⟨top, root⟩
  | @down place part entries before name found =>
      obtain ⟨-, -, reached, followed, present⟩ :=
        (Disk.linkStat_eq_ok_iff before.texts name).mp found
      rw [before.follow] at followed
      obtain ⟨rfl, -⟩ := Disk.follow_single_eq_ok name followed
      exact ⟨entries, present⟩

end Disk.Settled

/-- A place as it was written, with steps up, and the settled place that it stands for. -/
inductive Disk.Leads (disk : Disk) : List Bytes → List Bytes → Prop
  | root : Disk.Leads disk [] []
  | down {written place : List Bytes} {part : Bytes} (before : Disk.Leads disk written place)
      (settled : disk.Settled (place ++ [part])) :
      Disk.Leads disk (written ++ [part]) (place ++ [part])
  | up {written place : List Bytes} (before : Disk.Leads disk written place) :
      Disk.Leads disk (written ++ [Path.above]) place.dropLast

namespace Disk.Leads

variable {disk : Disk} {written place : List Bytes}

theorem settled (leads : disk.Leads written place) : disk.Settled place := by
  induction leads with
  | root => exact .root
  | down before settled ih => exact settled
  | up before ih => exact ih.dropLast

theorem texts (leads : disk.Leads written place) :
    ∀ part ∈ written, part ≠ [] ∧ Path.slash ∉ part := by
  induction leads with
  | root => exact List.forall_mem_nil _
  | down before settled ih =>
      exact List.forall_mem_append.mpr ⟨ih, (List.forall_mem_append.mp settled.texts).2⟩
  | up before ih =>
      exact List.forall_mem_append.mpr ⟨ih, List.forall_mem_singleton.mpr (by decide)⟩

theorem sublist (leads : disk.Leads written place) : place.Sublist written := by
  induction leads with
  | root => exact .slnil
  | down before settled ih => exact ih.append (.refl _)
  | up before ih =>
      exact ((List.dropLast_sublist _).trans ih).trans (List.sublist_append_left _ _)

/-- Cleaning the written place as a text gives the settled one. -/
theorem cleaned (leads : disk.Leads written place) :
    written.foldl (Path.cleanStep true) [] = place.reverse := by
  induction leads with
  | root => rfl
  | @down written place part before settled ih =>
      have name := settled.names part (List.mem_append_right _ (List.mem_singleton_self part))
      rw [List.foldl_append, ih, List.reverse_concat]
      simp [Path.cleanStep, name.nonempty, name.notHere, name.notAbove]
  | @up written place before ih =>
      have names := before.settled.names
      rw [List.foldl_append, ih]
      rcases List.eq_nil_or_concat place with rfl | ⟨front, last, rfl⟩
      · rfl
      · have name := names last (by simp)
        simp [Path.cleanStep, name.notAbove, show Path.above ≠ Path.here by decide,
          show Path.above ≠ [] by decide]

theorem clean (leads : disk.Leads written place) :
    Path.clean (Path.ofParts written) = Path.ofParts place := by
  rw [Path.clean_ofParts fun part member => (leads.texts part member).2, leads.cleaned,
    List.reverse_reverse]

theorem clean_concat {part : Bytes} (leads : disk.Leads written place) (name : Path.IsName part) :
    Path.clean (Path.ofParts (written ++ [part])) = Path.ofParts (place ++ [part]) := by
  have free : ∀ other ∈ written ++ [part], Path.slash ∉ other :=
    List.forall_mem_append.mpr ⟨fun other member => (leads.texts other member).2,
      List.forall_mem_singleton.mpr name.noSlash⟩
  rw [Path.clean_ofParts free, List.foldl_append, leads.cleaned,
    Path.foldl_cleanStep_names (List.forall_mem_singleton.mpr name), List.reverse_append,
    List.reverse_reverse, List.reverse_reverse]

/-- Steps as they were written lead where the settled place is. -/
theorem follow (leads : disk.Leads written place) {top : List (Bytes × FileNode)}
    (root : disk.node? [] = some (.directory top)) (links : Nat) (rest : List Bytes) :
    disk.follow false links [] (written ++ rest) = disk.follow false links place rest := by
  induction leads generalizing rest with
  | root => rfl
  | @down written place part before settled ih =>
      rw [List.append_assoc, ih, ← settled.follow, ← before.settled.follow, List.append_assoc]
  | @up written place before ih =>
      obtain ⟨entries, directory⟩ := before.settled.directory root
      rw [List.append_assoc, ih]
      exact Disk.follow_above directory

/-- An entry found by a written place is found at the settled place. -/
theorem linkStat (leads : disk.Leads written place) {part : Bytes} {node : FileNode}
    (name : Path.IsName part)
    (found : disk.linkStat (Path.ofParts (written ++ [part])) = .ok node) :
    disk.linkStat (Path.ofParts (place ++ [part])) = .ok node := by
  obtain ⟨noZero, short, reached, followed, present⟩ :=
    (Disk.linkStat_eq_ok_iff leads.texts name).mp found
  refine (Disk.linkStat_eq_ok_iff leads.settled.texts name).mpr ?_
  have shorter : (Path.ofParts (place ++ [part])).Sublist (Path.ofParts (written ++ [part])) := by
    rw [Path.ofParts_eq_flatMap (by simp), Path.ofParts_eq_flatMap (by simp)]
    exact (leads.sublist.append (.refl [part])).flatMap _
  refine ⟨fun zero => noZero (shorter.mem zero), Nat.lt_of_le_of_lt shorter.length_le short,
    reached, ?_, present⟩
  obtain ⟨top, root⟩ := Disk.root_of_follow_eq_ok (by simp) followed
  rw [leads.follow root] at followed
  rw [leads.settled.follow, followed]

/-- The step up of a canonical path keeps to the settled places. -/
theorem above (leads : disk.Leads written place) :
    disk.Leads (placeAbove written) place.dropLast := by
  unfold placeAbove
  split
  · rename_i inside
    simp only [Bool.and_eq_true, decide_eq_true_eq, bne_iff_ne, ne_eq] at inside
    cases leads with
    | root => exact .root
    | down before settled =>
        rw [List.dropLast_concat, List.dropLast_concat]
        exact before
    | up before => simp at inside
  · exact .up leads

end Disk.Leads

/-! ## Canonical forms -/

/-- The places that canonical paths name: directories reached without links, and what else
stands in them. -/
inductive Disk.Canonical (disk : Disk) : List Bytes → Prop
  | directory {place : List Bytes} (settled : disk.Settled place) : Disk.Canonical disk place
  | file {place : List Bytes} {part data : Bytes} (settled : disk.Settled place)
      (name : Path.IsName part)
      (found : disk.linkStat (Path.ofParts (place ++ [part])) = .ok (.file data)) :
      Disk.Canonical disk (place ++ [part])

theorem Disk.Canonical.names {disk : Disk} {place : List Bytes} (canonical : disk.Canonical place) :
    ∀ part ∈ place, Path.IsName part := by
  cases canonical with
  | directory settled => exact settled.names
  | file settled name found =>
      exact List.forall_mem_append.mpr ⟨settled.names, List.forall_mem_singleton.mpr name⟩

theorem Disk.resolveParts_nil {disk : Disk} {links : Nat} {place : List Bytes} :
    disk.resolveParts links place [] = .ok place := by
  cases links with
  | zero | succ left => rfl

theorem Disk.resolveParts_cons {disk : Disk} {links : Nat} {place rest : List Bytes}
    {part : Bytes} :
    disk.resolveParts links place (part :: rest) =
      if part = [] || part = Path.here then disk.resolveParts links place rest
      else if part = Path.above then disk.resolveParts links (placeAbove place) rest
      else
        match disk.linkStat (Path.ofParts (place ++ [part])) with
        | .error reason => .error (.missing (Path.ofParts (place ++ [part])) reason)
        | .ok (.directory _) => disk.resolveParts links (place ++ [part]) rest
        | .ok (.file _) =>
            if rest.isEmpty then .ok (place ++ [part]) else .error .notDirectory
        | .ok (.link target) =>
            match links with
            | 0 => .error .tooManyLinks
            | left + 1 =>
                disk.resolveParts left (if Path.isAbsolute target then [] else place)
                  (Path.parts target ++ rest) := by
  cases links with
  | zero | succ left => rfl

theorem Disk.resolveParts_skip {disk : Disk} {links : Nat} {place rest : List Bytes} {part : Bytes}
    (skipped : (decide (part = []) || decide (part = Path.here)) = true) :
    disk.resolveParts links place (part :: rest) = disk.resolveParts links place rest := by
  rw [Disk.resolveParts_cons, if_pos skipped]

theorem Disk.resolveParts_above {disk : Disk} {links : Nat} {place rest : List Bytes} :
    disk.resolveParts links place (Path.above :: rest) =
      disk.resolveParts links (placeAbove place) rest := by
  rw [Disk.resolveParts_cons, if_neg (by decide), if_pos rfl]

theorem Disk.resolveParts_directory {disk : Disk} {links : Nat} {place rest : List Bytes}
    {part : Bytes} {entries : List (Bytes × FileNode)} (name : Path.IsName part)
    (found : disk.linkStat (Path.ofParts (place ++ [part])) = .ok (.directory entries)) :
    disk.resolveParts links place (part :: rest) =
      disk.resolveParts links (place ++ [part]) rest := by
  rw [Disk.resolveParts_cons]
  simp only [name.nonempty, name.notHere, name.notAbove, found, decide_false, Bool.or_self,
    Bool.false_eq_true, ↓reduceIte]

theorem Disk.resolveParts_file {disk : Disk} {links : Nat} {place rest : List Bytes}
    {part data : Bytes} (name : Path.IsName part)
    (found : disk.linkStat (Path.ofParts (place ++ [part])) = .ok (.file data)) :
    disk.resolveParts links place (part :: rest) =
      if rest.isEmpty then .ok (place ++ [part]) else .error .notDirectory := by
  rw [Disk.resolveParts_cons]
  simp only [name.nonempty, name.notHere, name.notAbove, found, decide_false, Bool.or_self,
    Bool.false_eq_true, ↓reduceIte]

theorem Disk.resolveParts_missing {disk : Disk} {links : Nat} {place rest : List Bytes}
    {part : Bytes} {reason : FileError} (name : Path.IsName part)
    (missing : disk.linkStat (Path.ofParts (place ++ [part])) = .error reason) :
    disk.resolveParts links place (part :: rest) =
      .error (.missing (Path.ofParts (place ++ [part])) reason) := by
  rw [Disk.resolveParts_cons]
  simp only [name.nonempty, name.notHere, name.notAbove, missing, decide_false, Bool.or_self,
    Bool.false_eq_true, ↓reduceIte]

theorem Disk.resolveParts_link_none {disk : Disk} {place rest : List Bytes}
    {part target : Bytes} (name : Path.IsName part)
    (found : disk.linkStat (Path.ofParts (place ++ [part])) = .ok (.link target)) :
    disk.resolveParts 0 place (part :: rest) = .error .tooManyLinks := by
  rw [Disk.resolveParts_cons]
  simp only [name.nonempty, name.notHere, name.notAbove, found, decide_false, Bool.or_self,
    Bool.false_eq_true, ↓reduceIte]

theorem Disk.resolveParts_link {disk : Disk} {left : Nat} {place rest : List Bytes}
    {part target : Bytes} (name : Path.IsName part)
    (found : disk.linkStat (Path.ofParts (place ++ [part])) = .ok (.link target)) :
    disk.resolveParts (left + 1) place (part :: rest) =
      disk.resolveParts left (if Path.isAbsolute target then [] else place)
        (Path.parts target ++ rest) := by
  rw [Disk.resolveParts_cons]
  simp only [name.nonempty, name.notHere, name.notAbove, found, decide_false, Bool.or_self,
    Bool.false_eq_true, ↓reduceIte]

/-- What a name that resolves can stand for. A link leads on with one link fewer. -/
theorem Disk.resolveParts_name_eq_ok {disk : Disk} {links : Nat}
    {place rest result : List Bytes} {part : Bytes} (name : Path.IsName part)
    (resolved : disk.resolveParts links place (part :: rest) = .ok result) :
    (∃ entries, disk.linkStat (Path.ofParts (place ++ [part])) = .ok (.directory entries) ∧
      disk.resolveParts links (place ++ [part]) rest = .ok result) ∨
    (∃ data, disk.linkStat (Path.ofParts (place ++ [part])) = .ok (.file data) ∧
      result = place ++ [part]) ∨
    ∃ target left, disk.linkStat (Path.ofParts (place ++ [part])) = .ok (.link target) ∧
      links = left + 1 ∧
      disk.resolveParts left (if Path.isAbsolute target then [] else place)
        (Path.parts target ++ rest) = .ok result := by
  cases found : disk.linkStat (Path.ofParts (place ++ [part])) with
  | error reason =>
      rw [Disk.resolveParts_missing name found] at resolved
      cases resolved
  | ok node =>
      cases node with
      | directory entries =>
          rw [Disk.resolveParts_directory name found] at resolved
          exact .inl ⟨entries, rfl, resolved⟩
      | file data =>
          rw [Disk.resolveParts_file name found] at resolved
          split at resolved
          · cases resolved
            exact .inr (.inl ⟨data, rfl, rfl⟩)
          · cases resolved
      | link target =>
          cases links with
          | zero =>
              rw [Disk.resolveParts_link_none name found] at resolved
              cases resolved
          | succ left =>
              rw [Disk.resolveParts_link name found] at resolved
              exact .inr (.inr ⟨target, left, rfl, rfl, resolved⟩)

theorem Path.IsName.of_free {part : Bytes} (free : Path.slash ∉ part)
    (kept : ¬ (decide (part = []) || decide (part = Path.here)) = true)
    (notAbove : part ≠ Path.above) : Path.IsName part := by
  simp only [Bool.or_eq_true, decide_eq_true_eq, not_or] at kept
  exact ⟨kept.1, kept.2, notAbove, free⟩

/-- What parts resolve to stands for a canonical place. -/
theorem Disk.resolveParts_canonical {disk : Disk} {links : Nat}
    {written place parts result : List Bytes} (leads : disk.Leads written place)
    (free : ∀ part ∈ parts, Path.slash ∉ part)
    (resolved : disk.resolveParts links written parts = .ok result) :
    ∃ target, disk.Canonical target ∧ Path.clean (Path.ofParts result) = Path.ofParts target := by
  -- a link leads on with fewer links left, any other part with fewer parts
  induction links using Nat.strongRecOn generalizing written place parts with
  | ind links fewer =>
    induction parts generalizing written place with
    | nil =>
        rw [Disk.resolveParts_nil] at resolved
        cases resolved
        exact ⟨place, .directory leads.settled, leads.clean⟩
    | cons part rest ih =>
        have restFree : ∀ other ∈ rest, Path.slash ∉ other :=
          fun other member => free other (List.mem_cons_of_mem part member)
        by_cases skipped : (decide (part = []) || decide (part = Path.here)) = true
        · rw [Disk.resolveParts_skip skipped] at resolved
          exact ih leads restFree resolved
        by_cases above : part = Path.above
        · rw [above, Disk.resolveParts_above] at resolved
          exact ih leads.above restFree resolved
        have name := Path.IsName.of_free (free part List.mem_cons_self) skipped above
        rcases Disk.resolveParts_name_eq_ok name resolved with
          ⟨entries, found, onward⟩ | ⟨data, found, rfl⟩ | ⟨target, left, found, rfl, onward⟩
        · have settled := Disk.Settled.down leads.settled name (leads.linkStat name found)
          exact ih (.down leads settled) restFree onward
        · exact ⟨_, .file leads.settled name (leads.linkStat name found),
            leads.clean_concat name⟩
        · have targetFree : ∀ other ∈ Path.parts target ++ rest, Path.slash ∉ other :=
            List.forall_mem_append.mpr
              ⟨fun _ member => Bytes.not_mem_of_mem_splitOn member, restFree⟩
          split at onward
          · exact fewer left left.lt_succ_self .root targetFree onward
          · exact fewer left left.lt_succ_self leads targetFree onward

theorem Disk.Settled.resolveParts {disk : Disk} {place : List Bytes} (settled : disk.Settled place)
    (links : Nat) (rest : List Bytes) :
    disk.resolveParts links [] (place ++ rest) = disk.resolveParts links place rest := by
  induction settled generalizing rest with
  | root => rfl
  | down before name found ih =>
      rw [List.append_assoc, ih]
      exact Disk.resolveParts_directory name found

theorem Disk.Canonical.resolveParts {disk : Disk} {place : List Bytes}
    (canonical : disk.Canonical place) (links : Nat) :
    disk.resolveParts links [] place = .ok place := by
  cases canonical with
  | directory settled =>
      have resolved := settled.resolveParts links []
      rw [List.append_nil] at resolved
      rw [resolved, Disk.resolveParts_nil]
  | file settled name found =>
      rw [settled.resolveParts, Disk.resolveParts_file name found]
      rfl

theorem Disk.canonical_eq_ok {disk : Disk} {path key : Bytes}
    (success : disk.canonical path = .ok key) :
    ∃ place, disk.Canonical place ∧ key = Path.ofParts place := by
  obtain ⟨result, resolved, finish⟩ := bind_eq_ok success
  cases finish
  exact Disk.resolveParts_canonical .root
    (fun _ member => Bytes.not_mem_of_mem_splitOn member) resolved

theorem Disk.Canonical.canonical {disk : Disk} {place : List Bytes}
    (canonical : disk.Canonical place) :
    disk.canonical (Path.ofParts place) = .ok (Path.ofParts place) := by
  have cleaned := Path.clean_ofParts_names canonical.names
  have absolute : disk.absolute (Path.ofParts place) = Path.ofParts place := cleaned
  have resolved : disk.resolveParts Disk.canonicalLinkLimit [] (Path.parts (Path.ofParts place)) =
      .ok place := by
    cases place with
    | nil =>
        have twoEmpty : Path.parts (Path.ofParts []) = [[], []] := rfl
        rw [twoEmpty, Disk.resolveParts_skip rfl, Disk.resolveParts_skip rfl,
          Disk.resolveParts_nil]
    | cons first others =>
        rw [Path.parts_ofParts (List.cons_ne_nil first others)
          fun part member => (canonical.names part member).noSlash, Disk.resolveParts_skip rfl]
        exact canonical.resolveParts Disk.canonicalLinkLimit
  simp only [Disk.canonical, absolute, resolved, bind, Except.bind, cleaned]
  rfl

/-- Taking the canonical form of a canonical path changes nothing. -/
theorem Disk.canonical_idempotent {disk : Disk} {path key : Bytes}
    (success : disk.canonical path = .ok key) : disk.canonical key = .ok key := by
  obtain ⟨place, canonical, rfl⟩ := Disk.canonical_eq_ok success
  exact canonical.canonical

/-! ## Opening by canonical paths -/

theorem Disk.canonicalPath_eq_ok_iff {disk : Disk} {path key : Bytes} :
    disk.canonicalPath path = .ok key ↔ disk.canonical path = .ok key := by
  rw [Disk.canonicalPath, mapError_eq_ok_iff]

theorem Disk.openClass_of_canonicalPath {disk : Disk} {path key : Bytes} (options : OpenOptions)
    (canonical : disk.canonicalPath path = .ok key) :
    disk.openClass options path =
      disk.readClassFile options key >>= fun data =>
        (decode options.mode data).mapError (.undecodable path) := by
  rw [Disk.openClass, canonical]
  rfl

/-- Two outcomes of opening that differ at most in the path before a decode error. -/
def OpensAlike (key path : Bytes) (byKey byPath : Except OpenError ClassFile) : Prop :=
  byKey = byPath ∨
    ∃ reason, byKey = .error (.undecodable key reason) ∧ byPath = .error (.undecodable path reason)

theorem Disk.openClass_alike {disk : Disk} {path key : Bytes} (options : OpenOptions)
    (canonical : disk.canonicalPath path = .ok key) :
    OpensAlike key path (disk.openClass options key) (disk.openClass options path) := by
  have again : disk.canonicalPath key = .ok key :=
    Disk.canonicalPath_eq_ok_iff.mpr
      (Disk.canonical_idempotent (Disk.canonicalPath_eq_ok_iff.mp canonical))
  rw [Disk.openClass_of_canonicalPath options again,
    Disk.openClass_of_canonicalPath options canonical]
  cases disk.readClassFile options key with
  | error error => exact .inl rfl
  | ok data =>
      simp only [bind, Except.bind]
      cases decode options.mode data with
      | error reason => exact .inr ⟨reason, rfl, rfl⟩
      | ok file => exact .inl rfl

end ClassAudit
