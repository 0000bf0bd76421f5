import ClassAudit.FileTree.Expansion
import ClassAudit.Proofs.PathMeaningProperties
import ClassAudit.Proofs.SortingProperties

/-!
# Expanded directories

A directory stands for the class files below it at any depth. They are listed in the order of the
names that lead to them, compared name by name, so that all of a directory stands together. The
directories below are opened by cleaned paths, so that a path which steps up from a link is not
walked where it leads.
-/

set_option autoImplicit false

namespace ClassAudit

/-! ## Order of places -/

/-- A place precedes another when its name comes first where the two part. -/
def PlacePrecedes (earlier later : List Bytes) : Prop :=
  ∃ shared left right lefts rights, earlier = shared ++ left :: lefts ∧
    later = shared ++ right :: rights ∧ Bytes.lt left right = true

theorem PlacePrecedes.append {earlier later : List Bytes} (precedes : PlacePrecedes earlier later)
    (before : List Bytes) : PlacePrecedes (before ++ earlier) (before ++ later) := by
  obtain ⟨shared, left, right, lefts, rights, rfl, rfl, less⟩ := precedes
  refine ⟨before ++ shared, left, right, lefts, rights, ?_, ?_, less⟩
  · rw [List.append_assoc]
  · rw [List.append_assoc]

theorem Bytes.lt_irrefl (name : Bytes) : Bytes.lt name name = false := by
  rw [Bytes.lt, (Bool.or_self _).symm.trans (Bytes.le_total name name)]
  rfl

theorem Bytes.lt_of_le_of_ne {left right : Bytes} (less : left.le right = true)
    (apart : left ≠ right) : Bytes.lt left right = true := by
  cases back : right.le left with
  | true => exact absurd (Bytes.le_antisymm left right less back) apart
  | false => rw [Bytes.lt, back]; rfl

theorem not_placePrecedes_self (place : List Bytes) : ¬ PlacePrecedes place place := by
  intro precedes
  obtain ⟨shared, left, right, lefts, rights, rfl, same, less⟩ := precedes
  cases List.append_cancel_left same
  rw [Bytes.lt_irrefl] at less
  cases less

/-! ## Class files below -/

/-- A class file below a node, by the names that lead to it. A link counts as a file and is not
followed. -/
def FileNode.HoldsClassFile (node : FileNode) (place : List Bytes) : Prop :=
  ∃ before name leaf, place = before ++ [name] ∧ node.descend? place = some leaf ∧
    leaf.isDirectory = false ∧ isClassFileName name = true

/-- A class file that an entry of a directory is, or that lies below it. -/
def EntryHolds (entry : Bytes × FileNode) (place : List Bytes) : Prop :=
  ∃ rest, place = entry.1 :: rest ∧
    (rest = [] ∧ entry.2.isDirectory = false ∧ isClassFileName entry.1 = true ∨
      entry.2.HoldsClassFile rest)

namespace FileNode

theorem holdsClassFile_iff {entries : List (Bytes × FileNode)}
    (distinct : (entries.map Prod.fst).Nodup) {place : List Bytes} :
    (directory entries).HoldsClassFile place ↔ ∃ entry ∈ entries, EntryHolds entry place := by
  constructor
  · intro holds
    obtain ⟨before, name, leaf, rfl, reached, isLeaf, isClass⟩ := holds
    cases before with
    | nil =>
        obtain ⟨node, found, same⟩ := descend?_cons_eq_some_iff.mp reached
        cases same
        exact ⟨(name, leaf), (lookup_eq_some_iff_mem distinct).mp found, [], rfl,
          .inl ⟨rfl, isLeaf, isClass⟩⟩
    | cons first before =>
        obtain ⟨node, found, deeper⟩ := descend?_cons_eq_some_iff.mp reached
        exact ⟨(first, node), (lookup_eq_some_iff_mem distinct).mp found, before ++ [name], rfl,
          .inr ⟨before, name, leaf, rfl, deeper, isLeaf, isClass⟩⟩
  · intro held
    obtain ⟨⟨name, node⟩, member, rest, rfl, holds⟩ := held
    have found := (lookup_eq_some_iff_mem distinct).mpr member
    rcases holds with ⟨rfl, isLeaf, isClass⟩ | ⟨before, last, leaf, rfl, reached, isLeaf, isClass⟩
    · exact ⟨[], name, node, rfl, descend?_cons_eq_some_iff.mpr ⟨node, found, rfl⟩, isLeaf, isClass⟩
    · exact ⟨name :: before, last, leaf, rfl,
        descend?_cons_eq_some_iff.mpr ⟨node, found, reached⟩, isLeaf, isClass⟩

theorem not_holdsClassFile_of_leaf {node : FileNode} (isLeaf : node.isDirectory = false)
    (place : List Bytes) : ¬ node.HoldsClassFile place := by
  intro holds
  obtain ⟨before, name, leaf, rfl, reached, -⟩ := holds
  cases before with
  | nil =>
      rw [List.nil_append, descend?_cons_of_leaf isLeaf] at reached
      cases reached
  | cons first before =>
      rw [List.cons_append, descend?_cons_of_leaf isLeaf] at reached
      cases reached

end FileNode

/-! ## Listings -/

/-- A listing that shows what is held below a path, each place once and in order. -/
def ShowsBelow (path : Bytes) (holds : List Bytes → Prop) (listing : Listing) : Prop :=
  ∃ places : List (List Bytes), listing = .ok (places.map (Path.below path)) ∧
    (∀ place, place ∈ places ↔ holds place) ∧ places.Pairwise PlacePrecedes

theorem ShowsBelow.congr {path : Bytes} {holds others : List Bytes → Prop} {listing : Listing}
    (shows : ShowsBelow path holds listing) (same : ∀ place, holds place ↔ others place) :
    ShowsBelow path others listing := by
  obtain ⟨places, listed, complete, ordered⟩ := shows
  exact ⟨places, listed, fun place => (complete place).trans (same place), ordered⟩

/-- What stands below a directory is shown from the path above it as well. -/
theorem ShowsBelow.entry {path : Bytes} {entry : Bytes × FileNode} {listing : Listing}
    (isDirectory : entry.2.isDirectory = true)
    (shows : ShowsBelow (Path.join path entry.1) entry.2.HoldsClassFile listing) :
    ShowsBelow path (EntryHolds entry) listing := by
  obtain ⟨places, listed, complete, ordered⟩ := shows
  refine ⟨places.map (entry.1 :: ·), ?_, ?_, ?_⟩
  · rw [listed, List.map_map]
    rfl
  · intro place
    rw [List.mem_map]
    constructor
    · intro shown
      obtain ⟨rest, member, rfl⟩ := shown
      exact ⟨rest, rfl, .inr ((complete rest).mp member)⟩
    · intro held
      obtain ⟨rest, rfl, ⟨-, isLeaf, -⟩ | holds⟩ := held
      · rw [isDirectory] at isLeaf
        cases isLeaf
      · exact ⟨rest, (complete rest).mpr holds, rfl⟩
  · rw [List.pairwise_map]
    exact ordered.imp fun precedes => precedes.append [entry.1]

theorem showsBelow_leaf {path : Bytes} {entry : Bytes × FileNode}
    (isLeaf : entry.2.isDirectory = false) :
    ShowsBelow path (EntryHolds entry)
      (if isClassFileName entry.1 then .ok [Path.join path entry.1] else .ok []) := by
  have none := FileNode.not_holdsClassFile_of_leaf isLeaf
  by_cases isClass : isClassFileName entry.1 = true
  · rw [if_pos isClass]
    refine ⟨[[entry.1]], rfl, ?_, List.pairwise_singleton _ _⟩
    intro place
    rw [List.mem_singleton]
    constructor
    · intro same
      exact ⟨[], same, .inl ⟨rfl, isLeaf, isClass⟩⟩
    · intro held
      obtain ⟨rest, rfl, ⟨rfl, -⟩ | holds⟩ := held
      · rfl
      · exact absurd holds (none rest)
  · rw [if_neg isClass]
    refine ⟨[], rfl, ?_, .nil⟩
    intro place
    constructor
    · intro member
      cases member
    · intro held
      obtain ⟨rest, rfl, ⟨-, -, yes⟩ | holds⟩ := held
      · exact absurd yes isClass
      · exact absurd holds (none rest)

/-- The listings of entries in strictly rising order of their names, one after the other. -/
theorem mapM_showsBelow {path : Bytes} {listing : Bytes × FileNode → Listing}
    {entries : List (Bytes × FileNode)}
    (each : ∀ entry ∈ entries, ShowsBelow path (EntryHolds entry) (listing entry))
    (rising : entries.Pairwise fun left right => Bytes.lt left.1 right.1 = true) :
    ShowsBelow path (fun place => ∃ entry ∈ entries, EntryHolds entry place)
      ((entries.mapM listing).map List.flatten) := by
  induction entries with
  | nil =>
      refine ⟨[], rfl, ?_, .nil⟩
      simp
  | cons entry entries ih =>
      obtain ⟨first, others⟩ := List.forall_mem_cons.mp each
      obtain ⟨before, rest⟩ := List.pairwise_cons.mp rising
      obtain ⟨places, listed, complete, ordered⟩ := first
      obtain ⟨later, listedLater, completeLater, orderedLater⟩ := ih others rest
      obtain ⟨lists, walked, flat⟩ := map_eq_ok_iff.mp listedLater
      refine ⟨places ++ later, ?_, ?_, ?_⟩
      · rw [List.mapM_cons, listed, walked, List.map_append, flat]
        rfl
      · intro place
        simp only [List.mem_append, complete, completeLater, List.exists_mem_cons_iff]
      · refine List.pairwise_append.mpr ⟨ordered, orderedLater, ?_⟩
        intro left shown right shownLater
        obtain ⟨lefts, rfl, -⟩ := (complete left).mp shown
        obtain ⟨other, member, rights, rfl, -⟩ := (completeLater right).mp shownLater
        exact ⟨[], entry.1, other.1, lefts, rights, rfl, rfl, before other member⟩

theorem mergeSort_entries_rising {entries : List (Bytes × FileNode)}
    (distinct : (entries.map Prod.fst).Nodup) :
    (entries.mergeSort fun left right => left.1.le right.1).Pairwise fun left right =>
      Bytes.lt left.1 right.1 = true := by
  have sorted : (entries.mergeSort fun left right => left.1.le right.1).Pairwise
      fun left right => left.1.le right.1 = true :=
    List.pairwise_mergeSort (fun first second third => Bytes.le_trans first.1 second.1 third.1)
      (fun first second => Bytes.le_total first.1 second.1) entries
  have apart : (entries.mergeSort fun left right => left.1.le right.1).Pairwise fun left right =>
      left.1 ≠ right.1 := by
    rw [← List.pairwise_map]
    exact ((List.mergeSort_perm entries _).map Prod.fst).nodup_iff.mpr distinct
  exact (sorted.and apart).imp fun both => Bytes.lt_of_le_of_ne both.1 both.2

theorem mapM_map_snd {entries : List (Bytes × FileNode)} (listing : Bytes × FileNode → Listing) :
    (entries.map fun entry => (entry.1, listing entry)).mapM Prod.snd =
      entries.mapM listing := by
  induction entries with
  | nil => rfl
  | cons entry entries ih => simp only [List.map_cons, List.mapM_cons, ih]

/-- Listings are joined in the order in which their names rise. -/
theorem joinListings_of_rising {listings ordered : List (Bytes × Listing)}
    (same : listings.Perm ordered)
    (rising : ordered.Pairwise fun left right => Bytes.lt left.1 right.1 = true) :
    joinListings listings = (ordered.mapM Prod.snd).map List.flatten := by
  have sorted : listings.mergeSort (fun left right => left.1.le right.1) = ordered := by
    refine mergeSort_eq_of_rising
      (fun first second third => Bytes.le_trans first.1 second.1 third.1)
      (fun first second => Bytes.le_total first.1 second.1) same ?_
    refine rising.imp ?_
    intro left right below
    exact (Bool.not_eq_true' _).mp below
  rw [joinListings, sorted]
  rfl

/-- The listings of the entries of a directory, whatever order they stand in. -/
theorem joinListings_showsBelow {path : Bytes} {listing : Bytes × FileNode → Listing}
    {entries : List (Bytes × FileNode)} (distinct : (entries.map Prod.fst).Nodup)
    (each : ∀ entry ∈ entries, ShowsBelow path (EntryHolds entry) (listing entry)) :
    ShowsBelow path (FileNode.directory entries).HoldsClassFile
      (joinListings (entries.map fun entry => (entry.1, listing entry))) := by
  have rising := mergeSort_entries_rising distinct
  have same := (List.mergeSort_perm entries fun left right => left.1.le right.1).symm
  rw [joinListings_of_rising (same.map _) (List.pairwise_map.mpr rising), mapM_map_snd]
  refine (mapM_showsBelow (fun entry member => each entry (List.mem_mergeSort.mp member))
    rising).congr ?_
  intro place
  simp only [List.mem_mergeSort]
  exact (FileNode.holdsClassFile_iff distinct).symm

/-! ## Trees -/

/-- What an entry of a directory at a path stands for. -/
def childListing (path : Bytes) (entry : Bytes × FileNode) : Listing :=
  if entry.2.isDirectory then entry.2.classFiles (Path.join path entry.1)
  else if isClassFileName entry.1 then .ok [Path.join path entry.1]
  else .ok []

theorem entryListings_eq_map (path : Bytes) (entries : List (Bytes × FileNode)) :
    entryListings path entries = entries.map fun entry => (entry.1, childListing path entry) := by
  induction entries with
  | nil => rw [entryListings, List.map_nil]
  | cons entry entries ih =>
      rw [entryListings, ih]
      rfl

/-- Whether every directory of a tree has a path that is short enough to be opened. -/
def FileNode.Openable (node : FileNode) (path : Bytes) : Prop :=
  ∀ place entries, node.descend? place = some (.directory entries) →
    (Path.below path place).length < 4096

theorem FileNode.Openable.of_leaf {node : FileNode} {path : Bytes}
    (isLeaf : node.isDirectory = false) : node.Openable path :=
  fun _ _ reached => absurd reached (not_directory_of_leaf isLeaf)

theorem FileNode.Openable.of_entries {path : Bytes} {entries : List (Bytes × FileNode)}
    (short : path.length < 4096)
    (each : ∀ entry ∈ entries, entry.2.Openable (Path.join path entry.1)) :
    (directory entries).Openable path := by
  intro place inner reached
  rcases directory_cases reached with ⟨rfl, -⟩ | ⟨entry, member, rest, rfl, deeper⟩
  · exact short
  · exact each entry member rest inner deeper

theorem FileNode.classFiles_showsBelow (node : FileNode) :
    ∀ path, node.isDirectory = true → node.WellFormed → node.Openable path →
      ShowsBelow path node.HoldsClassFile (node.classFiles path) := by
  induction node using FileNode.induction with
  | file data =>
      intro path isDirectory
      cases isDirectory
  | link target =>
      intro path isDirectory
      cases isDirectory
  | directory entries ih =>
      intro path _ wellFormed openable
      have distinct := (wellFormed [] entries rfl).1
      have short : ¬ 4096 ≤ path.length := Nat.not_le.mpr (openable [] entries rfl)
      rw [FileNode.classFiles, if_neg short, entryListings_eq_map]
      refine joinListings_showsBelow distinct ?_
      intro entry member
      have found := (lookup_eq_some_iff_mem distinct).mpr member
      unfold childListing
      cases isDirectory : entry.2.isDirectory with
      | false => exact showsBelow_leaf isDirectory
      | true =>
          have reached : (directory entries).descend? [entry.1] = some entry.2 :=
            descend?_cons_eq_some_iff.mpr ⟨entry.2, found, rfl⟩
          refine .entry isDirectory (ih entry member _ isDirectory (wellFormed.descend reached) ?_)
          intro place inner deeper
          exact openable (entry.1 :: place) inner
            (descend?_cons_eq_some_iff.mpr ⟨entry.2, found, deeper⟩)

/-! ## Inputs -/

namespace Disk

/-- A directory among the inputs that can be walked. It is no link, its path means the same when
it is cleaned as a text, and all directories below have paths that can be opened. -/
structure Walkable (disk : Disk) (input : Bytes) (entries : List (Bytes × FileNode)) : Prop where
  real : disk.linkStat input = .ok (.directory entries)
  settled : disk.stat (Path.clean input) = .ok (.directory entries)
  openable : (FileNode.directory entries).Openable input

variable {disk : Disk} {input : Bytes} {entries : List (Bytes × FileNode)}

theorem walkInput_of_directory (isDirectory : disk.stat input = .ok (.directory entries))
    (real : disk.linkStat input = .ok (.directory entries)) :
    disk.walkInput input =
      (joinListings (entries.map fun entry => (entry.1, disk.entryListing input entry))).mapError
        (WalkError.mk input) := by
  rw [walkInput, isDirectory, real]

theorem walkInput_of_link {target : Bytes}
    (isDirectory : disk.stat input = .ok (.directory entries))
    (isLink : disk.linkStat input = .ok (.link target)) :
    disk.walkInput input =
      .ok (if isClassFileName (Path.baseName input) then [input] else []) := by
  rw [walkInput, isDirectory, isLink]

theorem walkInput_of_other (noDirectory : ∀ entries, disk.stat input ≠ .ok (.directory entries)) :
    disk.walkInput input = .ok [input] := by
  unfold walkInput
  split
  · next isDirectory _ => exact absurd isDirectory (noDirectory _)
  · next isDirectory _ => exact absurd isDirectory (noDirectory _)
  · rfl

theorem walk_singleton (disk : Disk) (input : Bytes) :
    disk.walk [input] = disk.walkInput input := by
  rw [walk, List.mapM_cons, List.mapM_nil]
  cases disk.walkInput input with
  | error reason => rfl
  | ok files => exact congrArg Except.ok (List.append_nil files)

theorem walk_of_directory {ordered : List (Bytes × Listing)} {files : List Bytes}
    (isDirectory : disk.stat input = .ok (.directory entries))
    (real : disk.linkStat input = .ok (.directory entries))
    (same : ordered.Perm (entries.map fun entry => (entry.1, disk.entryListing input entry)))
    (rising : ordered.Pairwise fun left right => Bytes.lt left.1 right.1 = true)
    (flat : (ordered.mapM Prod.snd).map List.flatten = .ok files) :
    disk.walk [input] = .ok files := by
  rw [walk_singleton, walkInput_of_directory isDirectory real, joinListings_of_rising same.symm
    rising, flat]
  rfl

theorem walk_append {before after first second : List Bytes}
    (walkedFirst : disk.walk before = .ok first) (walkedSecond : disk.walk after = .ok second) :
    disk.walk (before ++ after) = .ok (first ++ second) := by
  obtain ⟨lists, listed, same⟩ := bind_eq_ok walkedFirst
  obtain ⟨others, listedOthers, sameOthers⟩ := bind_eq_ok walkedSecond
  cases same
  cases sameOthers
  rw [walk, List.mapM_append, listed, listedOthers]
  exact congrArg Except.ok List.flatten_append

theorem exists_walk {inputs : List Bytes}
    (each : ∀ input ∈ inputs, ∃ files, disk.walk [input] = .ok files) :
    ∃ files, disk.walk inputs = .ok files := by
  induction inputs with
  | nil => exact ⟨[], rfl⟩
  | cons input inputs ih =>
      obtain ⟨⟨first, walkedFirst⟩, others⟩ := List.forall_mem_cons.mp each
      obtain ⟨second, walkedSecond⟩ := ih others
      exact ⟨first ++ second, walk_append walkedFirst walkedSecond⟩

namespace Walkable

theorem find {followLast : Bool} {place : List Bytes} {leaf : FileNode}
    (walkable : disk.Walkable input entries) (tree : (FileNode.directory entries).WellFormed)
    (moves : place ≠ []) (reached : (FileNode.directory entries).descend? place = some leaf)
    (final : followLast = false ∨ ∀ target, leaf ≠ .link target)
    (short : (Path.below input place).length < 4096) :
    disk.find followLast (Path.below input place) = .ok leaf := by
  have areNames := tree.names reached
  rcases List.eq_nil_or_concat' place with rfl | ⟨names, name, rfl⟩
  · exact absurd rfl moves
  · exact find_below walkable.settled reached areNames final short

theorem entryListing (walkable : disk.Walkable input entries)
    (tree : (FileNode.directory entries).WellFormed) {entry : Bytes × FileNode}
    (member : entry ∈ entries) :
    ShowsBelow input (EntryHolds entry) (disk.entryListing input entry) := by
  have found := (lookup_eq_some_iff_mem (tree [] entries rfl).1).mpr member
  unfold Disk.entryListing
  cases isInner : entry.2.isDirectory with
  | false => exact showsBelow_leaf isInner
  | true =>
      obtain ⟨name, node⟩ := entry
      cases node with
      | file data => cases isInner
      | link target => cases isInner
      | directory inner =>
          have reached : (FileNode.directory entries).descend? [name] = some (.directory inner) :=
            FileNode.descend?_cons_eq_some_iff.mpr ⟨_, found, rfl⟩
          have opened : disk.stat (Path.join input name) = .ok (.directory inner) :=
            walkable.find tree (List.cons_ne_nil _ _) reached
              (.inr (FileNode.directory_ne_link inner)) (walkable.openable [name] inner reached)
          have listed : disk.listDirectory (Path.join input name) =
              (FileNode.directory inner).classFiles (Path.join input name) := by
            rw [listDirectory, opened]
          refine .entry rfl ?_
          rw [if_pos rfl, listed]
          refine FileNode.classFiles_showsBelow _ _ rfl (tree.descend reached) ?_
          intro place deeper below
          exact walkable.openable (name :: place) deeper
            (FileNode.descend?_cons_eq_some_iff.mpr ⟨_, found, below⟩)

theorem walkInput_showsBelow (walkable : disk.Walkable input entries)
    (tree : (FileNode.directory entries).WellFormed)
    (isDirectory : disk.stat input = .ok (.directory entries)) :
    ∃ places : List (List Bytes), disk.walkInput input = .ok (places.map (Path.below input)) ∧
      (∀ place, place ∈ places ↔ (FileNode.directory entries).HoldsClassFile place) ∧
      places.Pairwise PlacePrecedes := by
  obtain ⟨places, listed, complete, ordered⟩ := joinListings_showsBelow (tree [] entries rfl).1
    fun entry member => walkable.entryListing tree member
  refine ⟨places, ?_, complete, ordered⟩
  rw [walkInput_of_directory isDirectory walkable.real, listed]
  rfl

end Walkable

/-- What a directory stands for as an input: a path for every class file below it, which names
that file and consists of the parts of the input and the names on the way. The paths are in the
order of their parts. -/
structure ListsClassFiles (disk : Disk) (input : Bytes) (node : FileNode) (files : List Bytes) :
    Prop where
  complete : ∀ file, file ∈ files ↔
    ∃ place, node.HoldsClassFile place ∧ file = Path.below input place
  placed : ∀ place, node.HoldsClassFile place →
    Path.cleanParts (Path.below input place) = Path.cleanParts input ++ place
  named : ∀ place leaf, node.HoldsClassFile place → node.descend? place = some leaf →
    (Path.below input place).length < 4096 → disk.linkStat (Path.below input place) = .ok leaf
  distinct : files.Nodup
  rising : files.Pairwise fun earlier later =>
    PlacePrecedes (Path.cleanParts earlier) (Path.cleanParts later)

theorem Walkable.listsClassFiles (walkable : disk.Walkable input entries)
    (wellFormed : disk.root.WellFormed) (isDirectory : disk.stat input = .ok (.directory entries)) :
    ∃ files, disk.walk [input] = .ok files ∧
      disk.ListsClassFiles input (.directory entries) files := by
  have tree := wellFormed_of_stat wellFormed isDirectory
  obtain ⟨places, listed, complete, ordered⟩ := walkable.walkInput_showsBelow tree isDirectory
  have placed : ∀ place, (FileNode.directory entries).HoldsClassFile place →
      Path.cleanParts (Path.below input place) = Path.cleanParts input ++ place := by
    intro place holds
    obtain ⟨before, name, leaf, -, reached, -⟩ := holds
    exact Path.cleanParts_below fun name member => (tree.names reached name member).toIsName
  have rising : (places.map (Path.below input)).Pairwise fun earlier later =>
      PlacePrecedes (Path.cleanParts earlier) (Path.cleanParts later) := by
    rw [List.pairwise_map]
    refine ordered.imp_of_mem ?_
    intro earlier later shown shownLater precedes
    rw [placed earlier ((complete earlier).mp shown), placed later ((complete later).mp shownLater)]
    exact precedes.append _
  refine ⟨_, (walk_singleton disk input).trans listed, ?_, placed, ?_, ?_, rising⟩
  · intro file
    simp only [List.mem_map, complete, eq_comm]
  · intro place leaf holds reached short
    obtain ⟨before, name, -, rfl, -⟩ := holds
    exact walkable.find tree (by simp) reached (.inl rfl) short
  · refine rising.imp ?_
    intro earlier later precedes same
    rw [same] at precedes
    exact not_placePrecedes_self _ precedes

end Disk

/-- Inputs are walked one after the other. What is no directory stays as it is, and a directory
that can be walked gives way to the class files below it, in order. -/
theorem walk_lists_directories_in_order {disk : Disk} {inputs : List Bytes}
    (wellFormed : disk.root.WellFormed)
    (walkable : ∀ input ∈ inputs, ∀ entries,
      disk.stat input = .ok (.directory entries) → disk.Walkable input entries) :
    (∀ before after, inputs = before ++ after →
      ∃ first second, disk.walk before = .ok first ∧ disk.walk after = .ok second ∧
        disk.walk inputs = .ok (first ++ second)) ∧
    ∀ input ∈ inputs,
      ((∀ entries, disk.stat input ≠ .ok (.directory entries)) → disk.walk [input] = .ok [input]) ∧
      ∀ entries, disk.stat input = .ok (.directory entries) →
        ∃ files, disk.walk [input] = .ok files ∧
          disk.ListsClassFiles input (.directory entries) files := by
  have kept : ∀ input, (∀ entries, disk.stat input ≠ .ok (.directory entries)) →
      disk.walk [input] = .ok [input] :=
    fun input noDirectory => (disk.walk_singleton input).trans (Disk.walkInput_of_other noDirectory)
  have listed : ∀ input ∈ inputs, ∀ entries, disk.stat input = .ok (.directory entries) →
      ∃ files, disk.walk [input] = .ok files ∧
        disk.ListsClassFiles input (.directory entries) files :=
    fun input member entries isDirectory =>
      (walkable input member entries isDirectory).listsClassFiles wellFormed isDirectory
  have walked : ∀ input ∈ inputs, ∃ files, disk.walk [input] = .ok files := by
    intro input member
    by_cases isDirectory : ∃ entries, disk.stat input = .ok (.directory entries)
    · obtain ⟨entries, isDirectory⟩ := isDirectory
      obtain ⟨files, walks, -⟩ := listed input member entries isDirectory
      exact ⟨files, walks⟩
    · exact ⟨[input], kept input fun entries found => isDirectory ⟨entries, found⟩⟩
  refine ⟨?_, fun input member => ⟨kept input, listed input member⟩⟩
  intro before after split
  subst split
  obtain ⟨front, back⟩ := List.forall_mem_append.mp walked
  obtain ⟨first, walkedFirst⟩ := Disk.exists_walk front
  obtain ⟨second, walkedSecond⟩ := Disk.exists_walk back
  exact ⟨first, second, walkedFirst, walkedSecond, Disk.walk_append walkedFirst walkedSecond⟩

/-- A directory with a directory, a class file and a link in it, and a link to the inner one. A
directory of the same name as the inner one stands beside it. -/
def nestedTree : Disk :=
  ⟨.directory [("d", .directory [("a.class", .file []),
      ("a", .directory [("B.class", .file []), ("e.class", .directory [])]),
      ("l.class", .link "a")]),
    ("a", .directory [("C.class", .file [])]), ("l", .link "d/a")], []⟩

def nestedEntries : List (Bytes × FileNode) :=
  [("a.class", .file []), ("a", .directory [("B.class", .file []), ("e.class", .directory [])]),
    ("l.class", .link "a")]

theorem nestedTree_wellFormed : nestedTree.root.WellFormed := by
  have empty : (FileNode.directory []).WellFormed := .of_entries (by decide) (List.forall_mem_nil _)
  refine .of_entries (by decide) ?_
  simp only [List.forall_mem_cons]
  refine ⟨⟨by decide, .of_entries (by decide) ?_⟩, ⟨by decide, .of_entries (by decide) ?_⟩,
    ⟨by decide, .of_leaf rfl⟩, List.forall_mem_nil _⟩
  · simp only [List.forall_mem_cons]
    refine ⟨⟨by decide, .of_leaf rfl⟩, ⟨by decide, .of_entries (by decide) ?_⟩,
      ⟨by decide, .of_leaf rfl⟩, List.forall_mem_nil _⟩
    simp only [List.forall_mem_cons]
    exact ⟨⟨by decide, .of_leaf rfl⟩, ⟨by decide, empty⟩, List.forall_mem_nil _⟩
  · exact List.forall_mem_singleton.mpr ⟨by decide, .of_leaf rfl⟩

theorem nestedEntries_openable {path : Bytes} (short : path.length < 4096)
    (inner : (Path.join path "a").length < 4096)
    (innermost : (Path.join (Path.join path "a") "e.class").length < 4096) :
    (FileNode.directory nestedEntries).Openable path := by
  refine .of_entries short ?_
  simp only [nestedEntries, List.forall_mem_cons]
  refine ⟨.of_leaf rfl, .of_entries inner ?_, .of_leaf rfl, List.forall_mem_nil _⟩
  simp only [List.forall_mem_cons]
  exact ⟨.of_leaf rfl, .of_entries innermost (List.forall_mem_nil _), List.forall_mem_nil _⟩

theorem nestedTree_lists_inner : nestedTree.listDirectory "d/a" = .ok ["d/a/B.class"] := by
  have listings : entryListings "d/a" [("B.class", .file []), ("e.class", .directory [])] =
      ([("B.class", .ok ["d/a/B.class"]), ("e.class", .ok [])] : List (Bytes × Listing)) := by
    decide +kernel
  change joinListings (entryListings "d/a" _) = _
  rw [listings, joinListings_of_rising (List.Perm.refl _) (by decide)]
  rfl

theorem nestedTree_walk_outer :
    nestedTree.walk ["d/"] = .ok ["d/a/B.class", "d/a.class", "d/l.class"] := by
  have isDirectory : nestedTree.stat "d/" = .ok (.directory nestedEntries) := rfl
  have same : ([("a", nestedTree.listDirectory "d/a"), ("a.class", .ok ["d/a.class"]),
      ("l.class", .ok ["d/l.class"])] : List (Bytes × Listing)).Perm
        (nestedEntries.map fun entry => (entry.1, nestedTree.entryListing "d/" entry)) :=
    .swap _ _ _
  rw [nestedTree_lists_inner] at same
  exact Disk.walk_of_directory isDirectory rfl same (by decide) rfl

theorem walk_lists_directories_in_order_nested :
    nestedTree.root.WellFormed ∧ nestedTree.Walkable "d/" nestedEntries ∧
      nestedTree.walk ["d/", "none"] =
        .ok ["d/a/B.class", "d/a.class", "d/l.class", "none"] ∧
      nestedTree.ListsClassFiles "d/" (.directory nestedEntries)
        ["d/a/B.class", "d/a.class", "d/l.class"] := by
  have outer : nestedTree.stat "d/" = .ok (.directory nestedEntries) := rfl
  have missing : nestedTree.stat "none" = .error .notFound := rfl
  have walked : nestedTree.walk ["d/", "none"] =
      .ok ["d/a/B.class", "d/a.class", "d/l.class", "none"] :=
    Disk.walk_append nestedTree_walk_outer (Disk.walk_singleton nestedTree "none")
  have walkable : nestedTree.Walkable "d/" nestedEntries :=
    ⟨rfl, rfl, nestedEntries_openable (by decide) (by decide) (by decide)⟩
  have each : ∀ input ∈ (["d/", "none"] : List Bytes), ∀ entries,
      nestedTree.stat input = .ok (.directory entries) → nestedTree.Walkable input entries := by
    simp only [List.forall_mem_cons]
    refine ⟨?_, ?_, List.forall_mem_nil _⟩
    · intro entries found
      cases outer.symm.trans found
      exact walkable
    · intro entries found
      cases missing.symm.trans found
  obtain ⟨-, listed⟩ := walk_lists_directories_in_order nestedTree_wellFormed each
  obtain ⟨files, walks, lists⟩ := (listed "d/" List.mem_cons_self).2 nestedEntries outer
  cases nestedTree_walk_outer.symm.trans walks
  exact ⟨nestedTree_wellFormed, walkable, walked, lists⟩

/-- A path that takes a step up from a link means a directory that is not where its text says. The
walk lists what is there, and not the class files below the directory. -/
theorem walk_up_from_link_lists_other_directory :
    nestedTree.root.WellFormed ∧
      nestedTree.stat "l/.." = .ok (.directory nestedEntries) ∧
      nestedTree.linkStat "l/.." = .ok (.directory nestedEntries) ∧
      (FileNode.directory nestedEntries).Openable "l/.." ∧
      (FileNode.directory nestedEntries).HoldsClassFile ["a", "B.class"] ∧
      ¬ (FileNode.directory nestedEntries).HoldsClassFile ["a", "C.class"] ∧
      nestedTree.walk ["l/.."] = .ok ["a/C.class", "a.class", "l.class"] ∧
      ¬ ∃ files, nestedTree.walk ["l/.."] = .ok files ∧
        nestedTree.ListsClassFiles "l/.." (.directory nestedEntries) files := by
  have isDirectory : nestedTree.stat "l/.." = .ok (.directory nestedEntries) := rfl
  have same : ([("a", .ok ["a/C.class"]), ("a.class", .ok ["a.class"]),
      ("l.class", .ok ["l.class"])] : List (Bytes × Listing)).Perm
        (nestedEntries.map fun entry => (entry.1, nestedTree.entryListing "l/.." entry)) := by
    decide +kernel
  have walked : nestedTree.walk ["l/.."] = .ok ["a/C.class", "a.class", "l.class"] :=
    Disk.walk_of_directory isDirectory rfl same (by decide) rfl
  have holds : (FileNode.directory nestedEntries).HoldsClassFile ["a", "B.class"] :=
    ⟨["a"], "B.class", .file [], rfl, rfl, rfl, rfl⟩
  refine ⟨nestedTree_wellFormed, isDirectory, rfl,
    nestedEntries_openable (by decide) (by decide) (by decide), holds, ?_, walked, ?_⟩
  · intro held
    obtain ⟨before, name, leaf, -, reached, -⟩ := held
    cases reached
  · intro listing
    obtain ⟨files, walks, lists⟩ := listing
    cases walked.symm.trans walks
    have listed := (lists.complete _).mpr ⟨_, holds, rfl⟩
    exact absurd listed (by decide)

end ClassAudit
