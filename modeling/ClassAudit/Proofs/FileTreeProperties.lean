import ClassAudit.Proofs.CanonicalProperties
import Mathlib.Data.List.Basic

/-!
# Properties of file trees

How a path is followed, as a relation with one case for every kind of step. A path that is followed
to its end without following a link there stops at that link, and otherwise ends in the same place.
-/

set_option autoImplicit false

namespace ClassAudit

/-! ## Trees -/

namespace FileNode

@[elab_as_elim]
theorem induction {motive : FileNode → Prop} (file : ∀ data, motive (.file data))
    (directory : ∀ entries : List (Bytes × FileNode), (∀ entry ∈ entries, motive entry.2) →
      motive (.directory entries))
    (link : ∀ target, motive (.link target)) (node : FileNode) : motive node :=
  @FileNode.rec motive (fun entries => ∀ entry ∈ entries, motive entry.2)
    (fun entry => motive entry.2) file directory link (List.forall_mem_nil _)
    (fun _ _ first others => List.forall_mem_cons.mpr ⟨first, others⟩) (fun _ _ held => held) node

theorem file_ne_link (data target : Bytes) : file data ≠ link target := by
  intro same
  cases same

theorem directory_ne_link (entries : List (Bytes × FileNode)) (target : Bytes) :
    directory entries ≠ link target := by
  intro same
  cases same

theorem descend?_append {node : FileNode} {place rest : List Bytes} :
    node.descend? (place ++ rest) = (node.descend? place).bind (descend? · rest) := by
  induction place generalizing node with
  | nil => rfl
  | cons name place ih =>
      simp only [List.cons_append, descend?]
      cases node.child? name with
      | none => rfl
      | some child => exact ih

theorem descend?_cons_eq_some_iff {entries : List (Bytes × FileNode)} {name : Bytes}
    {rest : List Bytes} {found : FileNode} :
    (directory entries).descend? (name :: rest) = some found ↔
      ∃ node, entries.lookup name = some node ∧ node.descend? rest = some found := by
  simp only [descend?, child?]
  cases entries.lookup name with
  | none => simp
  | some node => simp

/-- A name that an entry of a directory can have. -/
structure EntryName (name : Bytes) : Prop extends Path.IsName name where
  short : name.length ≤ 255
  noZero : 0 ∉ name

instance (name : Bytes) : Decidable (EntryName name) :=
  decidable_of_iff
    ((name ≠ [] ∧ name ≠ Path.here ∧ name ≠ Path.above ∧ Path.slash ∉ name) ∧
      name.length ≤ 255 ∧ 0 ∉ name)
    ⟨fun held => ⟨⟨held.1.1, held.1.2.1, held.1.2.2.1, held.1.2.2.2⟩, held.2.1, held.2.2⟩,
      fun name => ⟨⟨name.nonempty, name.notHere, name.notAbove, name.noSlash⟩, name.short,
        name.noZero⟩⟩

/-- A tree in which every directory has its entries under distinct names. -/
def WellFormed (node : FileNode) : Prop :=
  ∀ place entries, node.descend? place = some (.directory entries) →
    (entries.map Prod.fst).Nodup ∧ ∀ entry ∈ entries, EntryName entry.1

theorem WellFormed.descend {node found : FileNode} {place : List Bytes}
    (wellFormed : node.WellFormed) (reached : node.descend? place = some found) :
    found.WellFormed := by
  intro deeper entries directory
  apply wellFormed (place ++ deeper)
  rw [descend?_append, reached]
  exact directory

end FileNode

theorem lookup_eq_some_iff_mem {ν : Type} {entries : List (Bytes × ν)}
    (distinct : (entries.map Prod.fst).Nodup) {name : Bytes} {value : ν} :
    entries.lookup name = some value ↔ (name, value) ∈ entries := by
  constructor
  · intro found
    obtain ⟨before, after, rfl, -⟩ := List.lookup_eq_some_iff.mp found
    exact List.mem_append_right _ List.mem_cons_self
  · intro member
    obtain ⟨before, after, rfl⟩ := List.append_of_mem member
    refine List.lookup_eq_some_iff.mpr ⟨before, after, rfl, ?_⟩
    intro entry earlier
    rw [List.map_append, List.nodup_append] at distinct
    rw [bne_iff_ne]
    exact (distinct.2.2 _ (List.mem_map_of_mem earlier) _ List.mem_cons_self).symm

namespace FileNode

/-- A directory in a tree is the tree or stands below one of its entries. -/
theorem directory_cases {entries inner : List (Bytes × FileNode)} {place : List Bytes}
    (reached : (directory entries).descend? place = some (directory inner)) :
    place = [] ∧ inner = entries ∨ ∃ entry ∈ entries, ∃ rest, place = entry.1 :: rest ∧
      entry.2.descend? rest = some (directory inner) := by
  cases place with
  | nil =>
      cases reached
      exact .inl ⟨rfl, rfl⟩
  | cons name rest =>
      obtain ⟨node, present, deeper⟩ := descend?_cons_eq_some_iff.mp reached
      obtain ⟨before, after, rfl, -⟩ := List.lookup_eq_some_iff.mp present
      exact .inr ⟨(name, node), List.mem_append_right _ List.mem_cons_self, rest, rfl, deeper⟩

theorem descend?_cons_of_leaf {node : FileNode} (isLeaf : node.isDirectory = false) (name : Bytes)
    (rest : List Bytes) : node.descend? (name :: rest) = none := by
  cases node with
  | file data => rfl
  | link target => rfl
  | directory entries => cases isLeaf

theorem not_directory_of_leaf {node : FileNode} {inner : List (Bytes × FileNode)}
    {place : List Bytes} (isLeaf : node.isDirectory = false) :
    node.descend? place ≠ some (directory inner) := by
  intro reached
  cases place with
  | nil =>
      cases reached
      cases isLeaf
  | cons name rest =>
      rw [descend?_cons_of_leaf isLeaf] at reached
      cases reached

theorem WellFormed.of_leaf {node : FileNode} (isLeaf : node.isDirectory = false) :
    node.WellFormed :=
  fun _ _ reached => absurd reached (not_directory_of_leaf isLeaf)

theorem WellFormed.of_entries {entries : List (Bytes × FileNode)}
    (distinct : (entries.map Prod.fst).Nodup)
    (each : ∀ entry ∈ entries, EntryName entry.1 ∧ entry.2.WellFormed) :
    (directory entries).WellFormed := by
  intro place inner reached
  rcases directory_cases reached with ⟨-, rfl⟩ | ⟨entry, member, rest, -, deeper⟩
  · exact ⟨distinct, fun entry member => (each entry member).1⟩
  · exact (each entry member).2 rest inner deeper

end FileNode

theorem FileNode.WellFormed.names {node found : FileNode} {place : List Bytes}
    (wellFormed : node.WellFormed) (reached : node.descend? place = some found) :
    ∀ name ∈ place, EntryName name := by
  induction place generalizing node with
  | nil => exact List.forall_mem_nil _
  | cons name place ih =>
      cases node with
      | file data => cases reached
      | link target => cases reached
      | directory entries =>
          obtain ⟨child, present, deeper⟩ := descend?_cons_eq_some_iff.mp reached
          have here := wellFormed [] entries rfl
          have entered : (directory entries).descend? [name] = some child :=
            descend?_cons_eq_some_iff.mpr ⟨child, present, rfl⟩
          refine List.forall_mem_cons.mpr ⟨?_, ih (wellFormed.descend entered) deeper⟩
          exact here.2 (name, child) ((lookup_eq_some_iff_mem here.1).mp present)

/-! ## Following paths -/

/-- The directory at a place has an entry under a name, and a path may name it. -/
structure Disk.Offers (disk : Disk) (place : List Bytes) (part : Bytes) (node : FileNode) :
    Prop where
  present : ∃ entries, disk.node? place = some (.directory entries) ∧
    entries.lookup part = some node
  notHere : part ≠ Path.here
  notAbove : part ≠ Path.above
  short : part.length ≤ 255

/-- Where steps lead from a place. Steps are only taken in directories; a link is followed unless
it is the last step and `followLast` says otherwise. -/
inductive Disk.Follows (disk : Disk) (followLast : Bool) :
    Nat → List Bytes → List Bytes → List Bytes → Prop
  | done {links : Nat} {place : List Bytes} : Disk.Follows disk followLast links place [] place
  | here {links : Nat} {place rest found : List Bytes} {entries : List (Bytes × FileNode)}
      (directory : disk.node? place = some (.directory entries))
      (onward : Disk.Follows disk followLast links place rest found) :
      Disk.Follows disk followLast links place (Path.here :: rest) found
  | up {links : Nat} {place rest found : List Bytes} {entries : List (Bytes × FileNode)}
      (directory : disk.node? place = some (.directory entries))
      (onward : Disk.Follows disk followLast links place.dropLast rest found) :
      Disk.Follows disk followLast links place (Path.above :: rest) found
  | down {links : Nat} {place rest found : List Bytes} {part : Bytes} {node : FileNode}
      (offers : disk.Offers place part node) (noLink : ∀ target, node ≠ .link target)
      (onward : Disk.Follows disk followLast links (place ++ [part]) rest found) :
      Disk.Follows disk followLast links place (part :: rest) found
  | stop {links : Nat} {place : List Bytes} {part target : Bytes}
      (offers : disk.Offers place part (.link target)) (unfollowed : followLast = false) :
      Disk.Follows disk followLast links place [part] (place ++ [part])
  | through {links : Nat} {place rest found : List Bytes} {part target : Bytes}
      (offers : disk.Offers place part (.link target))
      (followed : rest ≠ [] ∨ followLast = true)
      (onward : Disk.Follows disk followLast links
        (if Path.isAbsolute target then [] else place) (Disk.steps target ++ rest) found) :
      Disk.Follows disk followLast (links + 1) place (part :: rest) found

namespace Disk

variable {disk : Disk} {followLast : Bool} {links : Nat} {place steps found : List Bytes}

theorem Offers.node? {part : Bytes} {node : FileNode} (offers : disk.Offers place part node) :
    disk.node? (place ++ [part]) = some node := by
  obtain ⟨entries, directory, present⟩ := offers.present
  rw [node?_concat directory, present]

theorem passes_link_iff {rest : List Bytes} :
    ¬ (rest.isEmpty && !followLast) = true ↔ rest ≠ [] ∨ followLast = true := by
  cases rest with
  | nil => simp
  | cons part rest => simp

theorem Follows.follow (follows : disk.Follows followLast links place steps found) :
    disk.follow followLast links place steps = .ok found := by
  induction follows with
  | done => rw [Disk.follow_nil]
  | here directory _ ih =>
      rw [Disk.follow_cons]
      simp only [directory, if_true, ih]
  | up directory _ ih =>
      rw [Disk.follow_cons]
      simp only [directory, show Path.above ≠ Path.here by decide, if_true, if_false, ih]
  | down offers noLink _ ih =>
      obtain ⟨⟨entries, directory, present⟩, notHere, notAbove, short⟩ := offers
      rw [Disk.follow_cons]
      simp only [directory, notHere, notAbove, Nat.not_lt.mpr short, if_false, present, ih]
  | stop offers unfollowed =>
      obtain ⟨⟨entries, directory, present⟩, notHere, notAbove, short⟩ := offers
      rw [Disk.follow_cons]
      simp only [directory, notHere, notAbove, Nat.not_lt.mpr short, if_false, present, unfollowed]
      rfl
  | through offers followed _ ih =>
      obtain ⟨⟨entries, directory, present⟩, notHere, notAbove, short⟩ := offers
      rw [Disk.follow_cons]
      simp only [directory, notHere, notAbove, Nat.not_lt.mpr short, if_false, present,
        if_neg (passes_link_iff.mpr followed), ih]

/-- What steps lead to, where links lead on with fewer of them left. -/
theorem follows_of_followSteps
    {onward : List Bytes → List Bytes → Except FileError (List Bytes)}
    (further : ∀ place steps, onward place steps = .ok found →
      ∃ left, links = left + 1 ∧ disk.Follows followLast left place steps found)
    (followed : disk.followSteps followLast onward place steps = .ok found) :
    disk.Follows followLast links place steps found := by
  induction place, steps using Disk.followSteps.induct disk followLast with
  | case1 place =>
      cases followed
      exact .done
  | case2 place rest entries directory ih =>
      rw [followSteps] at followed
      simp only [directory, if_true] at followed
      exact .here directory (ih followed)
  | case3 place rest entries directory notHere ih =>
      rw [followSteps] at followed
      simp only [directory, if_true, if_neg notHere] at followed
      exact .up directory (ih followed)
  | case4 place part rest entries directory notHere notAbove long =>
      rw [followSteps] at followed
      simp only [directory, if_neg notHere, if_neg notAbove, if_pos long] at followed
      cases followed
  | case5 place part rest entries directory notHere notAbove short missing =>
      rw [followSteps] at followed
      simp only [directory, if_neg notHere, if_neg notAbove, if_neg short, missing] at followed
      cases followed
  | case6 place part rest entries directory notHere notAbove short target present last =>
      have offers : disk.Offers place part (.link target) :=
        ⟨⟨entries, directory, present⟩, notHere, notAbove, Nat.le_of_not_lt short⟩
      rw [followSteps] at followed
      simp only [directory, if_neg notHere, if_neg notAbove, if_neg short, present, if_pos last]
        at followed
      cases followed
      simp only [Bool.and_eq_true, List.isEmpty_iff, Bool.not_eq_true'] at last
      rw [last.1]
      exact .stop offers last.2
  | case7 place part rest entries directory notHere notAbove short target present followedOn =>
      rw [followSteps] at followed
      simp only [directory, if_neg notHere, if_neg notAbove, if_neg short, present,
        if_neg followedOn] at followed
      obtain ⟨left, rfl, follows⟩ := further _ _ followed
      exact .through ⟨⟨entries, directory, present⟩, notHere, notAbove, Nat.le_of_not_lt short⟩
        (passes_link_iff.mp followedOn) follows
  | case8 place part rest entries directory notHere notAbove short node noLink present ih =>
      rw [followSteps] at followed
      simp only [directory, if_neg notHere, if_neg notAbove, if_neg short, present]
        at followed
      exact .down ⟨⟨entries, directory, present⟩, notHere, notAbove, Nat.le_of_not_lt short⟩ noLink
        (ih followed)
  | case9 place part rest noDirectory =>
      rw [followSteps] at followed
      split at followed
      · next entries directory => exact (noDirectory entries directory).elim
      · cases followed

theorem follows_of_follow (followed : disk.follow followLast links place steps = .ok found) :
    disk.Follows followLast links place steps found := by
  induction links generalizing place steps with
  | zero =>
      refine follows_of_followSteps ?_ followed
      intro place steps refused
      cases refused
  | succ left ih =>
      refine follows_of_followSteps ?_ followed
      intro place steps further
      exact ⟨left, rfl, ih further⟩

theorem follow_eq_ok_iff :
    disk.follow followLast links place steps = .ok found ↔
      disk.Follows followLast links place steps found :=
  ⟨follows_of_follow, Follows.follow⟩

/-- Without following a link at the end, a path leads to the same place or stops at that link. -/
theorem Follows.unfollowed (follows : disk.Follows true links place steps found) :
    disk.Follows false links place steps found ∨
      ∃ stopped target, disk.Follows false links place steps stopped ∧
        disk.node? stopped = some (.link target) := by
  induction follows with
  | done => exact .inl .done
  | here directory _ ih =>
      rcases ih with same | ⟨stopped, target, stops, isLink⟩
      · exact .inl (.here directory same)
      · exact .inr ⟨stopped, target, .here directory stops, isLink⟩
  | up directory _ ih =>
      rcases ih with same | ⟨stopped, target, stops, isLink⟩
      · exact .inl (.up directory same)
      · exact .inr ⟨stopped, target, .up directory stops, isLink⟩
  | down offers noLink _ ih =>
      rcases ih with same | ⟨stopped, target, stops, isLink⟩
      · exact .inl (.down offers noLink same)
      · exact .inr ⟨stopped, target, .down offers noLink stops, isLink⟩
  | stop offers unfollowed => cases unfollowed
  | @through links place rest found part target offers _ _ ih =>
      cases rest with
      | nil => exact .inr ⟨_, target, .stop offers rfl, offers.node?⟩
      | cons next rest =>
          have onward : next :: rest ≠ [] ∨ false = true := .inl (List.cons_ne_nil next rest)
          rcases ih with same | ⟨stopped, target, stops, isLink⟩
          · exact .inl (.through offers onward same)
          · exact .inr ⟨stopped, target, .through offers onward stops, isLink⟩

/-! ## Entries at the end of a path -/

/-- The place that a path starts from. -/
def start (disk : Disk) (path : Bytes) : List Bytes :=
  if Path.isAbsolute path then [] else disk.working

theorem locate_eq_ok_iff {path : Bytes} :
    disk.locate followLast path = .ok found ↔
      (path ≠ [] ∧ 0 ∉ path ∧ path.length < 4096) ∧
        disk.Follows followLast linkLimit (disk.start path) (Disk.steps path) found := by
  rw [← follow_eq_ok_iff, locate]
  by_cases empty : path.isEmpty = true
  · rw [if_pos empty]
    constructor
    · intro located
      cases located
    · intro usable
      exact absurd (List.isEmpty_iff.mp empty) usable.1.1
  · by_cases zero : path.contains 0 = true
    · rw [if_neg empty, if_pos zero]
      constructor
      · intro located
        cases located
      · intro usable
        exact absurd (List.contains_iff_mem.mp zero) usable.1.2.1
    · by_cases long : 4096 ≤ path.length
      · rw [if_neg empty, if_neg zero, if_pos long]
        constructor
        · intro located
          cases located
        · intro usable
          exact absurd usable.1.2.2 (Nat.not_lt.mpr long)
      · rw [if_neg empty, if_neg zero, if_neg long]
        have usable : path ≠ [] ∧ 0 ∉ path ∧ path.length < 4096 :=
          ⟨mt List.isEmpty_iff.mpr empty, mt List.contains_iff_mem.mpr zero, Nat.lt_of_not_le long⟩
        exact ⟨fun followed => ⟨usable, followed⟩, fun found => found.2⟩

theorem find_eq_ok_iff {path : Bytes} {node : FileNode} :
    disk.find followLast path = .ok node ↔
      ∃ place, disk.locate followLast path = .ok place ∧ disk.node? place = some node := by
  unfold find
  cases disk.locate followLast path with
  | error reason => simp [bind, Except.bind]
  | ok place =>
      cases present : disk.node? place with
      | none => simp [bind, Except.bind, present, throw, throwThe, MonadExceptOf.throw]
      | some other => simp [bind, Except.bind, present, pure, Except.pure]

/-- What a path names is what it means, or a link that leads there. -/
theorem linkStat_of_stat {path : Bytes} {node : FileNode} (means : disk.stat path = .ok node) :
    disk.linkStat path = .ok node ∨ ∃ target, disk.linkStat path = .ok (.link target) := by
  obtain ⟨place, located, present⟩ := find_eq_ok_iff.mp means
  obtain ⟨usable, follows⟩ := locate_eq_ok_iff.mp located
  rcases follows.unfollowed with same | ⟨stopped, target, stops, isLink⟩
  · exact .inl (find_eq_ok_iff.mpr ⟨place, locate_eq_ok_iff.mpr ⟨usable, same⟩, present⟩)
  · exact .inr ⟨target, find_eq_ok_iff.mpr
      ⟨stopped, locate_eq_ok_iff.mpr ⟨usable, stops⟩, isLink⟩⟩

theorem wellFormed_of_stat {path : Bytes} {node : FileNode} (wellFormed : disk.root.WellFormed)
    (means : disk.stat path = .ok node) : node.WellFormed := by
  obtain ⟨place, -, present⟩ := find_eq_ok_iff.mp means
  exact wellFormed.descend present

end Disk

end ClassAudit
