import ClassAudit.Proofs.PathMeaningProperties

/-!
# What canonical paths mean

A canonical path is found by looking up the parts of the cleaned path one by one. Wherever the
cleaned path leads, its canonical form names the place, if it has one.
-/

set_option autoImplicit false

namespace ClassAudit

/-! ## Parts that move -/

/-- Whether a part leads elsewhere. -/
def Path.moves (part : Bytes) : Bool := !(decide (part = []) || decide (part = Path.here))

theorem Path.moves_of_name {part : Bytes} (name : Path.IsName part) : Path.moves part = true := by
  simp [Path.moves, name.nonempty, name.notHere]

theorem Path.filter_moves_steps (path : Bytes) :
    (Disk.steps path).filter Path.moves = (Path.parts path).filter Path.moves := by
  have once : ((Path.parts path).filter (· != [])).filter Path.moves =
      (Path.parts path).filter Path.moves := by
    rw [List.filter_filter]
    refine List.filter_congr ?_
    intro part _
    cases part with
    | nil => rfl
    | cons byte part => simp
  rw [Disk.steps, List.filter_append, once]
  split
  · exact List.append_nil _
  · exact List.append_nil _

namespace Disk

variable {disk : Disk} {links : Nat} {written pending result : List Bytes}

theorem resolveParts_still (resolved : disk.resolveParts links written pending = .ok result)
    (still : pending.filter Path.moves = []) : result = written := by
  induction pending with
  | nil =>
      rw [resolveParts_nil] at resolved
      cases resolved
      rfl
  | cons part pending ih =>
      cases kept : Path.moves part with
      | true =>
          rw [List.filter_cons_of_pos kept] at still
          cases still
      | false =>
          rw [List.filter_cons_of_neg (by simp [kept])] at still
          rw [resolveParts_skip ((Bool.not_eq_false' _).mp kept)] at resolved
          exact ih resolved still

/-- The first part that moves is the next one that is looked up. -/
theorem resolveParts_next {part : Bytes} {steps : List Bytes}
    (resolved : disk.resolveParts links written pending = .ok result)
    (spelled : pending.filter Path.moves = part :: steps) :
    ∃ rest, disk.resolveParts links written (part :: rest) = .ok result ∧
      rest.filter Path.moves = steps := by
  induction pending with
  | nil => cases spelled
  | cons first pending ih =>
      cases kept : Path.moves first with
      | true =>
          rw [List.filter_cons_of_pos kept] at spelled
          cases spelled
          exact ⟨pending, resolved, rfl⟩
      | false =>
          rw [List.filter_cons_of_neg (by simp [kept])] at spelled
          rw [resolveParts_skip ((Bool.not_eq_false' _).mp kept)] at resolved
          exact ih resolved spelled

/-! ## Agreement of the two ways to look up a path -/

theorem Leads.node? {place : List Bytes} {part : Bytes} {node : FileNode}
    (leads : disk.Leads written place) (name : Path.IsName part)
    (found : disk.linkStat (Path.ofParts (written ++ [part])) = .ok node) :
    disk.node? (place ++ [part]) = some node := by
  obtain ⟨-, -, reached, followed, present⟩ :=
    (linkStat_eq_ok_iff leads.settled.texts name).mp (leads.linkStat name found)
  rw [leads.settled.follow] at followed
  obtain ⟨rfl, -⟩ := follow_single_eq_ok name followed
  exact present

theorem Offers.entryName {place : List Bytes} {part : Bytes} {node : FileNode}
    (offers : disk.Offers place part node) (wellFormed : disk.root.WellFormed) :
    FileNode.EntryName part :=
  wellFormed.names offers.node? part (List.mem_append_right _ (List.mem_singleton_self part))

theorem Follows.directory {followLast : Bool} {place steps found : List Bytes} {step : Bytes}
    (follows : disk.Follows followLast links place (step :: steps) found) :
    ∃ entries, disk.node? place = some (.directory entries) := by
  cases follows with
  | here directory => exact ⟨_, directory⟩
  | up directory => exact ⟨_, directory⟩
  | down offers =>
      obtain ⟨entries, directory, -⟩ := offers.present
      exact ⟨entries, directory⟩
  | stop offers =>
      obtain ⟨entries, directory, -⟩ := offers.present
      exact ⟨entries, directory⟩
  | through offers =>
      obtain ⟨entries, directory, -⟩ := offers.present
      exact ⟨entries, directory⟩

/-- The next part that is looked up is the entry that the next step leads to. -/
theorem Leads.looked {place rest : List Bytes} {part : Bytes} {node : FileNode}
    (leads : disk.Leads written place) (wellFormed : disk.root.WellFormed)
    (offers : disk.Offers place part node)
    (spelled : pending.filter Path.moves = (part :: rest).filter Path.moves)
    (resolved : disk.resolveParts links written pending = .ok result) :
    Path.IsName part ∧ disk.linkStat (Path.ofParts (written ++ [part])) = .ok node ∧
      ∃ parts, disk.resolveParts links written (part :: parts) = .ok result ∧
        parts.filter Path.moves = rest.filter Path.moves := by
  have name := (offers.entryName wellFormed).toIsName
  rw [List.filter_cons_of_pos (Path.moves_of_name name)] at spelled
  obtain ⟨parts, onward, later⟩ := resolveParts_next resolved spelled
  refine ⟨name, ?_, parts, onward, later⟩
  cases looked : disk.linkStat (Path.ofParts (written ++ [part])) with
  | error reason =>
      rw [resolveParts_missing name looked] at onward
      cases onward
  | ok found =>
      cases (leads.node? name looked).symm.trans offers.node?
      rfl

/-- Where steps lead, the parts that spell them resolve to the same place or to none. -/
theorem Follows.resolveParts {left : Nat} {place steps found : List Bytes}
    (follows : disk.Follows true links place steps found) (wellFormed : disk.root.WellFormed)
    (leads : disk.Leads written place)
    (spelled : pending.filter Path.moves = steps.filter Path.moves)
    (resolved : disk.resolveParts left written pending = .ok result) :
    Path.clean (Path.ofParts result) = Path.ofParts found := by
  induction follows generalizing left written pending with
  | done =>
      rw [resolveParts_still resolved spelled]
      exact leads.clean
  | here _ _ ih => exact ih leads spelled resolved
  | up _ _ ih =>
      obtain ⟨rest, resolved, later⟩ := resolveParts_next resolved spelled
      rw [resolveParts_above] at resolved
      exact ih leads.above later resolved
  | @down links place rest found part node offers noLink onward ih =>
      obtain ⟨name, looked, parts, resolved, later⟩ :=
        leads.looked wellFormed offers spelled resolved
      cases node with
      | link target => exact absurd rfl (noLink target)
      | directory entries =>
          rw [resolveParts_directory name looked] at resolved
          have settled := Settled.down leads.settled name (leads.linkStat name looked)
          exact ih (.down leads settled) later resolved
      | file data =>
          -- a file has to be the last part, and no step leads on from it
          rw [resolveParts_file name looked] at resolved
          split at resolved
          · cases resolved
            cases rest with
            | nil =>
                cases onward
                exact leads.clean_concat name
            | cons next rest =>
                obtain ⟨entries, directory⟩ := onward.directory
                cases directory.symm.trans offers.node?
          · cases resolved
  | stop _ unfollowed => cases unfollowed
  | @through links place rest found part target offers _ _ ih =>
      obtain ⟨name, looked, parts, resolved, later⟩ :=
        leads.looked wellFormed offers spelled resolved
      cases left with
      | zero =>
          rw [resolveParts_link_none name looked] at resolved
          cases resolved
      | succ left =>
          rw [resolveParts_link name looked] at resolved
          have onward : disk.Leads (if Path.isAbsolute target then [] else written)
              (if Path.isAbsolute target then [] else place) := by
            split
            · exact .root
            · exact leads
          refine ih onward ?_ resolved
          rw [List.filter_append, List.filter_append, Path.filter_moves_steps, later]

end Disk

/-! ## Paths from the root -/

namespace Path

theorem cleanStep_of_skipped {absolute : Bool} {kept : List Bytes} {part : Bytes}
    (still : moves part = false) : cleanStep absolute kept part = kept := by
  unfold cleanStep
  exact if_pos ((Bool.not_eq_false' _).mp still)

theorem cleanStep_of_name {absolute : Bool} {kept : List Bytes} {part : Bytes}
    (name : IsName part) : cleanStep absolute kept part = part :: kept :=
  foldl_cleanStep_names (List.forall_mem_singleton.mpr name) absolute kept

theorem cleanStep_above_behind_name {absolute : Bool} {kept : List Bytes} {name : Bytes}
    (isName : IsName name) : cleanStep absolute (name :: kept) above = kept := by
  rw [cleanStep, if_neg (by decide), if_pos rfl]
  exact if_neg isName.notAbove

theorem cleanStep_above_of_names {kept : List Bytes} (named : ∀ name ∈ kept, IsName name) :
    cleanStep true kept above = kept.tail := by
  cases kept with
  | nil => rfl
  | cons name kept => exact cleanStep_above_behind_name (named name List.mem_cons_self)

theorem cleanStep_above_of_ups (ups : Nat) :
    cleanStep false (List.replicate ups above) above = List.replicate (ups + 1) above := by
  cases ups with
  | zero => rfl
  | succ ups => rfl

/-- Cleaning a path behind a base keeps the same names as cleaning it alone. Where steps up would
be left over, they are taken from the base. -/
theorem foldl_cleanStep_behind {base parts names : List Bytes} {ups : Nat}
    (based : ∀ name ∈ base, IsName name) (named : ∀ name ∈ names, IsName name)
    (free : ∀ part ∈ parts, slash ∉ part) :
    ∃ (left : List Bytes) (climbed : Nat),
      parts.foldl (cleanStep false) (names ++ List.replicate ups above) =
        left ++ List.replicate climbed above ∧
      parts.foldl (cleanStep true) (names ++ base.drop ups) = left ++ base.drop climbed := by
  induction parts generalizing names ups with
  | nil => exact ⟨names, ups, rfl, rfl⟩
  | cons part parts ih =>
      obtain ⟨first, others⟩ := List.forall_mem_cons.mp free
      rw [List.foldl_cons, List.foldl_cons]
      cases moving : moves part with
      | false =>
          rw [cleanStep_of_skipped moving, cleanStep_of_skipped moving]
          exact ih named others
      | true =>
          by_cases isAbove : part = above
          · subst isAbove
            cases names with
            | nil =>
                have dropped : ∀ name ∈ base.drop ups, IsName name :=
                  fun name member => based name (List.mem_of_mem_drop member)
                rw [List.nil_append, List.nil_append, cleanStep_above_of_ups,
                  cleanStep_above_of_names dropped, List.tail_drop]
                exact @ih [] (ups + 1) (List.forall_mem_nil _) others
            | cons name names =>
                obtain ⟨isName, rest⟩ := List.forall_mem_cons.mp named
                rw [List.cons_append, List.cons_append, cleanStep_above_behind_name isName,
                  cleanStep_above_behind_name isName]
                exact ih rest others
          · have isName : IsName part :=
              .of_free first (by simpa [moves] using moving) isAbove
            rw [cleanStep_of_name isName, cleanStep_of_name isName, ← List.cons_append,
              ← List.cons_append]
            exact ih (List.forall_mem_cons.mpr ⟨isName, named⟩) others

theorem foldl_cleanStep_ofParts {base : List Bytes} (based : ∀ name ∈ base, IsName name) :
    (parts (ofParts base)).foldl (cleanStep true) [] = base.reverse := by
  have cleaned := cleanParts_ofParts fun name member => (based name member).noSlash
  rw [foldl_cleanStep_names based, List.append_nil, List.reverse_reverse] at cleaned
  exact List.reverse_eq_iff.mp cleaned

theorem join_ofParts (base : List Bytes) (path : Bytes) :
    join (ofParts base) path = clean (ofParts base ++ slash :: path) := rfl

theorem cleanParts_behind {base : List Bytes} {path : Bytes} (relative : isAbsolute path = false)
    (based : ∀ name ∈ base, IsName name) :
    ∃ (ups : Nat) (names : List Bytes), cleanParts path = List.replicate ups above ++ names ∧
      cleanParts (join (ofParts base) path) = (base.reverse.drop ups).reverse ++ names := by
  have reversed : ∀ name ∈ base.reverse, IsName name :=
    fun name member => based name (List.mem_reverse.mp member)
  have free : ∀ part ∈ parts path, slash ∉ part :=
    fun part member => Bytes.not_mem_of_mem_splitOn member
  obtain ⟨left, climbed, alone, behind⟩ :=
    @foldl_cleanStep_behind base.reverse (parts path) [] 0 reversed (List.forall_mem_nil _) free
  refine ⟨climbed, left.reverse, ?_, ?_⟩
  · rw [cleanParts, relative]
    exact (congrArg List.reverse alone).trans
      (by rw [List.reverse_append, List.reverse_replicate])
  · have split : parts (ofParts base ++ slash :: path) = parts (ofParts base) ++ parts path :=
      Bytes.splitOn_append_separator slash (ofParts base) path
    have absolute : isAbsolute (ofParts base ++ slash :: path) = true := rfl
    rw [join_ofParts, cleanParts_clean, cleanParts, absolute, split, List.foldl_append,
      foldl_cleanStep_ofParts based]
    exact (congrArg List.reverse behind).trans List.reverse_append

theorem filter_moves_parts_clean (path : Bytes) :
    (parts (clean path)).filter moves = (cleanParts path).filter moves := by
  by_cases unmoved : cleanParts path = []
  · rw [unmoved]
    unfold clean
    rw [unmoved]
    split
    · rfl
    · rfl
  · rw [← filter_moves_steps, Disk.steps_clean unmoved]

end Path

namespace Disk

variable {disk : Disk} {links : Nat} {followLast : Bool}

theorem Follows.above_inv {place rest found : List Bytes}
    (follows : disk.Follows followLast links place (Path.above :: rest) found) :
    disk.Follows followLast links place.dropLast rest found := by
  cases follows with
  | up _ onward => exact onward
  | down offers => exact absurd rfl offers.notAbove
  | stop offers => exact absurd rfl offers.notAbove
  | through offers => exact absurd rfl offers.notAbove

theorem Follows.climb {ups : Nat} {place rest found : List Bytes}
    (follows : disk.Follows followLast links place (List.replicate ups Path.above ++ rest) found) :
    disk.Follows followLast links (place.reverse.drop ups).reverse rest found := by
  induction ups generalizing place with
  | zero =>
      rw [List.drop_zero, List.reverse_reverse]
      exact follows
  | succ ups ih =>
      rw [List.replicate_succ, List.cons_append] at follows
      have climbed := ih follows.above_inv
      rw [← List.tail_reverse, List.drop_tail] at climbed
      exact climbed

theorem node?_of_append {place rest : List Bytes} {entries : List (Bytes × FileNode)}
    (directory : disk.node? (place ++ rest) = some (.directory entries)) :
    ∃ inner, disk.node? place = some (.directory inner) := by
  rw [node?, FileNode.descend?_append] at directory
  obtain ⟨node, here, deeper⟩ := Option.bind_eq_some_iff.mp directory
  cases isDirectory : node.isDirectory with
  | false => exact absurd deeper (FileNode.not_directory_of_leaf isDirectory)
  | true =>
      cases node with
      | file data => cases isDirectory
      | link target => cases isDirectory
      | directory inner => exact ⟨inner, here⟩

/-- A path leads from the root where it leads from the working directory. -/
theorem follows_from_root {path : Bytes} {found : List Bytes} (wellFormed : disk.root.WellFormed)
    (moves : Path.cleanParts path ≠ [])
    (follows : disk.Follows followLast links (disk.start path) (Path.cleanParts path) found) :
    disk.Follows followLast links [] (Path.cleanParts (disk.absolute path)) found := by
  unfold start at follows
  unfold Disk.absolute
  cases absolute : Path.isAbsolute path with
  | true =>
      rw [absolute, if_pos rfl] at follows
      rw [if_pos rfl, Path.cleanParts_clean]
      exact follows
  | false =>
      rw [absolute, if_neg Bool.false_ne_true] at follows
      rw [if_neg Bool.false_ne_true]
      have atWork : ∃ entries, disk.node? disk.working = some (.directory entries) := by
        cases parts : Path.cleanParts path with
        | nil => exact absurd parts moves
        | cons step steps =>
            rw [parts] at follows
            exact follows.directory
      obtain ⟨entries, directory⟩ := atWork
      have names := wellFormed.names directory
      obtain ⟨ups, rest, alone, behind⟩ := Path.cleanParts_behind absolute
        fun name member => (names name member).toIsName
      rw [alone] at follows
      rw [behind]
      have above := follows.climb
      have taken : (disk.working.reverse.drop ups).reverse =
          disk.working.take (disk.working.reverse.length - ups) := by
        rw [List.reverse_drop, List.reverse_reverse]
      rw [taken] at above ⊢
      rw [← List.take_append_drop (disk.working.reverse.length - ups) disk.working] at directory
      obtain ⟨inner, here⟩ := node?_of_append directory
      refine follows_names rfl here ?_ (FileNode.directory_ne_link inner) above
      intro name member
      exact names name (List.mem_of_mem_take member)

/-- A canonical path names the place that the cleaned path leads to. -/
theorem canonical_of_follows {path key : Bytes} {found : List Bytes}
    (wellFormed : disk.root.WellFormed) (moves : Path.cleanParts path ≠ [])
    (follows : disk.Follows true links (disk.start path) (Path.cleanParts path) found)
    (canonical : disk.canonical path = .ok key) : key = Path.ofParts found := by
  obtain ⟨result, resolved, same⟩ := bind_eq_ok canonical
  cases same
  have cleaned : Path.clean (disk.absolute path) = disk.absolute path := by
    unfold Disk.absolute
    split
    · exact Path.clean_clean path
    · rw [Path.join_ofParts, Path.clean_clean]
  refine (follows_from_root wellFormed moves follows).resolveParts wellFormed .root ?_ resolved
  rw [← cleaned, Path.filter_moves_parts_clean, cleaned]

/-! ## Opening entries of a directory -/

theorem stat_ofParts {place : List Bytes} {name : Bytes} {node other : FileNode}
    (wellFormed : disk.root.WellFormed) (present : disk.node? (place ++ [name]) = some node)
    (noLink : ∀ target, node ≠ .link target)
    (means : disk.stat (Path.ofParts (place ++ [name])) = .ok other) : other = node := by
  have areNames := wellFormed.names present
  obtain ⟨before, last⟩ := List.forall_mem_append.mp areNames
  obtain ⟨found, located, there⟩ := find_eq_ok_iff.mp means
  have follows := (locate_eq_ok_iff.mp located).2
  have texts : ∀ part ∈ place, part ≠ [] ∧ Path.slash ∉ part :=
    fun part member => ⟨(before part member).nonempty, (before part member).noSlash⟩
  rw [steps_ofParts texts (last name (List.mem_singleton_self name)).toIsName] at follows
  have direct : disk.Follows true linkLimit [] (place ++ [name]) ([] ++ place ++ [name]) :=
    follows_to_entry rfl present areNames (.inr noLink)
  cases follows.follow.symm.trans direct.follow
  exact Option.some.inj (there.symm.trans present)

theorem stat_of_readClassFile {key data : Bytes} {options : OpenOptions}
    (read : disk.readClassFile options key = .ok data) : disk.stat key = .ok (.file data) := by
  unfold readClassFile at read
  split at read
  · cases read
  · next means =>
      split at read
      · cases read
      · cases read
        exact means
  · cases read

theorem canonical_of_entry {input name key : Bytes} {middle : List Bytes} {node : FileNode}
    (wellFormed : disk.root.WellFormed) (located : disk.locate true (Path.clean input) = .ok middle)
    (present : disk.node? (middle ++ [name]) = some node) (noLink : ∀ target, node ≠ .link target)
    (canonical : disk.canonical (Path.join input name) = .ok key) :
    key = Path.ofParts (middle ++ [name]) := by
  have isName := wellFormed.names present name
    (List.mem_append_right _ (List.mem_singleton_self name))
  have parts : Path.cleanParts (Path.join input name) = Path.cleanParts input ++ [name] :=
    Path.cleanParts_join isName.toIsName
  have starts : disk.start (Path.join input name) = disk.start input :=
    start_below disk (List.forall_mem_singleton.mpr isName.toIsName)
  rw [node?, FileNode.descend?_append] at present
  obtain ⟨holder, here, reached⟩ := Option.bind_eq_some_iff.mp present
  have onward : ∀ left, disk.Follows true left middle ([] ++ [name]) (middle ++ [] ++ [name]) :=
    fun _ => follows_to_entry here reached (List.forall_mem_singleton.mpr isName) (.inr noLink)
  have entered := (follows_cleanParts located).append (List.cons_ne_nil name []) onward
  rw [← parts, ← starts, List.append_nil] at entered
  refine canonical_of_follows wellFormed ?_ entered canonical
  rw [parts]
  exact List.append_ne_nil_of_right_ne_nil _ (List.cons_ne_nil name [])

/-- Opening a file through the directory that it lies in decodes the bytes of that file. -/
theorem decode_of_openClass {input name data : Bytes} {entries : List (Bytes × FileNode)}
    {options : OpenOptions} {file : ClassFile} (wellFormed : disk.root.WellFormed)
    (settled : disk.stat (Path.clean input) = .ok (.directory entries))
    (member : (name, .file data) ∈ entries)
    (opened : disk.openClass options (Path.join input name) = .ok file) :
    decode options.mode data = .ok file := by
  have distinct := (wellFormed_of_stat wellFormed settled [] entries rfl).1
  obtain ⟨middle, located, here⟩ := find_eq_ok_iff.mp settled
  have present : disk.node? (middle ++ [name]) = some (.file data) := by
    rw [node?_concat here]
    exact (lookup_eq_some_iff_mem distinct).mpr member
  obtain ⟨key, canonical, read⟩ := bind_eq_ok opened
  obtain ⟨bytes, taken, decoded⟩ := bind_eq_ok read
  have named := canonical_of_entry wellFormed located present (FileNode.file_ne_link data)
    (canonicalPath_eq_ok_iff.mp canonical)
  have means := stat_of_readClassFile taken
  rw [named] at means
  cases stat_ofParts wellFormed present (FileNode.file_ne_link data) means
  exact mapError_eq_ok_iff.mp decoded

end Disk

end ClassAudit
