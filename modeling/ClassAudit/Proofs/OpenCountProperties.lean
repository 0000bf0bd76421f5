import ClassAudit.Proofs.ScheduleProperties

/-!
# Counting opened files

Along every schedule the number of times that a canonical path is opened stays within bounds:
the works that look a path up before anyone has kept its class are all in progress at one time,
so that there are no more of them than slots, and no work after that misses the path.
-/

set_option autoImplicit false

namespace ClassAudit

variable {options : OpenOptions} {disk : Disk}

/-! ## Canonical paths of files -/

/-- The canonical path of a file, if it has one. -/
def Disk.key? (disk : Disk) (path : Bytes) : Option Bytes := (disk.canonicalPath path).toOption

/-- The canonical paths of files, as often as they are given. -/
def Disk.keys (disk : Disk) (files : List Bytes) : List Bytes := files.filterMap disk.key?

theorem Disk.key?_eq_some_iff {path key : Bytes} :
    disk.key? path = some key ↔ disk.canonicalPath path = .ok key := by
  unfold Disk.key?
  cases disk.canonicalPath path with
  | error error => simp [Except.toOption]
  | ok found => simp [Except.toOption]

theorem Disk.key?_eq_none_of_error {path : Bytes} {error : OpenError}
    (unresolved : disk.canonicalPath path = .error error) : disk.key? path = none := by
  rw [Disk.key?, unresolved]
  rfl

/-! ## Caches with room -/

namespace Cache

variable {α : Type} {cache : Cache α} {key : Bytes}

theorem get?_eq_none_iff : cache.get? key = none ↔ ∀ entry ∈ cache.entries, entry.1 ≠ key := by
  rw [Cache.get?, List.lookup_eq_none_iff]
  refine forall₂_congr fun entry _ => ?_
  rw [bne_iff_ne, ne_comm]

theorem get?_refresh_eq_none (other : Bytes) (absent : cache.get? key = none) :
    (cache.refresh other).get? key = none :=
  get?_eq_none_iff.mpr fun entry member =>
    get?_eq_none_iff.mp absent entry (Cache.mem_refresh member)

theorem get?_insert_eq_none {other : Bytes} (value : α) (different : other ≠ key)
    (absent : cache.get? key = none) : (cache.insert other value).get? key = none := by
  refine get?_eq_none_iff.mpr fun entry member => ?_
  rcases Cache.mem_insert member with rfl | earlier
  · exact different
  · exact get?_eq_none_iff.mp absent entry earlier

namespace Remembers

variable {uses recent : List (Bytes × α)}

/-- An insertion becomes the most recent use, also of a key that the cache has already. -/
theorem insert_again (remembers : cache.Remembers uses) (key : Bytes) (value : α) :
    (cache.insert key value).Remembers ((key, value) :: uses) := by
  cases found : cache.get? key with
  | none => exact remembers.insert found value
  | some old =>
      change ((key, value) :: cache.without key).take cache.capacity =
        ((key, value) :: (latestUses uses).filter _).take cache.capacity
      rw [Cache.without, remembers]
      rw [Cache.get?, remembers] at found
      cases full : cache.capacity with
      | zero =>
          rw [full] at found
          cases found
      | succ count =>
          rw [full] at found
          rw [List.take_succ_cons, List.take_succ_cons,
            filter_take_of_lookup (nodup_latestUses uses) found, List.take_take, Nat.min_self]

/-- A key used lately is found, when all keys used since the start of `recent` fit. -/
theorem found_of_recent {keys : List Bytes} (remembers : cache.Remembers (recent ++ uses))
    (room : keys.toFinset.card ≤ cache.capacity) (within : ∀ use ∈ recent, use.1 ∈ keys)
    (used : key ∈ recent.map Prod.fst) : cache.get? key ≠ none := by
  obtain ⟨front, back, shape, unused⟩ := List.eq_append_cons_of_mem used
  obtain ⟨since, rest, rfl, rfl, continued⟩ := List.map_eq_append_iff.mp shape
  obtain ⟨use, earlier, rfl, rfl, -⟩ := List.map_eq_cons_iff.mp continued
  have usedWithin : UsedWithin cache.capacity use.1 use.2 ((since ++ use :: earlier) ++ uses) := by
    refine ⟨since, earlier ++ uses, by simp, unused, ?_⟩
    -- The keys used since are among the given ones, and this key is not one of them.
    have fewer : (since.map Prod.fst).toFinset ⊂ keys.toFinset := by
      refine Finset.ssubset_iff_subset_ne.mpr ⟨?_, ?_⟩
      · intro name member
        obtain ⟨entry, listed, rfl⟩ := List.mem_map.mp (List.mem_toFinset.mp member)
        exact List.mem_toFinset.mpr (within entry (List.mem_append_left _ listed))
      · intro same
        have given : use.1 ∈ keys.toFinset :=
          List.mem_toFinset.mpr (within use (List.mem_append_right _ List.mem_cons_self))
        rw [← same] at given
        exact unused (List.mem_toFinset.mp given)
    exact Nat.lt_of_lt_of_le (Finset.card_lt_card fewer) room
  rw [remembers.get?_eq_some_iff.mpr usedWithin]
  exact Option.some_ne_none _

end Remembers

end Cache

/-! ## Steps with a free slot -/

/-- A workshop after a step for which there was a slot. -/
inductive Workshop.TakesStep (options : OpenOptions) (disk : Disk) (workers : Int)
    (workshop : Workshop) : Workshop → Prop where
  | work {before after : List Work} {work : Work} {cache? : Option (Cache ClassFile)}
      {phase : WorkPhase} {opened? : Option Bytes}
      (split : workshop.works = before ++ work :: after)
      (free : before.countP Work.unfinished < Workshop.slots workers)
      (advance :
        Work.Advance options disk work.path workshop.cache? work.phase cache? phase opened?) :
      Workshop.TakesStep options disk workers workshop
        ⟨cache?, before ++ { work with phase } :: after, workshop.opened ++ opened?.toList⟩

/-- What every step with a free slot keeps holds wherever a schedule leads. -/
@[elab_as_elim]
theorem Workshop.Reaches.kept {Kept : Workshop → Prop} {workers : Int} {workshop next : Workshop}
    (reached : workshop.Reaches options disk workers next)
    (step : ∀ workshop next, Kept workshop →
      workshop.TakesStep options disk workers next → Kept next)
    (kept : Kept workshop) : Kept next := by
  obtain ⟨schedule, followed, rfl⟩ := reached
  induction schedule generalizing workshop with
  | nil => exact kept
  | cons position rest ih =>
      obtain ⟨admitted, followed⟩ := Bool.and_eq_true_iff.mp followed
      refine ih (step _ _ kept ?_) followed
      obtain ⟨before, work, after, split, rfl, unfinished, free⟩ :=
        Workshop.admits_iff.mp admitted
      rw [Workshop.step_of_split options disk split]
      exact .work split free (Workshop.phaseStep_advance options disk workshop.cache? unfinished)

/-! ## Works in progress -/

/-- Whether work on a file has begun and is not finished. -/
def Work.inProgress (work : Work) : Bool :=
  match work.phase with
  | .missed _ | .opened _ _ => true
  | _ => false

theorem Work.unfinished_of_inProgress {work : Work} (begun : work.inProgress = true) :
    work.unfinished = true := by
  obtain ⟨path, phase⟩ := work
  cases phase with
  | missed | opened => rfl
  | waiting | finished => cases begun

/-- Every work in progress has a slot: the unfinished works before it leave one. `ahead` counts
those before the list. -/
def InOrder (slots : Nat) : Nat → List Work → Prop
  | _, [] => True
  | ahead, work :: rest =>
      (work.inProgress = true → ahead < slots) ∧
        InOrder slots (ahead + if work.unfinished then 1 else 0) rest

theorem InOrder.mono {slots ahead fewer : Nat} {works : List Work} (le : fewer ≤ ahead)
    (inOrder : InOrder slots ahead works) : InOrder slots fewer works := by
  induction works generalizing ahead fewer with
  | nil => trivial
  | cons work rest ih =>
      exact ⟨fun begun => Nat.lt_of_le_of_lt le (inOrder.1 begun),
        ih (Nat.add_le_add_right le _) inOrder.2⟩

theorem inOrder_append {slots ahead : Nat} {before after : List Work} :
    InOrder slots ahead (before ++ after) ↔
      InOrder slots ahead before ∧ InOrder slots (ahead + before.countP Work.unfinished) after := by
  induction before generalizing ahead with
  | nil => simp [InOrder]
  | cons work rest ih =>
      rw [List.cons_append, InOrder, InOrder, ih, and_assoc, List.countP_cons, Nat.add_assoc,
        Nat.add_comm (rest.countP _)]

theorem InOrder.countP_le {slots ahead : Nat} {works : List Work}
    (inOrder : InOrder slots ahead works) :
    works.countP Work.inProgress = 0 ∨ ahead + works.countP Work.inProgress ≤ slots := by
  induction works generalizing ahead with
  | nil => exact .inl rfl
  | cons work rest ih =>
      have later := ih inOrder.2
      rw [List.countP_cons]
      by_cases begun : work.inProgress = true
      · have here := inOrder.1 begun
        rw [if_pos (Work.unfinished_of_inProgress begun)] at later
        rw [if_pos begun]
        omega
      · rw [if_neg begun]
        omega

theorem InOrder.advance {slots : Nat} {before after : List Work} {work next : Work}
    (inOrder : InOrder slots 0 (before ++ work :: after))
    (free : before.countP Work.unfinished < slots) (unfinished : work.unfinished = true) :
    InOrder slots 0 (before ++ next :: after) := by
  obtain ⟨earlier, -, later⟩ := inOrder_append.mp inOrder
  refine inOrder_append.mpr ⟨earlier, fun _ => by omega, later.mono ?_⟩
  rw [if_pos unfinished]
  split <;> omega

theorem inOrder_start (slots ahead : Nat) (files : List Bytes) :
    InOrder slots ahead (files.map fun path => ⟨path, .waiting⟩) := by
  induction files generalizing ahead with
  | nil => trivial
  | cons path rest ih =>
      refine ⟨fun begun => ?_, ih _⟩
      cases begun

/-! ## The state of a run -/

/-- A phase names the canonical path of its file. -/
def WorkPhase.Located (disk : Disk) (path : Bytes) : WorkPhase → Prop
  | .missed key => disk.key? path = some key
  | .opened key _ => disk.key? path = some key
  | _ => True

/-- A run with a cache: what the cache holds comes from the uses of this run, `recent`, and from
earlier ones, and the works are those of the files, each in progress only with a slot. -/
structure Workshop.Running (disk : Disk) (workers : Int) (files : List Bytes) (capacity : Nat)
    (earlier recent : List (Bytes × ClassFile)) (cache : Cache ClassFile) (workshop : Workshop) :
    Prop where
  cached : workshop.cache? = some cache
  capacity : cache.capacity = capacity
  remembers : cache.Remembers (recent ++ earlier)
  within : ∀ use ∈ recent, use.1 ∈ disk.keys files
  paths : workshop.works.map Work.path = files
  located : ∀ work ∈ workshop.works, work.phase.Located disk work.path
  inOrder : InOrder (Workshop.slots workers) 0 workshop.works

/-- The use of the cache that a step makes: it finds a class or keeps one. -/
def WorkPhase.use? (key? : Option Bytes) : WorkPhase → WorkPhase → Option (Bytes × ClassFile)
  | .waiting, .finished (.ok file) => key?.map fun key => (key, file)
  | .opened key file, .finished _ => some (key, file)
  | _, _ => none

theorem Work.Advance.located {path : Bytes} {cache : Cache ClassFile}
    {next? : Option (Cache ClassFile)} {phase next : WorkPhase} {opened? : Option Bytes}
    (advance : Work.Advance options disk path (some cache) phase next? next opened?)
    (located : phase.Located disk path) : next.Located disk path := by
  cases advance with
  | unresolved | hits | fails | keeps => trivial
  | misses canonical => exact Disk.key?_eq_some_iff.mpr canonical
  | opens => exact located

/-- A step leaves a cache of the same capacity whose latest uses are the ones before and the use
that the step makes, if it makes one. -/
theorem Work.Advance.remembers {path : Bytes} {cache : Cache ClassFile}
    {next? : Option (Cache ClassFile)} {phase next : WorkPhase} {opened? : Option Bytes}
    {uses : List (Bytes × ClassFile)}
    (advance : Work.Advance options disk path (some cache) phase next? next opened?)
    (remembers : cache.Remembers uses) :
    ∃ after, next? = some after ∧ after.capacity = cache.capacity ∧
      after.Remembers ((WorkPhase.use? (disk.key? path) phase next).toList ++ uses) := by
  cases advance with
  | unresolved | misses | opens | fails => exact ⟨cache, rfl, rfl, remembers⟩
  | @hits _ key file canonical found =>
      refine ⟨_, rfl, cache.capacity_refresh key, ?_⟩
      rw [Disk.key?_eq_some_iff.mpr canonical]
      exact remembers.refresh found
  | keeps => exact ⟨_, rfl, rfl, remembers.insert_again _ _⟩

theorem Work.Advance.use?_mem {path : Bytes} {cache : Cache ClassFile}
    {next? : Option (Cache ClassFile)} {phase next : WorkPhase} {opened? : Option Bytes}
    {use : Bytes × ClassFile}
    (advance : Work.Advance options disk path (some cache) phase next? next opened?)
    (located : phase.Located disk path)
    (made : use ∈ (WorkPhase.use? (disk.key? path) phase next).toList) :
    disk.key? path = some use.1 := by
  cases advance with
  | unresolved | misses | opens | fails => cases made
  | hits canonical found =>
      rw [Disk.key?_eq_some_iff.mpr canonical] at made ⊢
      cases List.mem_singleton.mp made
      rfl
  | keeps =>
      cases List.mem_singleton.mp made
      exact located

theorem Workshop.Running.step {workers : Int} {files : List Bytes} {capacity : Nat}
    {earlier recent : List (Bytes × ClassFile)} {cache : Cache ClassFile} {workshop : Workshop}
    {before after : List Work} {work : Work} {next? : Option (Cache ClassFile)}
    {phase : WorkPhase} {opened? : Option Bytes}
    (running : workshop.Running disk workers files capacity earlier recent cache)
    (split : workshop.works = before ++ work :: after)
    (free : before.countP Work.unfinished < Workshop.slots workers)
    (advance : Work.Advance options disk work.path (some cache) work.phase next? phase opened?) :
    ∃ next, next? = some next ∧
      Workshop.Running disk workers files capacity earlier
        ((WorkPhase.use? (disk.key? work.path) work.phase phase).toList ++ recent) next
        ⟨next?, before ++ { work with phase } :: after, workshop.opened ++ opened?.toList⟩ := by
  have present : work ∈ workshop.works := split ▸ List.mem_append_right before List.mem_cons_self
  have located := running.located work present
  obtain ⟨next, rfl, size, remembers⟩ := advance.remembers running.remembers
  refine ⟨next, rfl, rfl, size.trans running.capacity, ?_, ?_, ?_, ?_, ?_⟩
  · rw [List.append_assoc]
    exact remembers
  · intro use member
    rcases List.mem_append.mp member with made | used
    · refine List.mem_filterMap.mpr ⟨work.path, ?_, advance.use?_mem located made⟩
      rw [← running.paths]
      exact List.mem_map_of_mem present
    · exact running.within use used
  · rw [← running.paths, split, List.map_append, List.map_append]
    rfl
  · have others := running.located
    rw [split, List.forall_mem_append, List.forall_mem_cons] at others
    rw [List.forall_mem_append, List.forall_mem_cons]
    exact ⟨others.1, advance.located located, others.2.2⟩
  · exact (split ▸ running.inOrder).advance free advance.unfinished

/-! ## The openings of one path -/

/-- Whether work has missed a path and not opened it yet. -/
def Work.missing (key : Bytes) (work : Work) : Bool :=
  match work.phase with
  | .missed name => name == key
  | _ => false

/-- Whether work has missed a path and is not finished. -/
def Work.pending (key : Bytes) (work : Work) : Bool :=
  match work.phase with
  | .missed name => name == key
  | .opened name _ => name == key
  | _ => false

theorem Work.inProgress_of_pending {key : Bytes} {work : Work} (pending : work.pending key = true) :
    work.inProgress = true := by
  obtain ⟨path, phase⟩ := work
  cases phase with
  | missed | opened => rfl
  | waiting | finished => cases pending

theorem Work.key?_of_pending {key : Bytes} {work : Work} (pending : work.pending key = true)
    (located : work.phase.Located disk work.path) : disk.key? work.path = some key := by
  obtain ⟨path, phase⟩ := work
  cases phase with
  | missed | opened => rw [← eq_of_beq pending]; exact located
  | waiting | finished => cases pending

/-- The works that are in progress on a path have a slot each, and a file each. -/
theorem Workshop.Running.pending_le {workers : Int} {files : List Bytes} {capacity : Nat}
    {earlier recent : List (Bytes × ClassFile)} {cache : Cache ClassFile} {workshop : Workshop}
    (running : workshop.Running disk workers files capacity earlier recent cache) (key : Bytes) :
    workshop.works.countP (Work.pending key) ≤
      min (Workshop.slots workers) ((disk.keys files).count key) := by
  refine Nat.le_min.mpr ⟨?_, ?_⟩
  · have fewer : workshop.works.countP (Work.pending key) ≤ workshop.works.countP Work.inProgress :=
      List.countP_mono_left fun _ _ => Work.inProgress_of_pending
    rcases running.inOrder.countP_le with none | fits <;> omega
  · rw [Disk.keys, List.count_filterMap, ← running.paths, List.countP_map]
    refine List.countP_mono_left fun work listed pending => ?_
    exact beq_iff_eq.mpr (Work.key?_of_pending pending (running.located work listed))

/-- What is known about the openings of a path. Until the cache is used for it, no work on it is
finished, and it was opened once for every work that is past its look-up. From then on there are
no more openings to come than there are works that have missed it. `cold` says that the cache did
not hold it at first. -/
inductive Workshop.Tallies (disk : Disk) (key : Bytes) (cold : Prop) (bound : Nat)
    (recent : List (Bytes × ClassFile)) (cache : Cache ClassFile) (workshop : Workshop) : Prop where
  | unsettled (unused : key ∉ recent.map Prod.fst)
      (unfinished : ∀ work ∈ workshop.works, disk.key? work.path = some key →
        work.unfinished = true)
      (balanced : workshop.opened.count key + workshop.works.countP (Work.missing key) =
        workshop.works.countP (Work.pending key))
      (absent : cold → cache.get? key = none)
  | settled (used : key ∈ recent.map Prod.fst)
      (bounded : workshop.opened.count key + workshop.works.countP (Work.missing key) ≤ bound)
      (once : cold → 1 ≤ workshop.opened.count key)

section

variable {path key : Bytes} {cache : Cache ClassFile} {next? : Option (Cache ClassFile)}
  {phase next : WorkPhase} {opened? : Option Bytes}

theorem Work.Advance.attempts_le
    (advance : Work.Advance options disk path (some cache) phase next? next opened?)
    (found : cache.get? key ≠ none) :
    opened?.toList.count key + (if Work.missing key ⟨path, next⟩ then 1 else 0) ≤
      if Work.missing key ⟨path, phase⟩ then 1 else 0 := by
  cases advance with
  | unresolved | hits | keeps => exact Nat.zero_le _
  | @misses _ name canonical absent =>
      have different : name ≠ key := by
        rintro rfl
        exact found absent
      simp [Work.missing, different]
  | opens | fails => simp [Work.missing, List.count_singleton]

theorem Work.Advance.balanced {file : ClassFile}
    (advance : Work.Advance options disk path (some cache) phase next? next opened?)
    (decodes : disk.openClass options key = .ok file)
    (unused : key ∉ (WorkPhase.use? (disk.key? path) phase next).toList.map Prod.fst) :
    opened?.toList.count key + (if Work.missing key ⟨path, next⟩ then 1 else 0) +
        (if Work.pending key ⟨path, phase⟩ then 1 else 0) =
      (if Work.missing key ⟨path, phase⟩ then 1 else 0) +
        if Work.pending key ⟨path, next⟩ then 1 else 0 := by
  cases advance with
  | unresolved | hits | misses => simp [Work.missing, Work.pending]
  | opens => simp [Work.missing, Work.pending, List.count_singleton]
  | @fails _ name error refused =>
      have different : name ≠ key := by
        rintro rfl
        cases decodes.symm.trans refused
      simp [Work.missing, Work.pending, different]
  | @keeps _ name file =>
      have different : name ≠ key := by
        rintro rfl
        exact unused (List.mem_singleton.mpr rfl)
      simp [Work.missing, Work.pending, different]

theorem Work.Advance.unfinished_of_unused {file : ClassFile}
    (advance : Work.Advance options disk path (some cache) phase next? next opened?)
    (located : phase.Located disk path) (decodes : disk.openClass options key = .ok file)
    (unused : key ∉ (WorkPhase.use? (disk.key? path) phase next).toList.map Prod.fst)
    (about : disk.key? path = some key) : (⟨path, next⟩ : Work).unfinished = true := by
  cases advance with
  | misses | opens => rfl
  | unresolved canonical => cases (Disk.key?_eq_none_of_error canonical).symm.trans about
  | hits =>
      rw [about] at unused
      exact absurd (List.mem_singleton.mpr rfl) unused
  | fails refused =>
      cases located.symm.trans about
      cases decodes.symm.trans refused
  | keeps =>
      cases located.symm.trans about
      exact absurd (List.mem_singleton.mpr rfl) unused

theorem Work.Advance.absent {after : Cache ClassFile}
    (advance : Work.Advance options disk path (some cache) phase (some after) next opened?)
    (unused : key ∉ (WorkPhase.use? (disk.key? path) phase next).toList.map Prod.fst)
    (absent : cache.get? key = none) : after.get? key = none := by
  cases advance with
  | unresolved | misses | opens | fails => exact absent
  | hits => exact Cache.get?_refresh_eq_none _ absent
  | @keeps _ name file =>
      have different : name ≠ key := by
        rintro rfl
        exact unused (List.mem_singleton.mpr rfl)
      exact Cache.get?_insert_eq_none file different absent

/-- A step that uses the cache for a path opens nothing. Either the cache held the path, or the
step ends work that had missed it. -/
theorem Work.Advance.settles
    (advance : Work.Advance options disk path (some cache) phase next? next opened?)
    (used : key ∈ (WorkPhase.use? (disk.key? path) phase next).toList.map Prod.fst) :
    opened? = none ∧ Work.missing key ⟨path, next⟩ = false ∧
      Work.missing key ⟨path, phase⟩ = false ∧
      (cache.get? key ≠ none ∨ Work.pending key ⟨path, phase⟩ = true) := by
  cases advance with
  | unresolved | misses | opens | fails => cases used
  | hits canonical found =>
      rw [Disk.key?_eq_some_iff.mpr canonical] at used
      cases List.mem_singleton.mp used
      exact ⟨rfl, rfl, rfl, .inl (by rw [found]; exact Option.some_ne_none _)⟩
  | keeps =>
      cases List.mem_singleton.mp used
      exact ⟨rfl, rfl, rfl, .inr (beq_self_eq_true _)⟩

end

theorem Work.missing_le_pending (key : Bytes) (works : List Work) :
    works.countP (Work.missing key) ≤ works.countP (Work.pending key) := by
  refine List.countP_mono_left fun work _ missing => ?_
  obtain ⟨path, phase⟩ := work
  cases phase with
  | missed => exact missing
  | waiting | opened | finished => cases missing

theorem Workshop.Running.attempts_le {workers : Int} {files : List Bytes} {capacity : Nat}
    {earlier recent : List (Bytes × ClassFile)} {cache : Cache ClassFile} {workshop : Workshop}
    {before after : List Work} {path : Bytes} {next? : Option (Cache ClassFile)}
    {reached phase : WorkPhase} {opened? : Option Bytes} {key : Bytes}
    (running : workshop.Running disk workers files capacity earlier recent cache)
    (room : (disk.keys files).toFinset.card ≤ capacity) (used : key ∈ recent.map Prod.fst)
    (split : workshop.works = before ++ ⟨path, reached⟩ :: after)
    (advance : Work.Advance options disk path (some cache) reached next? phase opened?) :
    (workshop.opened ++ opened?.toList).count key +
        (before ++ ⟨path, phase⟩ :: after).countP (Work.missing key) ≤
      workshop.opened.count key + workshop.works.countP (Work.missing key) := by
  have found :=
    running.remembers.found_of_recent (running.capacity.symm ▸ room) running.within used
  have attempts := advance.attempts_le found
  simp only [split, List.count_append, List.countP_append, List.countP_cons]
  omega

/-- The tally goes on through every step of a run whose files fit into the cache. -/
theorem Workshop.Tallies.step {workers : Int} {files : List Bytes} {capacity : Nat}
    {earlier recent : List (Bytes × ClassFile)} {cache next : Cache ClassFile}
    {workshop : Workshop} {before after : List Work} {path : Bytes}
    {reached phase : WorkPhase} {opened? : Option Bytes} {key : Bytes} {file : ClassFile}
    {cold : Prop}
    (tallies : workshop.Tallies disk key cold
      (min (Workshop.slots workers) ((disk.keys files).count key)) recent cache)
    (running : workshop.Running disk workers files capacity earlier recent cache)
    (room : (disk.keys files).toFinset.card ≤ capacity)
    (decodes : disk.openClass options key = .ok file)
    (split : workshop.works = before ++ ⟨path, reached⟩ :: after)
    (advance : Work.Advance options disk path (some cache) reached (some next) phase opened?) :
    Workshop.Tallies disk key cold (min (Workshop.slots workers) ((disk.keys files).count key))
      ((WorkPhase.use? (disk.key? path) reached phase).toList ++ recent) next
      ⟨some next, before ++ ⟨path, phase⟩ :: after, workshop.opened ++ opened?.toList⟩ := by
  have pending := running.pending_le key
  have present : ⟨path, reached⟩ ∈ workshop.works :=
    split ▸ List.mem_append_right before List.mem_cons_self
  cases tallies with
  | settled used bounded once =>
      refine .settled ?_ ?_ ?_
      · rw [List.map_append]
        exact List.mem_append_right _ used
      · exact Nat.le_trans (running.attempts_le room used split advance) bounded
      · intro absent
        rw [List.count_append]
        exact Nat.le_add_right_of_le (once absent)
  | unsettled unused unfinished balanced absent =>
      by_cases used :
          key ∈ (WorkPhase.use? (disk.key? path) reached phase).toList.map Prod.fst
      · -- The first use of the cache for the path: what was opened by now, or will still be, is
        -- the work in progress on it.
        obtain ⟨rfl, missing, passed, source⟩ := advance.settles used
        refine .settled ?_ ?_ ?_
        · rw [List.map_append]
          exact List.mem_append_left _ used
        · simp only [split, List.count_append, List.countP_append, List.countP_cons,
            Option.toList_none, List.count_nil, missing, passed] at balanced pending ⊢
          omega
        · intro missed
          rcases source with found | kept
          · exact absurd (absent missed) found
          · -- The work that keeps the class has opened it.
            have fewer := Work.missing_le_pending key before
            have fewerLater := Work.missing_le_pending key after
            simp only [split, List.count_append, List.countP_append, List.countP_cons, kept, passed,
              if_true, Bool.false_eq_true, if_false] at balanced ⊢
            omega
      · have change := advance.balanced decodes used
        refine .unsettled ?_ ?_ ?_ ?_
        · rw [List.map_append]
          exact fun member => (List.mem_append.mp member).elim used unused
        · rw [split, List.forall_mem_append, List.forall_mem_cons] at unfinished
          rw [List.forall_mem_append, List.forall_mem_cons]
          exact ⟨unfinished.1,
            advance.unfinished_of_unused (running.located _ present) decodes used, unfinished.2.2⟩
        · simp only [split, List.count_append, List.countP_append, List.countP_cons] at balanced ⊢
          omega
        · exact fun missed => advance.absent used (absent missed)

/-! ## Whole runs -/

/-- All work is finished. -/
def Workshop.Done (workshop : Workshop) : Prop :=
  ∀ work ∈ workshop.works, work.unfinished = false

section

variable {workers : Int} {files : List Bytes} {cache : Cache ClassFile}
  {uses recent : List (Bytes × ClassFile)} {key : Bytes} {file : ClassFile} {next : Workshop}

theorem Workshop.start_running (workers : Int) (remembers : cache.Remembers (recent ++ uses))
    (within : ∀ use ∈ recent, use.1 ∈ disk.keys files) :
    (Workshop.start (some cache) files).Running disk workers files cache.capacity uses recent
      cache := by
  refine ⟨rfl, rfl, remembers, within, Workshop.paths_start _ _, ?_, inOrder_start _ _ _⟩
  intro work member
  obtain ⟨path, -, rfl⟩ := List.mem_map.mp member
  trivial

theorem Workshop.countP_start {held : Work → Bool} (idle : ∀ path, held ⟨path, .waiting⟩ = false) :
    (Workshop.start (some cache) files).works.countP held = 0 := by
  refine List.countP_eq_zero.mpr fun work member => ?_
  obtain ⟨path, -, rfl⟩ := List.mem_map.mp member
  rw [idle path]
  decide

theorem Workshop.start_tallies (bound : Nat) :
    (Workshop.start (some cache) files).Tallies disk key (cache.get? key = none) bound []
      cache := by
  refine .unsettled List.not_mem_nil ?_ ?_ id
  · intro work member _
    obtain ⟨path, -, rfl⟩ := List.mem_map.mp member
    rfl
  · rw [Workshop.countP_start fun _ => rfl, Workshop.countP_start fun _ => rfl]
    rfl

theorem Workshop.Reaches.tallies (remembers : cache.Remembers uses)
    (room : (disk.keys files).toFinset.card ≤ cache.capacity)
    (decodes : disk.openClass options key = .ok file)
    (reached : (Workshop.start (some cache) files).Reaches options disk workers next) :
    ∃ recent after, next.Running disk workers files cache.capacity uses recent after ∧
      next.Tallies disk key (cache.get? key = none)
        (min (Workshop.slots workers) ((disk.keys files).count key)) recent after := by
  refine reached.kept ?_ ?_
  · rintro workshop _ ⟨recent, held, running, tallies⟩ ⟨split, free, advance⟩
    rw [running.cached] at advance
    obtain ⟨after, rfl, continued⟩ := running.step split free advance
    exact ⟨_, after, continued, tallies.step running room decodes split advance⟩
  · exact ⟨[], cache, Workshop.start_running workers remembers (List.forall_mem_nil _),
      Workshop.start_tallies _⟩

/-- In a finished run the cache is used for every path that decodes. -/
theorem Workshop.Tallies.of_done {cold : Prop} {bound : Nat}
    (tallies : next.Tallies disk key cold bound recent cache)
    (paths : next.works.map Work.path = files) (given : key ∈ disk.keys files)
    (done : next.Done) :
    key ∈ recent.map Prod.fst ∧ next.opened.count key ≤ bound ∧
      (cold → 1 ≤ next.opened.count key) := by
  cases tallies with
  | settled used bounded once => exact ⟨used, by omega, once⟩
  | unsettled unused unfinished balanced absent =>
      obtain ⟨path, listed, resolved⟩ := List.mem_filterMap.mp given
      rw [← paths] at listed
      obtain ⟨work, member, rfl⟩ := List.mem_map.mp listed
      cases (unfinished work member resolved).symm.trans (done work member)

/-- A run that starts with a cache used for a path lately does not open it. -/
theorem Workshop.Reaches.unopened (remembers : cache.Remembers (recent ++ uses))
    (within : ∀ use ∈ recent, use.1 ∈ disk.keys files)
    (room : (disk.keys files).toFinset.card ≤ cache.capacity)
    (used : key ∈ recent.map Prod.fst)
    (reached : (Workshop.start (some cache) files).Reaches options disk workers next) :
    key ∉ next.opened := by
  suffices bounded : ∃ recent after,
      next.Running disk workers files cache.capacity uses recent after ∧
        key ∈ recent.map Prod.fst ∧
        next.opened.count key + next.works.countP (Work.missing key) = 0 by
    obtain ⟨_, _, -, -, bounded⟩ := bounded
    exact List.count_eq_zero.mp (by omega)
  refine reached.kept ?_ ?_
  · rintro workshop _ ⟨recent, held, running, used, bounded⟩ ⟨split, free, advance⟩
    rw [running.cached] at advance
    obtain ⟨after, rfl, continued⟩ := running.step split free advance
    refine ⟨_, after, continued, ?_, ?_⟩
    · rw [List.map_append]
      exact List.mem_append_right _ used
    · exact Nat.le_zero.mp (bounded ▸ running.attempts_le room used split advance)
  · refine ⟨recent, cache, Workshop.start_running workers remembers within, used, ?_⟩
    rw [Workshop.countP_start fun _ => rfl]
    rfl

end

end ClassAudit
