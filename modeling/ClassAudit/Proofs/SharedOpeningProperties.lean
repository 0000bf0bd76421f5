import ClassAudit.Proofs.OpenCountProperties

/-!
# Overlapping work on one class

Works that look a class up before any of them has kept it all open it. As many of them can
overlap in this way as there are slots, and no more; once one of them has kept the class it is
not opened again.
-/

set_option autoImplicit false

namespace ClassAudit

variable {options : OpenOptions} {disk : Disk} {workers : Int} {cache : Cache ClassFile}
  {key : Bytes} {file : ClassFile}

/-! ## Going on with a schedule -/

namespace Workshop

theorem Reaches.refl (workshop : Workshop) : workshop.Reaches options disk workers workshop :=
  ⟨[], rfl, rfl⟩

/-- Every schedule can go on until all work is finished. -/
theorem exists_done (options : OpenOptions) (disk : Disk) (workers : Int) (workshop : Workshop) :
    ∃ next, workshop.Reaches options disk workers next ∧ next.Done := by
  induction left : stepsLeft workshop.works using Nat.strongRecOn generalizing workshop with
  | ind count ih =>
      by_cases done : workshop.Done
      · exact ⟨workshop, .refl workshop, done⟩
      · have unfinished : ∃ work ∈ workshop.works, work.unfinished = true := by
          simpa [Done] using done
        obtain ⟨position, admitted⟩ := admits_of_unfinished workers unfinished
        have less := (moves_of_admits options disk admitted).stepsLeft_lt
        obtain ⟨next, reached, finished⟩ := ih _ (left ▸ less) _ rfl
        exact ⟨next, (Reaches.step options disk admitted).trans reached, finished⟩

theorem Reaches.count_opened_le {workshop next : Workshop}
    (reached : workshop.Reaches options disk workers next) (key : Bytes) :
    workshop.opened.count key ≤ next.opened.count key := by
  refine reached.kept ?_ (Nat.le_refl _)
  rintro middle _ less ⟨split, free, advance⟩
  rw [List.count_append]
  exact Nat.le_add_right_of_le less

end Workshop

/-! ## Overlapping openings -/

theorem Work.Advance.cached {path : Bytes} {next? : Option (Cache ClassFile)}
    {phase next : WorkPhase} {opened? : Option Bytes}
    (advance : Work.Advance options disk path (some cache) phase next? next opened?) :
    ∃ after, next? = some after := by
  cases advance <;> exact ⟨_, rfl⟩

theorem Work.Advance.unused_of_other {path : Bytes} {next? : Option (Cache ClassFile)}
    {phase next : WorkPhase} {opened? : Option Bytes}
    (advance : Work.Advance options disk path (some cache) phase next? next opened?)
    (located : phase.Located disk path) (other : disk.key? path ≠ some key) :
    key ∉ (WorkPhase.use? (disk.key? path) phase next).toList.map Prod.fst := by
  intro member
  obtain ⟨use, made, rfl⟩ := List.mem_map.mp member
  exact other (advance.use?_mem located made)

/-- Work on another path can be finished without the cache being used for this one. -/
theorem Workshop.reaches_finished {path : Bytes} {phase : WorkPhase} {before : List Work}
    (after : List Work) (opened : List Bytes)
    (free : before.countP Work.unfinished < Workshop.slots workers)
    (located : phase.Located disk path) (other : disk.key? path ≠ some key)
    (absent : cache.get? key = none) :
    ∃ later decoded openings, later.get? key = none ∧
      Workshop.Reaches options disk workers ⟨some cache, before ++ ⟨path, phase⟩ :: after, opened⟩
        ⟨some later, before ++ ⟨path, .finished decoded⟩ :: after, openings⟩ := by
  induction left : phase.stepsLeft using Nat.strongRecOn generalizing phase cache opened with
  | ind count ih =>
      by_cases unfinished : (⟨path, phase⟩ : Work).unfinished = true
      · have advance := Workshop.phaseStep_advance options disk (some cache) unfinished
        obtain ⟨next, same⟩ := advance.cached
        rw [same] at advance
        have still := advance.absent (advance.unused_of_other located other) absent
        obtain ⟨later, decoded, openings, kept, reached⟩ :=
          ih _ (left ▸ advance.stepsLeft_lt) _ (advance.located located) still rfl
        exact ⟨later, decoded, openings, kept,
          (Workshop.reaches_of_free after opened free advance).trans reached⟩
      · cases phase with
        | finished decoded => exact ⟨cache, decoded, opened, absent, .refl _⟩
        | waiting | missed | opened => exact absurd rfl unfinished

theorem Disk.count_keys_cons (disk : Disk) (path : Bytes) (rest : List Bytes) (key : Bytes) :
    (disk.keys (path :: rest)).count key =
      (disk.keys rest).count key + if disk.key? path = some key then 1 else 0 := by
  rw [Disk.keys, Disk.keys, List.count_filterMap, List.count_filterMap, List.countP_cons]
  simp only [beq_iff_eq]

/-- Every slot that is free can take up a file of its own before the class is kept. -/
theorem Workshop.reaches_overlap (workers : Int) (files : List Bytes) (before : List Work)
    (opened : List Bytes) (decodes : disk.openClass options key = .ok file)
    (absent : cache.get? key = none) :
    ∃ next, Workshop.Reaches options disk workers
        ⟨some cache, before ++ files.map fun path => ⟨path, .waiting⟩, opened⟩ next ∧
      opened.count key + min (Workshop.slots workers - before.countP Work.unfinished)
        ((disk.keys files).count key) ≤ next.opened.count key := by
  induction files generalizing before cache opened with
  | nil => exact ⟨_, .refl _, by simp [Disk.keys]⟩
  | cons path rest ih =>
      rw [List.map_cons, disk.count_keys_cons]
      by_cases free : before.countP Work.unfinished < Workshop.slots workers
      · by_cases about : disk.key? path = some key
        · -- The file is opened, and its class not kept yet: one slot less is free.
          have misses : Work.Advance options disk path (some cache) .waiting _ _ _ :=
            .misses (Disk.key?_eq_some_iff.mp about) absent
          have opens := (Workshop.reaches_of_free _ opened free misses).trans
            (Workshop.reaches_of_free (rest.map fun path => ⟨path, .waiting⟩) _ free
              (.opens decodes))
          obtain ⟨next, reached, enough⟩ :=
            ih (before ++ [⟨path, .opened key file⟩]) (opened ++ [key]) absent
          rw [List.append_assoc] at reached
          refine ⟨next, ?_, ?_⟩
          · refine opens.trans ?_
            rw [Option.toList_none, List.append_nil]
            exact reached
          · have busy : Work.unfinished ⟨path, .opened key file⟩ = true := rfl
            rw [List.countP_append, List.countP_singleton, if_pos busy, List.count_append,
              List.count_singleton_self] at enough
            rw [if_pos about]
            omega
        · have located : WorkPhase.waiting.Located disk path := trivial
          obtain ⟨later, decoded, openings, still, finished⟩ :=
            Workshop.reaches_finished (rest.map fun path => ⟨path, .waiting⟩) opened free located
              about absent
          obtain ⟨next, reached, enough⟩ :=
            ih (before ++ [⟨path, .finished decoded⟩]) openings still
          rw [List.append_assoc] at reached
          refine ⟨next, finished.trans reached, ?_⟩
          have idle : ¬ Work.unfinished ⟨path, .finished decoded⟩ = true := Bool.false_ne_true
          have grown : opened.count key ≤ openings.count key := finished.count_opened_le key
          rw [List.countP_append, List.countP_singleton, if_neg idle] at enough
          rw [if_neg about]
          omega
      · refine ⟨_, .refl _, ?_⟩
        rw [Nat.sub_eq_zero_of_le (Nat.le_of_not_lt free), Nat.zero_min]
        exact Nat.le_refl _

theorem Workshop.exists_done_overlap (workers : Int) (files : List Bytes)
    (decodes : disk.openClass options key = .ok file) (absent : cache.get? key = none) :
    ∃ next, (Workshop.start (some cache) files).Reaches options disk workers next ∧ next.Done ∧
      min (Workshop.slots workers) ((disk.keys files).count key) ≤ next.opened.count key := by
  obtain ⟨middle, reached, enough⟩ :=
    Workshop.reaches_overlap workers files [] [] decodes absent
  obtain ⟨next, completed, done⟩ := Workshop.exists_done options disk workers middle
  refine ⟨next, reached.trans completed, done, ?_⟩
  have grown := completed.count_opened_le key
  rw [List.count_nil, Nat.zero_add] at enough
  exact Nat.le_trans enough grown

/-- How often a class that several files share is opened. With room in the cache for all files,
a run opens it at most once for every slot and for every file, and at least once if the cache
did not hold it; the next run does not open it, whatever the disk holds by then. Some order of the
steps reaches the bound, so that the class is opened once in all of them exactly when there is one
slot or one file. -/
theorem openings_of_shared_class {uses : List (Bytes × ClassFile)} {files : List Bytes}
    (remembers : cache.Remembers uses)
    (room : (disk.keys files).toFinset.card ≤ cache.capacity)
    (decodes : disk.openClass options key = .ok file) (given : key ∈ disk.keys files)
    (workers : Int) :
    (∀ next, (Workshop.start (some cache) files).Reaches options disk workers next → next.Done →
      next.opened.count key ≤ min (Workshop.slots workers) ((disk.keys files).count key) ∧
      (cache.get? key = none → 1 ≤ next.opened.count key) ∧
      ∀ later : Disk, later.keys files = disk.keys files → ∀ workers again,
        (Workshop.start next.cache? files).Reaches options later workers again →
        key ∉ again.opened) ∧
    (cache.get? key = none →
      (∃ next, (Workshop.start (some cache) files).Reaches options disk workers next ∧
        next.Done ∧
        next.opened.count key = min (Workshop.slots workers) ((disk.keys files).count key)) ∧
      ((∀ next, (Workshop.start (some cache) files).Reaches options disk workers next →
          next.Done → next.opened.count key = 1) ↔
        Workshop.slots workers = 1 ∨ (disk.keys files).count key = 1)) := by
  have bounds : ∀ next,
      (Workshop.start (some cache) files).Reaches options disk workers next → next.Done →
      next.opened.count key ≤ min (Workshop.slots workers) ((disk.keys files).count key) ∧
        (cache.get? key = none → 1 ≤ next.opened.count key) := by
    intro next reached done
    obtain ⟨recent, after, running, tallies⟩ := reached.tallies remembers room decodes
    exact (tallies.of_done running.paths given done).2
  constructor
  · intro next reached done
    refine ⟨(bounds next reached done).1, (bounds next reached done).2, ?_⟩
    intro later same workers again continued
    obtain ⟨recent, after, running, tallies⟩ := reached.tallies remembers room decodes
    have used := (tallies.of_done running.paths given done).1
    rw [running.cached] at continued
    refine continued.unopened running.remembers ?_ ?_ used
    · rw [same]
      exact running.within
    · rw [same, running.capacity]
      exact room
  · intro absent
    have attained : ∃ next,
        (Workshop.start (some cache) files).Reaches options disk workers next ∧ next.Done ∧
        next.opened.count key = min (Workshop.slots workers) ((disk.keys files).count key) := by
      obtain ⟨next, reached, done, enough⟩ :=
        Workshop.exists_done_overlap workers files decodes absent
      exact ⟨next, reached, done, Nat.le_antisymm (bounds next reached done).1 enough⟩
    refine ⟨attained, ?_, ?_⟩
    · intro once
      obtain ⟨next, reached, done, most⟩ := attained
      have single := once next reached done
      omega
    · intro single next reached done
      obtain ⟨most, least⟩ := bounds next reached done
      have least := least absent
      omega

/-- Work on the three files with room in the cache for the two classes they could be. -/
def roomyWork : Workshop := .start (some ⟨2, []⟩) ["a", "b", "c"]

theorem openings_of_shared_class_linked :
    linkedTree.keys ["a", "b", "c"] = (["/a", "/a", "/c"] : List Bytes) ∧
      (∃ next, roomyWork.Reaches {} linkedTree 2 next ∧ next.Done ∧
        next.opened.count ("/a" : Bytes) = 2) ∧
      ∀ next, roomyWork.Reaches {} linkedTree 1 next → next.Done →
        next.opened.count ("/a" : Bytes) = 1 := by
  have keys : linkedTree.keys ["a", "b", "c"] = (["/a", "/a", "/c"] : List Bytes) := by
    decide +kernel
  have opens : (linkedTree.openClass {} "/a").toOption.isSome = true := by decide +kernel
  obtain ⟨file, decodes⟩ := isSome_toOption_iff.mp opens
  have room : (linkedTree.keys ["a", "b", "c"]).toFinset.card ≤ 2 := by
    rw [keys]
    decide
  have given : ("/a" : Bytes) ∈ linkedTree.keys ["a", "b", "c"] := by
    rw [keys]
    exact List.mem_cons_self
  have cold : (⟨2, []⟩ : Cache ClassFile).Remembers [] := rfl
  obtain ⟨-, overlap⟩ := openings_of_shared_class cold room decodes given 2
  obtain ⟨-, alone⟩ := openings_of_shared_class cold room decodes given 1
  refine ⟨keys, ?_, (alone rfl).2.mpr (.inl rfl)⟩
  have twice := (overlap rfl).1
  rw [keys] at twice
  exact twice

/-- Two workers look the shared class up, then both open it, then both keep it. A later run
finds it in the cache. -/
theorem shared_class_opened_twice :
    linkedTree.keys ["a", "b", "c"] = (["/a", "/a", "/c"] : List Bytes) ∧
      roomyWork.follows {} linkedTree 2 [0, 1, 0, 1, 0, 1, 2, 2] = true ∧
      (roomyWork.runSchedule {} linkedTree [0, 1, 0, 1, 0, 1, 2, 2]).works.any
        Work.unfinished = false ∧
      (roomyWork.runSchedule {} linkedTree [0, 1, 0, 1, 0, 1, 2, 2]).opened =
        (["/a", "/a", "/c"] : List Bytes) ∧
      ((Workshop.start (roomyWork.runSchedule {} linkedTree [0, 1, 0, 1, 0, 1, 2, 2]).cache?
        ["a", "b"]).runSchedule {} linkedTree [0, 1]).opened = [] := by
  refine ⟨?_, ?_, ?_, ?_, ?_⟩ <;> decide +kernel

end ClassAudit
