import ClassAudit.Proofs.DecodeHistoryProperties
import ClassAudit.Proofs.RunReportProperties
import ClassAudit.Runner.Schedule

/-!
# Schedules

Whatever the order of their steps, workers that share a cache reach a report, and the report
agrees with the one without a cache. The sequential run is one of the schedules.
-/

set_option autoImplicit false

namespace ClassAudit

variable {options : OpenOptions} {disk : Disk}

/-! ## Caches over a disk -/

/-- Every class of a cache is what opening its key gives. -/
def Cache.Faithful (options : OpenOptions) (disk : Disk) (cache : Cache ClassFile) : Prop :=
  ∀ entry ∈ cache.entries, disk.openClass options entry.1 = .ok entry.2

/-- The cache, if there is one, is faithful to the disk. -/
def Disk.Backs (options : OpenOptions) (disk : Disk) (cache? : Option (Cache ClassFile)) : Prop :=
  ∀ cache, cache? = some cache → cache.Faithful options disk

theorem Cache.Faithful.get? {cache : Cache ClassFile} {key : Bytes} {file : ClassFile}
    (faithful : cache.Faithful options disk) (found : cache.get? key = some file) :
    disk.openClass options key = .ok file :=
  faithful (key, file) (Cache.mem_of_get? found)

theorem Cache.Faithful.refresh {cache : Cache ClassFile} (faithful : cache.Faithful options disk)
    (key : Bytes) : (cache.refresh key).Faithful options disk :=
  fun entry member => faithful entry (Cache.mem_refresh member)

theorem Cache.Faithful.insert {cache : Cache ClassFile} {key : Bytes} {file : ClassFile}
    (faithful : cache.Faithful options disk) (opened : disk.openClass options key = .ok file) :
    (cache.insert key file).Faithful options disk := by
  intro entry member
  rcases Cache.mem_insert member with rfl | earlier
  · exact opened
  · exact faithful entry earlier

theorem Disk.Decodes.of_key {path key : Bytes} (options : OpenOptions)
    (canonical : disk.canonicalPath path = .ok key) :
    disk.Decodes options path (disk.openClass options key) :=
  .inr ⟨key, canonical, Disk.openClass_alike options canonical⟩

theorem Disk.Decodes.of_canonicalPath_error {path : Bytes} {error : OpenError}
    (unresolved : disk.canonicalPath path = .error error) :
    disk.Decodes options path (.error error) := by
  left
  rw [Disk.openClass, unresolved]
  rfl

/-! ## Single steps -/

/-- The steps that the work on a file can take: what they make of the cache and the phase, and
the path that they open. -/
inductive Work.Advance (options : OpenOptions) (disk : Disk) (path : Bytes) :
    Option (Cache ClassFile) → WorkPhase →
      Option (Cache ClassFile) → WorkPhase → Option Bytes → Prop where
  | opensPath :
      Work.Advance options disk path none .waiting
        none (.finished (disk.openClass options path)) (some path)
  | unresolved {cache : Cache ClassFile} {error : OpenError}
      (canonical : disk.canonicalPath path = .error error) :
      Work.Advance options disk path (some cache) .waiting
        (some cache) (.finished (.error error)) none
  | hits {cache : Cache ClassFile} {key : Bytes} {file : ClassFile}
      (canonical : disk.canonicalPath path = .ok key) (found : cache.get? key = some file) :
      Work.Advance options disk path (some cache) .waiting
        (some (cache.refresh key)) (.finished (.ok file)) none
  | misses {cache : Cache ClassFile} {key : Bytes}
      (canonical : disk.canonicalPath path = .ok key) (absent : cache.get? key = none) :
      Work.Advance options disk path (some cache) .waiting (some cache) (.missed key) none
  | opens {cache? : Option (Cache ClassFile)} {key : Bytes} {file : ClassFile}
      (opened : disk.openClass options key = .ok file) :
      Work.Advance options disk path cache? (.missed key) cache? (.opened key file) (some key)
  | fails {cache? : Option (Cache ClassFile)} {key : Bytes} {error : OpenError}
      (refused : disk.openClass options key = .error error) :
      Work.Advance options disk path cache? (.missed key)
        cache? (.finished (.error error)) (some key)
  | keeps {cache? : Option (Cache ClassFile)} {key : Bytes} {file : ClassFile} :
      Work.Advance options disk path cache? (.opened key file)
        (cache?.map fun cache => cache.insert key file) (.finished (.ok file)) none

theorem Workshop.phaseStep_advance (options : OpenOptions) (disk : Disk)
    (cache? : Option (Cache ClassFile)) {work : Work} (unfinished : work.unfinished = true) :
    Work.Advance options disk work.path cache? work.phase
      (Workshop.phaseStep options disk cache? work).1
      (Workshop.phaseStep options disk cache? work).2.1
      (Workshop.phaseStep options disk cache? work).2.2 := by
  obtain ⟨path, phase⟩ := work
  cases phase with
  | waiting =>
      cases cache? with
      | none => exact .opensPath
      | some cache =>
          cases canonical : disk.canonicalPath path with
          | error error =>
              simp only [Workshop.phaseStep, canonical]
              exact .unresolved canonical
          | ok key =>
              cases found : cache.get? key with
              | some file =>
                  simp only [Workshop.phaseStep, canonical, found]
                  exact .hits canonical found
              | none =>
                  simp only [Workshop.phaseStep, canonical, found]
                  exact .misses canonical found
  | missed key =>
      cases opened : disk.openClass options key with
      | ok file =>
          simp only [Workshop.phaseStep, opened]
          exact .opens opened
      | error error =>
          simp only [Workshop.phaseStep, opened]
          exact .fails opened
  | opened key file => exact .keeps
  | finished decoded => cases unfinished

theorem Work.Advance.phaseStep_eq {path : Bytes} {cache? next? : Option (Cache ClassFile)}
    {phase next : WorkPhase} {opened? : Option Bytes}
    (advance : Work.Advance options disk path cache? phase next? next opened?) :
    Workshop.phaseStep options disk cache? ⟨path, phase⟩ = (next?, next, opened?) := by
  cases advance with
  | opensPath | keeps => rfl
  | unresolved canonical => simp only [Workshop.phaseStep, canonical]
  | hits canonical found => simp only [Workshop.phaseStep, canonical, found]
  | misses canonical absent => simp only [Workshop.phaseStep, canonical, absent]
  | opens opened => simp only [Workshop.phaseStep, opened]
  | fails refused => simp only [Workshop.phaseStep, refused]

theorem Work.Advance.unfinished {path : Bytes} {cache? next? : Option (Cache ClassFile)}
    {phase next : WorkPhase} {opened? : Option Bytes}
    (advance : Work.Advance options disk path cache? phase next? next opened?) :
    (⟨path, phase⟩ : Work).unfinished = true := by
  cases advance <;> rfl

/-- A workshop after the next step of one of its works. -/
inductive Workshop.Moves (options : OpenOptions) (disk : Disk) (workshop : Workshop) :
    Workshop → Prop where
  | work {before after : List Work} {work : Work} {cache? : Option (Cache ClassFile)}
      {phase : WorkPhase} {opened? : Option Bytes}
      (split : workshop.works = before ++ work :: after)
      (advance :
        Work.Advance options disk work.path workshop.cache? work.phase cache? phase opened?) :
      Workshop.Moves options disk workshop
        ⟨cache?, before ++ { work with phase } :: after, workshop.opened ++ opened?.toList⟩

theorem Workshop.step_of_split {workshop : Workshop} {before after : List Work} {work : Work}
    (options : OpenOptions) (disk : Disk) (split : workshop.works = before ++ work :: after) :
    workshop.step options disk before.length =
      ⟨(Workshop.phaseStep options disk workshop.cache? work).1,
        before ++ ⟨work.path, (Workshop.phaseStep options disk workshop.cache? work).2.1⟩ :: after,
        workshop.opened ++
          (Workshop.phaseStep options disk workshop.cache? work).2.2.toList⟩ := by
  have found : workshop.works[before.length]? = some work := by
    rw [split, List.getElem?_append_right (Nat.le_refl _), Nat.sub_self]
    rfl
  have replaced : ∀ next : Work,
      workshop.works.set before.length next = before ++ next :: after := by
    intro next
    rw [split, List.set_append_right _ _ (Nat.le_refl _), Nat.sub_self, List.set_cons_zero]
  simp only [Workshop.step, found, replaced]

theorem Workshop.admits_iff {workers : Int} {workshop : Workshop} {position : Nat} :
    workshop.admits workers position = true ↔
      ∃ before work after, workshop.works = before ++ work :: after ∧
        before.length = position ∧ work.unfinished = true ∧
        before.countP Work.unfinished < Workshop.slots workers := by
  constructor
  · intro admitted
    obtain ⟨present, free⟩ := Bool.and_eq_true_iff.mp admitted
    obtain ⟨work, found, unfinished⟩ := (Option.any_eq_true _ _).mp present
    obtain ⟨bound, here⟩ := List.getElem?_eq_some_iff.mp found
    refine ⟨workshop.works.take position, work, workshop.works.drop (position + 1), ?_,
      List.length_take_of_le (Nat.le_of_lt bound), unfinished, of_decide_eq_true free⟩
    rw [← here, List.getElem_cons_drop, List.take_append_drop]
  · rintro ⟨before, work, after, split, rfl, unfinished, free⟩
    rw [Workshop.admits, split, List.take_left, List.getElem?_append_right (Nat.le_refl _),
      Nat.sub_self]
    exact Bool.and_eq_true_iff.mpr ⟨unfinished, decide_eq_true free⟩

theorem Workshop.moves_of_admits {workers : Int} {workshop : Workshop} {position : Nat}
    (options : OpenOptions) (disk : Disk)
    (admitted : workshop.admits workers position = true) :
    workshop.Moves options disk (workshop.step options disk position) := by
  obtain ⟨before, work, after, split, rfl, unfinished, -⟩ := Workshop.admits_iff.mp admitted
  rw [Workshop.step_of_split options disk split]
  exact .work split (Workshop.phaseStep_advance options disk workshop.cache? unfinished)

/-! ## What every step keeps -/

/-- What a phase says about the disk. -/
def WorkPhase.Sound (options : OpenOptions) (disk : Disk) (path : Bytes) : WorkPhase → Prop
  | .waiting => True
  | .missed key => disk.canonicalPath path = .ok key
  | .opened key file =>
      disk.canonicalPath path = .ok key ∧ disk.openClass options key = .ok file
  | .finished decoded => disk.Decodes options path decoded

/-- The cache and every phase say what is on the disk, and the files stay in place. -/
structure Workshop.Sound (options : OpenOptions) (disk : Disk) (files : List Bytes)
    (workshop : Workshop) : Prop where
  cache : disk.Backs options workshop.cache?
  phases : ∀ work ∈ workshop.works, work.phase.Sound options disk work.path
  paths : workshop.works.map Work.path = files

theorem Workshop.paths_start (cache? : Option (Cache ClassFile)) (files : List Bytes) :
    (Workshop.start cache? files).works.map Work.path = files := by
  rw [Workshop.start, List.map_map]
  exact List.map_id files

theorem Workshop.start_sound {cache? : Option (Cache ClassFile)}
    (backed : disk.Backs options cache?) (files : List Bytes) :
    (Workshop.start cache? files).Sound options disk files := by
  refine ⟨backed, ?_, Workshop.paths_start cache? files⟩
  intro work member
  obtain ⟨path, -, rfl⟩ := List.mem_map.mp member
  trivial

theorem Work.Advance.phase_sound {path : Bytes} {cache? next? : Option (Cache ClassFile)}
    {phase next : WorkPhase} {opened? : Option Bytes}
    (advance : Work.Advance options disk path cache? phase next? next opened?)
    (backed : disk.Backs options cache?) (sound : phase.Sound options disk path) :
    next.Sound options disk path := by
  cases advance with
  | opensPath => exact .inl rfl
  | unresolved canonical => exact .of_canonicalPath_error canonical
  | hits canonical found =>
      have decodes := Disk.Decodes.of_key options canonical
      rw [(backed _ rfl).get? found] at decodes
      exact decodes
  | misses canonical absent => exact canonical
  | opens opened => exact ⟨sound, opened⟩
  | fails refused =>
      have decodes := Disk.Decodes.of_key options sound
      rw [refused] at decodes
      exact decodes
  | keeps =>
      have decodes := Disk.Decodes.of_key options sound.1
      rw [sound.2] at decodes
      exact decodes

theorem Work.Advance.backs {path : Bytes} {cache? next? : Option (Cache ClassFile)}
    {phase next : WorkPhase} {opened? : Option Bytes}
    (advance : Work.Advance options disk path cache? phase next? next opened?)
    (backed : disk.Backs options cache?) (sound : phase.Sound options disk path) :
    disk.Backs options next? := by
  intro cache known
  cases advance with
  | opensPath => cases known
  | unresolved | misses | opens | fails => exact backed cache known
  | hits canonical found =>
      cases known
      exact (backed _ rfl).refresh _
  | keeps =>
      obtain ⟨earlier, held, rfl⟩ := Option.map_eq_some_iff.mp known
      exact (backed earlier held).insert sound.2

theorem Workshop.Sound.move {files : List Bytes} {workshop next : Workshop}
    (sound : workshop.Sound options disk files) (moved : workshop.Moves options disk next) :
    next.Sound options disk files := by
  cases moved with
  | @work before after work cache? phase opened? split advance =>
      have here := sound.phases work (split ▸ List.mem_append_right before List.mem_cons_self)
      refine ⟨advance.backs sound.cache here, ?_, ?_⟩
      · intro other member
        rcases List.mem_append.mp member with earlier | member
        · exact sound.phases other (split ▸ List.mem_append_left _ earlier)
        · rcases List.mem_cons.mp member with rfl | later
          · exact advance.phase_sound sound.cache here
          · exact sound.phases other
              (split ▸ List.mem_append_right before (List.mem_cons_of_mem work later))
      · rw [← sound.paths, split, List.map_append, List.map_append]
        rfl

/-! ## Whole schedules -/

/-- What every step keeps holds after a schedule. -/
theorem Workshop.kept_by_schedule {Kept : Workshop → Prop} {workers : Int}
    (move : ∀ workshop next, Kept workshop → workshop.Moves options disk next → Kept next)
    {schedule : List Nat} {workshop : Workshop} (kept : Kept workshop)
    (followed : workshop.follows options disk workers schedule = true) :
    Kept (workshop.runSchedule options disk schedule) := by
  induction schedule generalizing workshop with
  | nil => exact kept
  | cons position rest ih =>
      obtain ⟨admitted, followed⟩ := Bool.and_eq_true_iff.mp followed
      exact ih (move _ _ kept (Workshop.moves_of_admits options disk admitted)) followed

theorem Workshop.Sound.runSchedule {files : List Bytes} {workers : Int} {schedule : List Nat}
    {workshop : Workshop} (sound : workshop.Sound options disk files)
    (followed : workshop.follows options disk workers schedule = true) :
    (workshop.runSchedule options disk schedule).Sound options disk files :=
  Workshop.kept_by_schedule (fun _ _ sound moved => sound.move moved) sound followed

/-- How many steps are left at most. -/
def WorkPhase.stepsLeft : WorkPhase → Nat
  | .waiting => 3
  | .missed _ => 2
  | .opened _ _ => 1
  | .finished _ => 0

def stepsLeft (works : List Work) : Nat :=
  works.foldr (fun work total => work.phase.stepsLeft + total) 0

theorem stepsLeft_append (before after : List Work) :
    stepsLeft (before ++ after) = stepsLeft before + stepsLeft after := by
  induction before with
  | nil => exact (Nat.zero_add _).symm
  | cons work rest ih =>
      exact (congrArg (work.phase.stepsLeft + ·) ih).trans (Nat.add_assoc ..).symm

theorem Work.Advance.stepsLeft_lt {path : Bytes} {cache? next? : Option (Cache ClassFile)}
    {phase next : WorkPhase} {opened? : Option Bytes}
    (advance : Work.Advance options disk path cache? phase next? next opened?) :
    next.stepsLeft < phase.stepsLeft := by
  cases advance <;> simp only [WorkPhase.stepsLeft] <;> omega

theorem Workshop.Moves.stepsLeft_lt {workshop next : Workshop}
    (moved : workshop.Moves options disk next) :
    stepsLeft next.works < stepsLeft workshop.works := by
  cases moved with
  | @work before after work cache? phase opened? split advance =>
      have less := advance.stepsLeft_lt
      rw [split, stepsLeft_append, stepsLeft_append]
      exact Nat.add_lt_add_left (Nat.add_lt_add_right less _) _

theorem Workshop.length_add_stepsLeft_le {workers : Int} {schedule : List Nat}
    {workshop : Workshop} (followed : workshop.follows options disk workers schedule = true) :
    schedule.length + stepsLeft (workshop.runSchedule options disk schedule).works ≤
      stepsLeft workshop.works := by
  induction schedule generalizing workshop with
  | nil => exact Nat.le_of_eq (Nat.zero_add _)
  | cons position rest ih =>
      obtain ⟨admitted, followed⟩ := Bool.and_eq_true_iff.mp followed
      have less := (Workshop.moves_of_admits options disk admitted).stepsLeft_lt
      have bound := ih followed
      change rest.length + 1 +
        stepsLeft ((workshop.step options disk position).runSchedule options disk rest).works ≤ _
      omega

theorem stepsLeft_start (cache? : Option (Cache ClassFile)) (files : List Bytes) :
    stepsLeft (Workshop.start cache? files).works = 3 * files.length := by
  induction files with
  | nil => rfl
  | cons path rest ih => exact (congrArg (3 + ·) ih).trans (Nat.add_comm ..)

/-! ## Reaching a report -/

theorem Workshop.one_le_slots (workers : Int) : 1 ≤ Workshop.slots workers := by
  unfold Workshop.slots
  omega

/-- Behind finished works there is always a free slot. -/
theorem Workshop.free_of_finished {before : List Work} (workers : Int)
    (finished : ∀ earlier ∈ before, earlier.unfinished = false) :
    before.countP Work.unfinished < Workshop.slots workers := by
  have none : before.countP Work.unfinished = 0 :=
    List.countP_eq_zero.mpr fun earlier member => by rw [finished earlier member]; decide
  rw [none]
  exact Workshop.one_le_slots workers

theorem Workshop.admits_of_unfinished {workshop : Workshop} (workers : Int)
    (left : ∃ work ∈ workshop.works, work.unfinished = true) :
    ∃ position, workshop.admits workers position = true := by
  obtain ⟨first, found⟩ := Option.isSome_iff_exists.mp (List.find?_isSome.mpr left)
  obtain ⟨unfinished, before, after, split, passed⟩ := List.find?_eq_some_iff_append.mp found
  refine ⟨before.length, Workshop.admits_iff.mpr ⟨before, first, after, split, rfl, unfinished, ?_⟩⟩
  refine Workshop.free_of_finished workers ?_
  intro earlier member
  simpa using passed earlier member

theorem Work.outcome?_eq_none {rules : List Rule} {work : Work}
    (missing : work.outcome? rules = none) : work.unfinished = true := by
  obtain ⟨path, phase⟩ := work
  cases phase with
  | finished decoded => cases missing
  | waiting | missed | opened => rfl

theorem Work.exists_unfinished {rules : List Rule} {works : List Work}
    (missing : works.mapM (Work.outcome? rules) = none) :
    ∃ work ∈ works, work.unfinished = true := by
  induction works with
  | nil => cases missing
  | cons work rest ih =>
      cases outcome : work.outcome? rules with
      | none => exact ⟨work, List.mem_cons_self, Work.outcome?_eq_none outcome⟩
      | some entry =>
          cases others : rest.mapM (Work.outcome? rules) with
          | none =>
              obtain ⟨left, member, unfinished⟩ := ih others
              exact ⟨left, List.mem_cons_of_mem work member, unfinished⟩
          | some entries =>
              rw [List.mapM_cons, outcome, others] at missing
              cases missing

theorem Work.outcome?_eq_some {rules : List Rule} {work : Work} {entry : Bytes × FileOutcome}
    (sound : work.phase.Sound options disk work.path) (outcome : work.outcome? rules = some entry) :
    ∃ decoded, disk.Decodes options work.path decoded ∧
      entry = (work.path, .of rules work.path decoded) := by
  obtain ⟨path, phase⟩ := work
  cases phase with
  | finished decoded =>
      cases outcome
      exact ⟨decoded, sound, rfl⟩
  | waiting | missed | opened => cases outcome

theorem Work.report_agrees {rules : List Rule} {works : List Work}
    {entries : List (Bytes × FileOutcome)} {report plain : Report}
    (sound : ∀ work ∈ works, work.phase.Sound options disk work.path)
    (collected : works.mapM (Work.outcome? rules) = some entries)
    (agrees : report.Agrees disk plain) :
    (entries.foldl (fun report entry => report.add entry.1 entry.2) report).Agrees disk
      ((works.map Work.path).foldl (fun report path =>
        report.add path (.of rules path (disk.openClass options path))) plain) := by
  induction works generalizing entries report plain with
  | nil =>
      cases collected
      exact agrees
  | cons work rest ih =>
      rw [List.mapM_cons] at collected
      obtain ⟨entry, outcome, continued⟩ := Option.bind_eq_some_iff.mp collected
      obtain ⟨others, gathered, same⟩ := Option.bind_eq_some_iff.mp continued
      obtain ⟨decoded, decodes, rfl⟩ :=
        Work.outcome?_eq_some (sound work List.mem_cons_self) outcome
      cases same
      rw [List.map_cons, List.foldl_cons, List.foldl_cons]
      exact ih (fun other member => sound other (List.mem_cons_of_mem work member)) gathered
        (agrees.add rules decodes)

theorem Workshop.Sound.report_agrees {paths : List Bytes} {rules : List Rule} {workshop : Workshop}
    {report : Report} (sound : workshop.Sound options disk (disk.expand paths))
    (written : workshop.report? rules = some report) :
    report.Agrees disk (plainReport options disk paths rules) := by
  obtain ⟨entries, collected, rfl⟩ := Option.map_eq_some_iff.mp written
  have agrees := Work.report_agrees sound.phases collected
    (⟨rfl, rfl, .nil⟩ : Report.empty.Agrees disk .empty)
  rw [sound.paths] at agrees
  unfold plainReport Report.ofOutcomes
  rw [List.foldl_map]
  exact agrees

/-! ## The sequential run -/

/-- A schedule that the workers can follow leads from one workshop to another. -/
def Workshop.Reaches (options : OpenOptions) (disk : Disk) (workers : Int)
    (workshop next : Workshop) : Prop :=
  ∃ schedule, workshop.follows options disk workers schedule = true ∧
    workshop.runSchedule options disk schedule = next

theorem Workshop.follows_append {workers : Int} {workshop : Workshop} {first second : List Nat}
    (followed : workshop.follows options disk workers first = true)
    (continued :
      (workshop.runSchedule options disk first).follows options disk workers second = true) :
    workshop.follows options disk workers (first ++ second) = true := by
  induction first generalizing workshop with
  | nil => exact continued
  | cons position rest ih =>
      obtain ⟨admitted, followed⟩ := Bool.and_eq_true_iff.mp followed
      exact Bool.and_eq_true_iff.mpr ⟨admitted, ih followed continued⟩

theorem Workshop.Reaches.trans {workers : Int} {workshop middle next : Workshop}
    (first : workshop.Reaches options disk workers middle)
    (second : middle.Reaches options disk workers next) :
    workshop.Reaches options disk workers next := by
  obtain ⟨schedule, followed, rfl⟩ := first
  obtain ⟨rest, continued, rfl⟩ := second
  refine ⟨schedule ++ rest, Workshop.follows_append followed continued, ?_⟩
  exact List.foldl_append

theorem Workshop.Reaches.step (options : OpenOptions) (disk : Disk) {workers : Int}
    {workshop : Workshop} {position : Nat} (admitted : workshop.admits workers position = true) :
    workshop.Reaches options disk workers (workshop.step options disk position) :=
  ⟨[position], Bool.and_eq_true_iff.mpr ⟨admitted, rfl⟩, rfl⟩

theorem Workshop.reaches_of_free {path : Bytes} {cache? next? : Option (Cache ClassFile)}
    {phase next : WorkPhase} {opened? : Option Bytes} {before : List Work} {workers : Int}
    (after : List Work) (opened : List Bytes)
    (free : before.countP Work.unfinished < Workshop.slots workers)
    (advance : Work.Advance options disk path cache? phase next? next opened?) :
    Workshop.Reaches options disk workers ⟨cache?, before ++ ⟨path, phase⟩ :: after, opened⟩
      ⟨next?, before ++ ⟨path, next⟩ :: after, opened ++ opened?.toList⟩ := by
  have admitted : (⟨cache?, before ++ ⟨path, phase⟩ :: after, opened⟩ : Workshop).admits workers
      before.length = true :=
    Workshop.admits_iff.mpr ⟨before, _, after, rfl, rfl, advance.unfinished, free⟩
  have stepped := Workshop.Reaches.step options disk admitted
  rw [Workshop.step_of_split options disk rfl, advance.phaseStep_eq] at stepped
  exact stepped

theorem Workshop.reaches_decoded {before : List Work} (runner : Runner) (disk : Disk)
    (workers : Int) (path : Bytes) (after : List Work) (opened : List Bytes)
    (finished : ∀ earlier ∈ before, earlier.unfinished = false) :
    ∃ later, Workshop.Reaches runner.options disk workers
      ⟨runner.cache?, before ++ ⟨path, .waiting⟩ :: after, opened⟩
      ⟨(runner.decode disk path).2.cache?,
        before ++ ⟨path, .finished (runner.decode disk path).1⟩ :: after, later⟩ := by
  have free := Workshop.free_of_finished workers finished
  cases cached : runner.cache? with
  | none =>
      have decoded : runner.decode disk path = (disk.openClass runner.options path, runner) := by
        rw [Runner.decode, cached]
      rw [decoded, cached]
      exact ⟨_, Workshop.reaches_of_free after opened free .opensPath⟩
  | some cache =>
      cases canonical : disk.canonicalPath path with
      | error error =>
          rw [Runner.decode_of_canonicalPath_error cached canonical, cached]
          exact ⟨_, Workshop.reaches_of_free after opened free (.unresolved canonical)⟩
      | ok key =>
          rw [Runner.decode_of_canonicalPath cached canonical]
          cases found : cache.get? key with
          | some file =>
              rw [Runner.decodeKey_of_hit found]
              exact ⟨_, Workshop.reaches_of_free after opened free (.hits canonical found)⟩
          | none =>
              have missed := Workshop.reaches_of_free after opened free
                (.misses canonical found : Work.Advance runner.options disk path _ _ _ _ _)
              cases opens : disk.openClass runner.options key with
              | ok file =>
                  have opened := missed.trans (Workshop.reaches_of_free after _ free (.opens opens))
                  rw [Runner.decodeKey_of_opened found opens]
                  exact ⟨_, opened.trans (Workshop.reaches_of_free after _ free .keeps)⟩
              | error error =>
                  rw [Runner.decodeKey_of_failed found opens]
                  exact ⟨_, missed.trans (Workshop.reaches_of_free after _ free (.fails opens))⟩

theorem Runner.decode_options (runner : Runner) (disk : Disk) (path : Bytes) :
    (runner.decode disk path).2.options = runner.options := by
  unfold Runner.decode
  split
  · rfl
  · split <;> rfl

/-- Taking up one file after the other is the sequential run. -/
theorem Workshop.reaches_judged {before : List Work} (runner : Runner) (disk : Disk)
    (workers : Int) (rules : List Rule) (files : List Bytes) (opened : List Bytes)
    (finished : ∀ earlier ∈ before, earlier.unfinished = false) :
    ∃ (works : List Work) (later : List Bytes),
      works.mapM (Work.outcome? rules) = some (runner.judgeAll disk rules files).1 ∧
      Workshop.Reaches runner.options disk workers
        ⟨runner.cache?, before ++ files.map fun path => ⟨path, .waiting⟩, opened⟩
        ⟨(runner.judgeAll disk rules files).2.cache?, before ++ works, later⟩ := by
  induction files generalizing runner before opened with
  | nil => exact ⟨[], opened, rfl, [], rfl, rfl⟩
  | cons path rest ih =>
      obtain ⟨later, first⟩ := Workshop.reaches_decoded runner disk workers path
        (rest.map fun path => ⟨path, .waiting⟩) opened finished
      have all : ∀ earlier ∈ before ++ [(⟨path, .finished (runner.decode disk path).1⟩ : Work)],
          earlier.unfinished = false :=
        List.forall_mem_append.mpr ⟨finished, List.forall_mem_singleton.mpr rfl⟩
      obtain ⟨works, last, judged, second⟩ := ih (runner.decode disk path).2 later all
      refine ⟨⟨path, .finished (runner.decode disk path).1⟩ :: works, last, ?_, ?_⟩
      · rw [List.mapM_cons, judged]
        rfl
      · rw [Runner.decode_options, List.append_assoc, List.append_assoc] at second
        exact first.trans second

/-- Workers and caches leave no trace in a report. Every schedule that the workers can follow
is bounded and goes on until there is a report, and that report agrees with the one without a
cache, as does the report of the sequential run. -/
theorem report_independent_of_schedule {runner : Runner} {disk : Disk}
    (backed : disk.Backs runner.options runner.cache?) (workers : Int) (paths : List Bytes)
    (rules : List Rule) :
    (∀ schedule workshop,
      (Workshop.start runner.cache? (disk.expand paths)).follows runner.options disk workers
        schedule = true →
      (Workshop.start runner.cache? (disk.expand paths)).runSchedule runner.options disk
        schedule = workshop →
      schedule.length ≤ 3 * (disk.expand paths).length ∧
        (workshop.report? rules = none → ∃ position, workshop.admits workers position = true) ∧
        (∀ report, workshop.report? rules = some report →
          report.Accounts runner.options disk paths rules) ∧
        disk.Backs runner.options workshop.cache?) ∧
    ∃ record next, runner.run disk false paths rules = (.ok record, next) ∧
      record.report.Accounts runner.options disk paths rules ∧
      disk.Backs runner.options next.cache? := by
  have started := Workshop.start_sound backed (disk.expand paths)
  constructor
  · rintro schedule workshop followed rfl
    have sound := started.runSchedule followed
    refine ⟨?_, ?_, ?_, sound.cache⟩
    · have bound := Workshop.length_add_stepsLeft_le followed
      rw [stepsLeft_start] at bound
      omega
    · intro missing
      have uncollected := Option.map_eq_none_iff.mp missing
      exact Workshop.admits_of_unfinished workers (Work.exists_unfinished uncollected)
    · intro report written
      exact (sound.report_agrees written).accounts
  · obtain ⟨works, opened, judged, schedule, followed, reached⟩ :=
      Workshop.reaches_judged runner disk 1 rules (disk.expand paths) [] (List.forall_mem_nil _)
    have final := reached ▸ started.runSchedule followed
    have agrees := final.report_agrees (congrArg (Option.map Report.ofOutcomes) judged)
    exact ⟨_, _, rfl, agrees.accounts, final.cache⟩

theorem Runner.new_backs (options : OpenOptions) (capacity : Int) (disk : Disk) :
    disk.Backs options (Runner.new options capacity).cache? := by
  intro cache known
  unfold Runner.new at known
  split at known
  · cases known
    exact List.forall_mem_nil _
  · cases known

/-- A class, a link to it, and a file that is no class. -/
def linkedTree : Disk :=
  ⟨.directory [("a", .file overhangingClass.encode), ("b", .link "a"), ("c", .file [0])], []⟩

/-- Work on the three files with a cache of one class. -/
def linkedWork : Workshop := .start (Runner.new {} 1).cache? (linkedTree.expand ["a", "b", "c"])

/-- Both workers miss the class and open it before one of them keeps it and turns to the third
file. -/
def interleaving : List Nat := [0, 1, 1, 0, 0, 2, 1, 2]

theorem report_independent_of_schedule_interleaved :
    linkedWork.follows {} linkedTree 2 interleaving = true ∧
      ∃ report, (linkedWork.runSchedule {} linkedTree interleaving).report?
          [⟨.checkNoVoid, 0⟩] = some report ∧
        report.files = 2 ∧
        report.Accounts {} linkedTree ["a", "b", "c"] [⟨.checkNoVoid, 0⟩] := by
  have followed : linkedWork.follows {} linkedTree 2 interleaving = true := by decide +kernel
  have counted : ((linkedWork.runSchedule {} linkedTree interleaving).report?
      [⟨.checkNoVoid, 0⟩]).map Report.files = some 2 := by decide +kernel
  obtain ⟨report, written, files⟩ := Option.map_eq_some_iff.mp counted
  obtain ⟨scheduled, -⟩ := report_independent_of_schedule (Runner.new_backs {} 1 linkedTree) 2
    ["a", "b", "c"] [⟨.checkNoVoid, 0⟩]
  obtain ⟨-, -, accounts, -⟩ := scheduled interleaving _ followed rfl
  exact ⟨followed, report, written, files, accounts report written⟩

end ClassAudit
