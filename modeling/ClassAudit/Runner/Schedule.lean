import ClassAudit.Runner.Basic

/-!
# Workers

Several workers share one cache. The work on a file is a row of single steps: looking the
class up, opening it, and keeping it. A schedule says which file's work takes its next
step; steps of different files may follow each other in any order, as far as there are
workers for them.
-/

set_option autoImplicit false

namespace ClassAudit

/-- How far the work on a file has come. -/
inductive WorkPhase where
  | waiting
  | missed (key : Bytes)
  | opened (key : Bytes) (file : ClassFile)
  | finished (decoded : Except OpenError ClassFile)

/-- The work on one file. -/
structure Work where
  path : Bytes
  phase : WorkPhase := .waiting

namespace Work

/-- Whether there are steps left. -/
def unfinished (work : Work) : Bool :=
  match work.phase with
  | .finished _ => false
  | _ => true

/-- What came of the file, once its work is finished. -/
def outcome? (rules : List Rule) (work : Work) : Option (Bytes × FileOutcome) :=
  match work.phase with
  | .finished decoded => some (work.path, .of rules work.path decoded)
  | _ => none

end Work

/-- Work in progress: the shared cache, the work on each file, and the paths opened so
far, in order. Without a cache every file is opened by the path given for it. -/
structure Workshop where
  cache? : Option (Cache ClassFile)
  works : List Work
  opened : List Bytes := []

namespace Workshop

/-- The workshop before any step. -/
def start (cache? : Option (Cache ClassFile)) (paths : List Bytes) : Workshop :=
  { cache?, works := paths.map fun path => { path } }

/-- The next step of one file's work: the cache afterwards, the phase reached, and the
path that was opened, if one was. -/
def phaseStep (options : OpenOptions) (disk : Disk) (cache? : Option (Cache ClassFile))
    (work : Work) : Option (Cache ClassFile) × WorkPhase × Option Bytes :=
  match work.phase with
  | .waiting =>
      match cache? with
      | none => (none, .finished (disk.openClass options work.path), some work.path)
      | some cache =>
          match disk.canonicalPath work.path with
          | .error error => (some cache, .finished (.error error), none)
          | .ok key =>
              match cache.get? key with
              | some file => (some (cache.refresh key), .finished (.ok file), none)
              | none => (some cache, .missed key, none)
  | .missed key =>
      match disk.openClass options key with
      | .ok file => (cache?, .opened key file, some key)
      | .error error => (cache?, .finished (.error error), some key)
  | .opened key file =>
      (cache?.map fun cache => cache.insert key file, .finished (.ok file), none)
  | .finished decoded => (cache?, .finished decoded, none)

/-- Lets the work at a position take its next step. -/
def step (options : OpenOptions) (disk : Disk) (workshop : Workshop) (position : Nat) :
    Workshop :=
  match workshop.works[position]? with
  | none => workshop
  | some work =>
      let (cache?, phase, opened?) := phaseStep options disk workshop.cache? work
      { cache?, works := workshop.works.set position { work with phase },
        opened := workshop.opened ++ opened?.toList }

/-- The workshop after a schedule. -/
def runSchedule (options : OpenOptions) (disk : Disk) (workshop : Workshop)
    (schedule : List Nat) : Workshop :=
  schedule.foldl (step options disk) workshop

/-- How many files are worked on at a time: at least one. -/
def slots (workers : Int) : Nat := (max workers 1).toNat

/-- Whether the work at a position can take a step. Files are taken up in order, so that
a file is worked on as soon as the unfinished ones before it leave a slot free. -/
def admits (workers : Int) (workshop : Workshop) (position : Nat) : Bool :=
  workshop.works[position]?.any Work.unfinished &&
    (workshop.works.take position).countP Work.unfinished < slots workers

/-- Whether every step of a schedule is one that can be taken. -/
def follows (options : OpenOptions) (disk : Disk) (workers : Int) :
    Workshop → List Nat → Bool
  | _, [] => true
  | workshop, position :: rest =>
      workshop.admits workers position &&
        follows options disk workers (workshop.step options disk position) rest

/-- What came of each file, once all work is finished. -/
def outcomes? (rules : List Rule) (workshop : Workshop) :
    Option (List (Bytes × FileOutcome)) :=
  workshop.works.mapM (Work.outcome? rules)

/-- The report of a workshop, once all work is finished. -/
def report? (rules : List Rule) (workshop : Workshop) : Option Report :=
  (workshop.outcomes? rules).map .ofOutcomes

end Workshop

end ClassAudit
