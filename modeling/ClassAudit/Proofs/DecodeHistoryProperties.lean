import ClassAudit.Proofs.CacheProperties
import ClassAudit.Proofs.CanonicalProperties
import ClassAudit.Proofs.DecodeProperties
import ClassAudit.Runner.Basic

/-!
# Decoding over a changing file tree

A runner with a cache decodes one path after the other while the file tree changes. What a
call gives is settled by the classes that the earlier calls returned and by the tree as it
stands: a class that was returned lately comes back unchanged, everything else is opened.
-/

set_option autoImplicit false

namespace ClassAudit

/-- The file tree becomes another one, or a path is decoded. -/
inductive HistoryEvent where
  | change (after : Disk)
  | decode (path : Bytes)

/-- A file tree, a runner, and the classes that the runner returned under their canonical paths,
the latest first. -/
structure History where
  disk : Disk
  runner : Runner
  served : List (Bytes × ClassFile)

namespace History

/-- What a call adds to the classes returned. -/
def serving (disk : Disk) (path : Bytes) : Except OpenError ClassFile → List (Bytes × ClassFile)
  | .error _ => []
  | .ok file =>
      match disk.canonicalPath path with
      | .error _ => []
      | .ok key => [(key, file)]

def step (history : History) : HistoryEvent → History
  | .change after => { history with disk := after }
  | .decode path =>
      { history with
        runner := (history.runner.decode history.disk path).2,
        served := serving history.disk path (history.runner.decode history.disk path).1 ++
          history.served }

/-- The history of a new runner with a cache. -/
def run (options : OpenOptions) (capacity : Nat) (disk : Disk) (events : List HistoryEvent) :
    History :=
  events.foldl step ⟨disk, Runner.new options capacity, []⟩

/-- The runner has a cache of the given capacity, which holds the classes returned last. -/
structure Remembered (options : OpenOptions) (cache : Cache ClassFile) (history : History) :
    Prop where
  options : history.runner.options = options
  cached : history.runner.cache? = some cache
  remembers : cache.Remembers history.served

end History

/-! ## One call -/

theorem Runner.decodeKey_of_hit {options : OpenOptions} {disk : Disk} {cache : Cache ClassFile}
    {key : Bytes} {file : ClassFile} (found : cache.get? key = some file) :
    Runner.decodeKey options disk cache key = (.ok file, cache.refresh key) := by
  rw [Runner.decodeKey, found]

theorem Runner.decodeKey_of_opened {options : OpenOptions} {disk : Disk}
    {cache : Cache ClassFile} {key : Bytes} {file : ClassFile} (missed : cache.get? key = none)
    (opened : disk.openClass options key = .ok file) :
    Runner.decodeKey options disk cache key = (.ok file, cache.insert key file) := by
  rw [Runner.decodeKey, missed]
  simp only [opened]

theorem Runner.decodeKey_of_failed {options : OpenOptions} {disk : Disk}
    {cache : Cache ClassFile} {key : Bytes} {error : OpenError} (missed : cache.get? key = none)
    (failed : disk.openClass options key = .error error) :
    Runner.decodeKey options disk cache key = (.error error, cache) := by
  rw [Runner.decodeKey, missed]
  simp only [failed]

theorem Runner.decode_of_canonicalPath {runner : Runner} {disk : Disk} {cache : Cache ClassFile}
    {path key : Bytes} (cached : runner.cache? = some cache)
    (canonical : disk.canonicalPath path = .ok key) :
    runner.decode disk path =
      ((Runner.decodeKey runner.options disk cache key).1,
        { runner with cache? := some (Runner.decodeKey runner.options disk cache key).2 }) := by
  rw [Runner.decode, cached]
  simp only [canonical]

theorem Runner.decode_of_canonicalPath_error {runner : Runner} {disk : Disk}
    {cache : Cache ClassFile} {path : Bytes} {error : OpenError}
    (cached : runner.cache? = some cache) (failed : disk.canonicalPath path = .error error) :
    runner.decode disk path = (.error error, runner) := by
  rw [Runner.decode, cached]
  simp only [failed]

/-- What one call on a cache that remembers its uses can do: fail to find the path, return a
class used lately, open a class, or fail to open one. -/
inductive History.Call (options : OpenOptions) (cache : Cache ClassFile) (history : History)
    (path : Bytes) : Except OpenError ClassFile → Cache ClassFile → Prop
  | lost {error : OpenError} (failed : history.disk.canonicalPath path = .error error) :
      Call options cache history path (.error error) cache
  | hit {key : Bytes} {file : ClassFile} (canonical : history.disk.canonicalPath path = .ok key)
      (used : UsedWithin cache.capacity key file history.served) :
      Call options cache history path (.ok file) (cache.refresh key)
  | opened {key : Bytes} {file : ClassFile}
      (canonical : history.disk.canonicalPath path = .ok key)
      (unused : ∀ file, ¬ UsedWithin cache.capacity key file history.served)
      (opens : history.disk.openClass options key = .ok file) :
      Call options cache history path (.ok file) (cache.insert key file)
  | failed {key : Bytes} {error : OpenError}
      (canonical : history.disk.canonicalPath path = .ok key)
      (unused : ∀ file, ¬ UsedWithin cache.capacity key file history.served)
      (opens : history.disk.openClass options key = .error error) :
      Call options cache history path (.error error) cache

theorem History.Remembered.call {options : OpenOptions} {cache : Cache ClassFile}
    {history : History} (remembered : history.Remembered options cache) (path : Bytes) :
    ∃ outcome after, history.Call options cache path outcome after ∧
      history.runner.decode history.disk path =
        (outcome, { history.runner with cache? := some after }) := by
  obtain ⟨rfl, cached, remembers⟩ := remembered
  have unchanged : { history.runner with cache? := some cache } = history.runner := by
    rw [← cached]
  cases canonical : history.disk.canonicalPath path with
  | error error =>
      refine ⟨_, _, .lost canonical, ?_⟩
      rw [Runner.decode_of_canonicalPath_error cached canonical, unchanged]
  | ok key =>
      rw [Runner.decode_of_canonicalPath cached canonical]
      cases found : cache.get? key with
      | some file =>
          refine ⟨_, _, .hit canonical (remembers.get?_eq_some_iff.mp found), ?_⟩
          rw [Runner.decodeKey_of_hit found]
      | none =>
          have unused := remembers.get?_eq_none_iff.mp found
          cases opens : history.disk.openClass history.runner.options key with
          | ok file =>
              refine ⟨_, _, .opened canonical unused opens, ?_⟩
              rw [Runner.decodeKey_of_opened found opens]
          | error error =>
              refine ⟨_, _, .failed canonical unused opens, ?_⟩
              rw [Runner.decodeKey_of_failed found opens]

/-! ## Whole histories -/

theorem History.serving_of_ok {disk : Disk} {path key : Bytes} {file : ClassFile}
    (canonical : disk.canonicalPath path = .ok key) :
    History.serving disk path (.ok file) = [(key, file)] := by
  simp only [History.serving, canonical]

theorem History.step_decode {history : History} {path : Bytes}
    {outcome : Except OpenError ClassFile} {runner : Runner}
    (decoded : history.runner.decode history.disk path = (outcome, runner)) :
    history.step (.decode path) =
      { history with
        runner := runner,
        served := History.serving history.disk path outcome ++ history.served } := by
  rw [History.step, decoded]

theorem History.Remembered.step {options : OpenOptions} {cache : Cache ClassFile}
    {history : History} (remembered : history.Remembered options cache) (event : HistoryEvent) :
    ∃ after : Cache ClassFile, after.capacity = cache.capacity ∧
      (history.step event).Remembered options after := by
  cases event with
  | change disk => exact ⟨cache, rfl, remembered.options, remembered.cached, remembered.remembers⟩
  | decode path =>
      obtain ⟨outcome, after, called, decoded⟩ := remembered.call path
      rw [History.step_decode decoded]
      cases called with
      | lost failed => exact ⟨cache, rfl, remembered.options, rfl, remembered.remembers⟩
      | @hit key file canonical used =>
          rw [History.serving_of_ok canonical]
          have found := remembered.remembers.get?_eq_some_iff.mpr used
          exact ⟨cache.refresh key, cache.capacity_refresh key, remembered.options, rfl,
            remembered.remembers.refresh found⟩
      | @opened key file canonical unused opens =>
          rw [History.serving_of_ok canonical]
          have missed := remembered.remembers.get?_eq_none_iff.mpr unused
          exact ⟨cache.insert key file, rfl, remembered.options, rfl,
            remembered.remembers.insert missed file⟩
      | failed canonical unused opens =>
          exact ⟨cache, rfl, remembered.options, rfl, remembered.remembers⟩

theorem History.Remembered.foldl {options : OpenOptions} {cache : Cache ClassFile}
    {history : History} (remembered : history.Remembered options cache)
    (events : List HistoryEvent) :
    ∃ after : Cache ClassFile, after.capacity = cache.capacity ∧
      (events.foldl History.step history).Remembered options after := by
  induction events generalizing history cache with
  | nil => exact ⟨cache, rfl, remembered⟩
  | cons event events ih =>
      obtain ⟨next, sameCapacity, stepped⟩ := remembered.step event
      obtain ⟨after, keptCapacity, ran⟩ := ih stepped
      exact ⟨after, keptCapacity.trans sameCapacity, ran⟩

theorem History.run_remembered (options : OpenOptions) {capacity : Nat} (positive : 0 < capacity)
    (disk : Disk) (events : List HistoryEvent) :
    ∃ cache : Cache ClassFile, cache.capacity = capacity ∧
      (History.run options capacity disk events).Remembered options cache := by
  have fresh : (⟨disk, Runner.new options capacity, []⟩ : History).Remembered options
      { capacity := capacity } := by
    refine ⟨rfl, ?_, ?_⟩
    · simp [Runner.new, positive]
    · exact List.take_nil.symm
  exact fresh.foldl events

theorem UsedWithin.unique {cache : Cache ClassFile} {uses : List (Bytes × ClassFile)} {key : Bytes}
    {file other : ClassFile} (remembers : cache.Remembers uses)
    (used : UsedWithin cache.capacity key file uses)
    (again : UsedWithin cache.capacity key other uses) : file = other :=
  Option.some.inj ((remembers.get?_eq_some_iff.mpr used).symm.trans
    (remembers.get?_eq_some_iff.mpr again))

/-- What a call gives after any history of changes to the tree and of earlier calls. A path
without a canonical form is an error, whatever is cached. A class that was returned for its
canonical path comes back as it was, as long as fewer other paths than the capacity were returned
since; every other class is opened as it stands. A call that fails leaves the runner as it was,
and the cache never outgrows its capacity. -/
theorem decode_over_changing_tree {options : OpenOptions} {capacity : Nat} {start : Disk}
    {events : List HistoryEvent} {history : History} (positive : 0 < capacity)
    (reached : history = History.run options capacity start events) (path : Bytes) :
    ∃ outcome runner, history.runner.decode history.disk path = (outcome, runner) ∧
      (∀ error, history.disk.canonicalPath path = .error error → outcome = .error error) ∧
      (∀ key, history.disk.canonicalPath path = .ok key →
        (∀ file, UsedWithin capacity key file history.served → outcome = .ok file) ∧
        ((∀ file, ¬ UsedWithin capacity key file history.served) →
          outcome = history.disk.openClass options key ∧
            OpensAlike key path outcome (history.disk.openClass options path))) ∧
      (∀ error, outcome = .error error → runner = history.runner) ∧
      ∃ cache, history.runner.cache? = some cache ∧ cache.entries.length ≤ capacity := by
  obtain ⟨cache, rfl, remembered⟩ := History.run_remembered options positive start events
  rw [← reached] at remembered
  obtain ⟨outcome, after, called, decoded⟩ := remembered.call path
  have unchanged : { history.runner with cache? := some cache } = history.runner := by
    rw [← remembered.cached]
  refine ⟨outcome, _, decoded, ?_, ?_, ?_, cache, remembered.cached, remembered.remembers.length_le⟩
  · intro error lost
    cases called with
    | lost failed =>
        cases failed.symm.trans lost
        rfl
    | hit canonical used => cases canonical.symm.trans lost
    | opened canonical unused opens => cases canonical.symm.trans lost
    | failed canonical unused opens => cases canonical.symm.trans lost
  · intro key canonical
    have alike := history.disk.openClass_alike options canonical
    cases called with
    | lost failed => cases failed.symm.trans canonical
    | hit found used =>
        cases found.symm.trans canonical
        refine ⟨?_, fun unused => absurd used (unused _)⟩
        intro file again
        rw [used.unique remembered.remembers again]
    | opened found unused opens =>
        cases found.symm.trans canonical
        rw [opens] at alike
        exact ⟨fun file used => absurd used (unused file), fun _ => ⟨opens.symm, alike⟩⟩
    | failed found unused opens =>
        cases found.symm.trans canonical
        rw [opens] at alike
        exact ⟨fun file used => absurd used (unused file), fun _ => ⟨opens.symm, alike⟩⟩
  · intro error failure
    cases called with
    | lost failed => exact unchanged
    | hit canonical used => cases failure
    | opened canonical unused opens => cases failure
    | failed canonical unused opens => exact unchanged

/-- A tree with a single file. -/
def singleFileTree (data : Bytes) : Disk := ⟨.directory [("a", .file data)], []⟩

/-- A class was decoded, and then a stray byte was written over its file. -/
def overwrittenHistory : History :=
  History.run {} 1 (singleFileTree overhangingClass.encode)
    [.decode "a", .change (singleFileTree [0])]

theorem decode_over_changing_tree_overwritten :
    overwrittenHistory.disk.openClass {} "a" = .error (.undecodable "a" (.shortHeader 1)) ∧
      ∃ outcome runner,
        overwrittenHistory.runner.decode overwrittenHistory.disk "a" = (outcome, runner) ∧
          outcome = .ok (overhangingClass.interpret ⟨66, []⟩) := by
  have refused : overwrittenHistory.disk.openClass {} "a" =
      .error (.undecodable "a" (.shortHeader 1)) := by decide +kernel
  have canonical : overwrittenHistory.disk.canonicalPath "a" = .ok (Bytes.ofString "/a") := by
    decide +kernel
  have served : overwrittenHistory.served =
      [(Bytes.ofString "/a", overhangingClass.interpret ⟨66, []⟩)] := by decide +kernel
  have used : UsedWithin 1 (Bytes.ofString "/a") (overhangingClass.interpret ⟨66, []⟩)
      overwrittenHistory.served := ⟨[], [], served, List.not_mem_nil, Nat.one_pos⟩
  obtain ⟨outcome, runner, decoded, -, known, -, -⟩ :=
    decode_over_changing_tree Nat.one_pos (Eq.refl overwrittenHistory) "a"
  exact ⟨refused, outcome, runner, decoded, (known _ canonical).1 _ used⟩

end ClassAudit
