import Byom.Concurrency.WorkGroup
import Byom.Scan.DiscMerging
import Byom.Scan.Sync
import Byom.Transition.Run

/-!
# `sync`, goroutine by goroutine

`Scanner.sync` walks the tree in one goroutine, through the disc merger into a
bounded channel, and syncs what it emits in the others. When the group returns
without an error it sweeps. What a statement of the store does under an open
context is placed before the cancellation that ends it; any call may fail at any
time, with any error.
-/

namespace Byom.Scan

open Storage Concurrency

/-- What `walkPostOrder` does, call by call. -/
inductive WalkStep where
  | readDir (dir : Path)
  | process (res : WalkResult)
  deriving DecidableEq

def WalkStep.result : WalkStep → Option WalkResult
  | .readDir _ => none
  | .process res => some res

def walkStepsBelow (dir : Path) : Entries → List WalkStep
  | .nil => []
  | .file _ _ _ rest => walkStepsBelow dir rest
  | .dir name sub rest =>
    if hidden name then walkStepsBelow dir rest
    else .readDir (dir ++ [name]) :: (walkStepsBelow (dir ++ [name]) sub ++
      .process ⟨dir ++ [name], walkFiles sub⟩ :: walkStepsBelow dir rest)

/-- The calls of `walkPostOrder` on `dir`: a directory is read before its children
and processed after them. -/
def walkSteps (dir : Path) (e : Entries) : List WalkStep :=
  .readDir dir :: (walkStepsBelow dir e ++ [.process ⟨dir, walkFiles e⟩])

theorem walkStepsBelow_results (dir : Path) (e : Entries) :
    (walkStepsBelow dir e).filterMap WalkStep.result = visitsBelow dir e := by
  induction e generalizing dir with
  | nil => rfl
  | file name regular info rest ih => exact ih dir
  | dir name sub rest ihSub ihRest =>
    unfold walkStepsBelow visitsBelow
    split
    · exact ihRest dir
    · simp only [List.filterMap_cons, List.filterMap_append, WalkStep.result, ihSub, ihRest]

/-- These are the calls that `walkPostOrder` makes to its callback. -/
theorem walkSteps_results (dir : Path) (e : Entries) :
    (walkSteps dir e).filterMap WalkStep.result = visits dir e := by
  simp only [walkSteps, visits, List.filterMap_cons, List.filterMap_append, List.filterMap_nil,
    WalkStep.result, walkStepsBelow_results]

/-- `Scanner.Workers`, with what `runtime.NumCPU` returns. -/
structure WorkerPool where
  workers : Int
  numCPU : Nat
  positive : 0 < numCPU

def WorkerPool.workerCount (pool : WorkerPool) : Nat :=
  if 0 < pool.workers then pool.workers.toNat else pool.numCPU

theorem WorkerPool.workerCount_pos (pool : WorkerPool) : 0 < pool.workerCount := by
  unfold workerCount
  split
  · omega
  · exact pool.positive

/-- How far `syncDir` is with the dir a worker took: nothing is read yet, the known
files are read, or all statements of `SyncDir` went through and it commits. -/
inductive SyncProgress where
  | taken
  | loaded (known : List File)
  | writing (known : List File)
  deriving DecidableEq

/-- Where `sync` itself is: at `g.Wait`, in `Sweep` (whose statements may have gone
through), or back in `runScan`. -/
inductive Stage where
  | waiting
  | sweeping (executed : Bool)
  | returned (err : Option ScanError)
  deriving DecidableEq

/-- A call of `sync`. `steps` is what is left of the walk, and `pending` the
merger's map. -/
structure Sync where
  order : MapOrder
  group : WorkGroup WalkResult SyncProgress ScanError
  steps : List WalkStep
  pending : List WalkResult
  stage : Stage
  progress : Progress
  sweepCalled : Bool
  swept : Bool

inductive SyncAction where
  | cancel
  | readDir (failure : Option ScanError)
  | process
  | send
  | giveUp
  | walked
  | closed
  | receive (i : Nat)
  | drain (i : Nat)
  | stop (i : Nat)
  | load (i : Nat) (known : List File)
  | write (i : Nat)
  | commit (i : Nat)
  | fail (i : Nat) (err : ScanError)
  | wait
  | execSweep
  | commitSweep (dirs files : Nat)
  | failSweep (err : ScanError)
  deriving DecidableEq

namespace Sync

def start (order : MapOrder) (tree : Tree) (pool : WorkerPool) (cancelled : Bool) : Sync where
  order := order
  group := .start pool.workerCount pool.workerCount cancelled
  steps := walkSteps [] tree.entries
  pending := []
  stage := .waiting
  progress := ⟨0, 0, 0, 0⟩
  sweepCalled := false
  swept := false

def onGroup (s : Sync) (ev : Event WalkResult SyncProgress ScanError) : Option Sync :=
  (s.group.step ev).map fun g => { s with group := g }

/-- The merger's `process` on the next result: its map then, and what it emits. -/
def merged (s : Sync) (res : WalkResult) : List WalkResult × Option WalkResult :=
  let emit : WalkResult → StateM (Option WalkResult) Unit := fun res => set (some res)
  let ((_, pending), emitted) := ((DiscMerger.process s.order emit res).run s.pending).run none
  (pending, emitted)

/-- The walking goroutine, up to the select in `emit`. -/
def readDir (s : Sync) (failure : Option ScanError) : Option Sync :=
  match s.steps, failure with
  | .readDir _ :: rest, none =>
    if s.group.producer = .producing then some { s with steps := rest } else none
  | .readDir _ :: _, some err => s.onGroup (.produced (some err))
  | _, _ => none

def process (s : Sync) : Option Sync :=
  match s.steps with
  | .process res :: rest =>
    match s.merged res with
    | (pending, none) =>
      if s.group.producer = .producing then some { s with steps := rest, pending := pending }
      else none
    | (pending, some emitted) =>
      { s with steps := rest, pending := pending }.onGroup (.offer emitted)
  | _ => none

def walked (s : Sync) : Option Sync :=
  match s.steps with
  | [] => s.onGroup (.produced none)
  | _ => none

/-- `DirID` and `KnownFiles`, which a finished context refuses. -/
def load (s : Sync) (i : Nat) (known : List File) : Option Sync :=
  match s.group.workers[i]? with
  | some (.working _ .taken) => if s.group.done then none else s.onGroup (.advance i (.loaded known))
  | _ => none

/-- The statements of `SyncDir`, which run in the context of the group. -/
def write (s : Sync) (i : Nat) : Option Sync :=
  match s.group.workers[i]? with
  | some (.working _ (.loaded known)) =>
    if s.group.done then none else s.onGroup (.advance i (.writing known))
  | _ => none

/-- The commit of `SyncDir`, which no context stops, and the counters. -/
def commit (s : Sync) (i : Nat) : Option Sync :=
  match s.group.workers[i]? with
  | some (.working res (.writing known)) =>
    { s with progress := { s.progress with
        dirsSeen := s.progress.dirsSeen + 1
        filesSeen := s.progress.filesSeen + res.files.length
        filesMissing := s.progress.filesMissing + (computeChangeset known res).2.1.length } }.onGroup
      (.finish i)
  | _ => none

/-- `g.Wait` returns: the first error ends `sync`, and otherwise it calls `Sweep`. -/
def wait (s : Sync) : Option Sync :=
  match s.stage, s.group.waited with
  | .waiting, some none => some { s with stage := .sweeping false, sweepCalled := true }
  | .waiting, some (some err) => some { s with stage := .returned (some err) }
  | _, _ => none

def step (s : Sync) : SyncAction → Option Sync
  | .cancel => s.onGroup .cancel
  | .readDir failure => s.readDir failure
  | .process => s.process
  | .send => s.onGroup .send
  | .giveUp => s.onGroup (.giveUp .canceled)
  | .walked => s.walked
  | .closed => s.onGroup .closed
  | .receive i => s.onGroup (.receive i .taken)
  | .drain i => s.onGroup (.drain i)
  | .stop i => s.onGroup (.stop i .canceled)
  | .load i known => s.load i known
  | .write i => s.write i
  | .commit i => s.commit i
  | .fail i err => s.onGroup (.fail i err)
  | .wait => s.wait
  | .execSweep =>
    match s.stage with
    | .sweeping false =>
      if s.group.cancelled then none else some { s with stage := .sweeping true }
    | _ => none
  | .commitSweep dirs files =>
    match s.stage with
    | .sweeping true => some { s with
        stage := .returned none
        swept := true
        progress := { s.progress with
          dirsMissing := s.progress.dirsMissing + dirs
          filesMissing := s.progress.filesMissing + files } }
    | _ => none
  -- The error is logged, and `sync` returns nil.
  | .failSweep _ =>
    match s.stage with
    | .sweeping _ => some { s with stage := .returned none }
    | _ => none

/-- The actions that are one event of the group and nothing else. -/
def plainEvent : SyncAction → Option (Event WalkResult SyncProgress ScanError)
  | .cancel => some .cancel
  | .readDir failure => failure.map fun err => .produced (some err)
  | .send => some .send
  | .giveUp => some (.giveUp .canceled)
  | .closed => some .closed
  | .receive i => some (.receive i .taken)
  | .drain i => some (.drain i)
  | .stop i => some (.stop i .canceled)
  | .fail i err => some (.fail i err)
  | _ => none

/-- What an action does, and when it can be taken. -/
inductive Moves (s : Sync) : SyncAction → Sync → Prop where
  | plain (a : SyncAction) {ev g} (event : plainEvent a = some ev)
    (moved : s.group.step ev = some g) : Moves s a { s with group := g }
  | read (dir : Path) (rest : List WalkStep) (next : s.steps = .readDir dir :: rest)
    (producing : s.group.producer = .producing) :
    Moves s (.readDir none) { s with steps := rest }
  | hold (res : WalkResult) (rest : List WalkStep) {pending}
    (next : s.steps = .process res :: rest) (merged : s.merged res = (pending, none))
    (producing : s.group.producer = .producing) :
    Moves s .process { s with steps := rest, pending := pending }
  | emit (res : WalkResult) (rest : List WalkStep) {pending emitted g}
    (next : s.steps = .process res :: rest) (merged : s.merged res = (pending, some emitted))
    (moved : s.group.step (.offer emitted) = some g) :
    Moves s .process { s with steps := rest, pending := pending, group := g }
  | walked {g} (next : s.steps = []) (moved : s.group.step (.produced none) = some g) :
    Moves s .walked { s with group := g }
  | load (i : Nat) (known : List File) {res g}
    (found : s.group.workers[i]? = some (.working res .taken)) (active : s.group.done = false)
    (moved : s.group.step (.advance i (.loaded known)) = some g) :
    Moves s (.load i known) { s with group := g }
  | write (i : Nat) {res known g}
    (found : s.group.workers[i]? = some (.working res (.loaded known)))
    (active : s.group.done = false)
    (moved : s.group.step (.advance i (.writing known)) = some g) :
    Moves s (.write i) { s with group := g }
  | commit (i : Nat) {res known g progress}
    (found : s.group.workers[i]? = some (.working res (.writing known)))
    (moved : s.group.step (.finish i) = some g) :
    Moves s (.commit i) { s with group := g, progress := progress }
  | waitNil (waiting : s.stage = .waiting) (waited : s.group.waited = some none) :
    Moves s .wait { s with stage := .sweeping false, sweepCalled := true }
  | waitErr (err : ScanError) (waiting : s.stage = .waiting)
    (waited : s.group.waited = some (some err)) :
    Moves s .wait { s with stage := .returned (some err) }
  | execSweep (sweeping : s.stage = .sweeping false) (active : s.group.cancelled = false) :
    Moves s .execSweep { s with stage := .sweeping true }
  | commitSweep (dirs files : Nat) {progress} (sweeping : s.stage = .sweeping true) :
    Moves s (.commitSweep dirs files)
      { s with stage := .returned none, swept := true, progress := progress }
  | failSweep (err : ScanError) (executed : Bool) (sweeping : s.stage = .sweeping executed) :
    Moves s (.failSweep err) { s with stage := .returned none }

variable {s s' : Sync} {a : SyncAction}

theorem onGroup_cases {ev : Event WalkResult SyncProgress ScanError} (h : s.onGroup ev = some s') :
    ∃ g, s.group.step ev = some g ∧ s' = { s with group := g } := by
  obtain ⟨g, moved, same⟩ := Option.map_eq_some_iff.mp h
  exact ⟨g, moved, same.symm⟩

theorem moves_of_plain {ev : Event WalkResult SyncProgress ScanError}
    (event : plainEvent a = some ev) (h : s.onGroup ev = some s') : s.Moves a s' := by
  obtain ⟨g, moved, rfl⟩ := onGroup_cases h
  exact .plain a event moved

theorem readDir_moves {failure : Option ScanError} (h : s.readDir failure = some s') :
    s.Moves (.readDir failure) s' := by
  unfold readDir at h
  split at h
  · rename_i dir rest next
    split at h
    · cases h
      exact .read dir rest next ‹_›
    · cases h
  · exact moves_of_plain rfl h
  · cases h

theorem process_moves (h : s.process = some s') : s.Moves .process s' := by
  unfold process at h
  split at h
  · rename_i res rest next
    split at h
    · rename_i pending merged
      split at h
      · cases h
        exact .hold res rest next merged ‹_›
      · cases h
    · rename_i pending emitted merged
      obtain ⟨g, moved, rfl⟩ := onGroup_cases h
      exact .emit res rest next merged moved
  · cases h

theorem walked_moves (h : s.walked = some s') : s.Moves .walked s' := by
  unfold walked at h
  split at h
  · rename_i next
    obtain ⟨g, moved, rfl⟩ := onGroup_cases h
    exact .walked next moved
  · cases h

theorem load_moves {i : Nat} {known : List File} (h : s.load i known = some s') :
    s.Moves (.load i known) s' := by
  unfold load at h
  split at h
  · rename_i res found
    split at h
    · cases h
    · rename_i active
      obtain ⟨g, moved, rfl⟩ := onGroup_cases h
      exact .load i known found (by simpa using active) moved
  · cases h

theorem write_moves {i : Nat} (h : s.write i = some s') : s.Moves (.write i) s' := by
  unfold write at h
  split at h
  · rename_i res known found
    split at h
    · cases h
    · rename_i active
      obtain ⟨g, moved, rfl⟩ := onGroup_cases h
      exact .write i found (by simpa using active) moved
  · cases h

theorem commit_moves {i : Nat} (h : s.commit i = some s') : s.Moves (.commit i) s' := by
  unfold commit at h
  split at h
  · rename_i res known found
    obtain ⟨g, moved, rfl⟩ := onGroup_cases h
    exact .commit i found moved
  · cases h

theorem wait_moves (h : s.wait = some s') : s.Moves .wait s' := by
  unfold wait at h
  split at h
  · rename_i waiting waited
    cases h
    exact .waitNil waiting waited
  · rename_i err waiting waited
    cases h
    exact .waitErr err waiting waited
  · cases h

theorem moves_of_step (h : s.step a = some s') : s.Moves a s' := by
  cases a with
  | cancel => exact moves_of_plain rfl h
  | readDir failure => exact readDir_moves h
  | process => exact process_moves h
  | send => exact moves_of_plain rfl h
  | giveUp => exact moves_of_plain rfl h
  | walked => exact walked_moves h
  | closed => exact moves_of_plain rfl h
  | receive i => exact moves_of_plain rfl h
  | drain i => exact moves_of_plain rfl h
  | stop i => exact moves_of_plain rfl h
  | load i known => exact load_moves h
  | write i => exact write_moves h
  | commit i => exact commit_moves h
  | fail i err => exact moves_of_plain rfl h
  | wait => exact wait_moves h
  | execSweep =>
    simp only [step] at h
    split at h
    · rename_i sweeping
      split at h
      · cases h
      · rename_i active
        cases h
        exact .execSweep sweeping (by simpa using active)
    · cases h
  | commitSweep dirs files =>
    simp only [step] at h
    split at h
    · cases h
      exact .commitSweep dirs files ‹_›
    · cases h
  | failSweep err =>
    simp only [step] at h
    split at h
    · rename_i executed sweeping
      cases h
      exact .failSweep err executed sweeping
    · cases h

end Sync

end Byom.Scan
