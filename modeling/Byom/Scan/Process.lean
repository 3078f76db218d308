import Mathlib.Logic.Function.Basic
import Byom.Scan.DrainBarrier
import Byom.Sqlite.Sightings

/-!
# The scanner process

`Process` is one process beside its database: the runs it has claimed, the two
maps that lead to them, and a call of `sync` for each run that is scanning. Any
call of the store may fail, and the process may die and start again between any
two steps. A request that only returns an error is no step. `Cancel` marks the
run after it found it; the run may be released in between, which nothing notices.
-/

namespace Byom.Scan

open Storage Relational Sqlite

/-- Where a run is, from the claim of its location to its release. -/
inductive Phase where
  | claimed
  | begun (scanID : UUID) (gen : Int)
  | refused
  | scanning (call : Sync)
  | closing
  | released

/-- `run`. The scan ID and the generation are zero until the run is registered. -/
structure Run where
  locationID : UUID
  force : Bool
  scanID : UUID
  gen : Int
  cancelled : Bool
  cancelling : Bool
  phase : Phase

/-- `runs` are the runs claimed so far; the maps hold their positions. The lists at
the end are a record: the scans whose cancel was accepted while their row was
running, those whose `FinishScan` succeeded, and the sweeps that committed. -/
structure Process where
  tables : ScanTables
  runs : List Run
  byLoc : UUID → Option Nat
  byScan : UUID → Option Nat
  accepted : List UUID
  finished : List UUID
  swept : List (UUID × Int)

/-- A new process beside an empty database. -/
def Process.empty : Process := ⟨.empty, [], fun _ => none, fun _ => none, [], [], []⟩

inductive ProcessAction where
  | insertLocation (id : UUID) (uri : String)
  | start (loc : UUID) (force : Bool)
  | beginScan (r : Nat) (now : Int) (scanID : UUID)
  | beginFails (r : Nat)
  | register (r : Nat) (order : MapOrder) (tree : Tree)
  | sync (r : Nat) (a : SyncAction)
  | load (r i : Nat)
  | commit (r i : Nat) (newDirID : UUID) (newFileID : Path → UUID)
  | sweep (r : Nat)
  | finishScan (r : Nat) (now : Int)
  | finishFails (r : Nat)
  | release (r : Nat)
  | cancel (scanID : UUID)
  | shutdown
  | restart (recovered : Option Int)

/-- The actions of `sync` that touch no table. -/
def SyncAction.inMemory : SyncAction → Bool
  | .cancel => false
  | .load _ _ => false
  | .commit _ => false
  | .commitSweep _ _ => false
  | _ => true

/-- End the context of a run, and that of its call of `sync`. -/
def Run.cancel (run : Run) : Run :=
  { run with
    cancelled := true
    phase := match run.phase with
      | .scanning call => .scanning ((call.step .cancel).getD call)
      | phase => phase }

namespace Process

def setRun (s : Process) (r : Nat) (run : Run) : Process := { s with runs := s.runs.set r run }

/-- The state in the record of a scan. -/
def stateOf (s : Process) (scanID : UUID) : Option State :=
  (lookup ScanRow.id scanID s.tables.scans).map ScanRow.state

/-- A run that is scanning, with its call of `sync`. -/
def scanning (s : Process) (r : Nat) : Option (Run × Sync) :=
  match s.runs[r]? with
  | none => none
  | some run =>
    match run.phase with
    | .scanning call => some (run, call)
    | _ => none

/-- `Start`, up to its claim. -/
def start (s : Process) (loc : UUID) (force : Bool) : Option Process :=
  if (lookup LocationRow.id loc s.tables.locations).isNone ∨ (s.byLoc loc).isSome then none
  else some { s with
    runs := s.runs ++ [⟨loc, force, .nil, 0, false, false, .claimed⟩]
    byLoc := Function.update s.byLoc loc (some s.runs.length) }

def beginScan (s : Process) (r : Nat) (now : Int) (scanID : UUID) : Option Process :=
  match s.runs[r]? with
  | none => none
  | some run =>
    match run.phase, s.tables.beginScan now scanID run.locationID with
    | .claimed, .ok (t, gen) =>
      some { s.setRun r { run with phase := .begun scanID gen } with tables := t }
    | _, _ => none

def beginFails (s : Process) (r : Nat) : Option Process :=
  match s.runs[r]? with
  | none => none
  | some run =>
    match run.phase with
    | .claimed => some (s.setRun r { run.cancel with phase := .refused })
    | _ => none

/-- The run is entered under its scan, and its goroutine starts. -/
def register (pool : WorkerPool) (s : Process) (r : Nat) (order : MapOrder) (tree : Tree) :
    Option Process :=
  match s.runs[r]? with
  | none => none
  | some run =>
    match run.phase with
    | .begun scanID gen =>
      some { s.setRun r { run with
          scanID := scanID
          gen := gen
          phase := .scanning (.start order tree pool run.cancelled) } with
        byScan := Function.update s.byScan scanID (some r) }
    | _ => none

def sync (s : Process) (r : Nat) (a : SyncAction) : Option Process := do
  let (run, call) ← s.scanning r
  if a.inMemory then
    let call ← call.step a
    return s.setRun r { run with phase := .scanning call }
  else none

/-- `DirID` and `KnownFiles` for the dir that a worker took. -/
def load (s : Process) (r i : Nat) : Option Process := do
  let (run, call) ← s.scanning r
  match call.group.workers[i]? with
  | some (.working res _) =>
    let call ← call.step (.load i (knownIn run.locationID res.dir s.tables))
    return s.setRun r { run with phase := .scanning call }
  | _ => none

/-- `SyncDir` commits the change set of the dir that a worker took. -/
def commit (s : Process) (r i : Nat) (newDirID : UUID) (newFileID : Path → UUID) :
    Option Process := do
  let (run, call) ← s.scanning r
  match call.group.workers[i]? with
  | some (.working res (.writing known)) =>
    match s.tables.syncDir newDirID newFileID
        (syncPayload run.locationID run.gen run.force known res) with
    | .error _ => none
    | .ok (t, _) =>
      let call ← call.step (.commit i)
      return { s.setRun r { run with phase := .scanning call } with tables := t }
  | _ => none

/-- `Sweep` commits. -/
def sweep (s : Process) (r : Nat) : Option Process := do
  let (run, call) ← s.scanning r
  let (t, dirs, files) := s.tables.sweep run.locationID run.gen
  let call ← call.step (.commitSweep dirs files)
  return { s.setRun r { run with phase := .scanning call } with
    tables := t
    swept := (run.locationID, run.gen) :: s.swept }

/-- `FinishScan`, once `sync` has returned. -/
def finishScan (s : Process) (r : Nat) (now : Int) : Option Process := do
  let (run, call) ← s.scanning r
  match call.stage with
  | .returned scanErr =>
    return { s.setRun r { run with phase := .closing } with
      tables := s.tables.finishScan now run.scanID call.progress scanErr
      finished := run.scanID :: s.finished }
  | _ => none

def finishFails (s : Process) (r : Nat) : Option Process := do
  let (run, call) ← s.scanning r
  match call.stage with
  | .returned _ => return s.setRun r { run with phase := .closing }
  | _ => none

/-- `release`, after `FinishScan` or after a `BeginScan` that failed. -/
def release (s : Process) (r : Nat) : Option Process :=
  match s.runs[r]? with
  | none => none
  | some run =>
    match run.phase with
    | .refused | .closing =>
      some { s.setRun r { run with phase := .released } with
        byLoc := Function.update s.byLoc run.locationID none
        byScan := Function.update s.byScan run.scanID none }
    | _ => none

/-- The run that `Cancel` finds for a scan. -/
def running (s : Process) (scanID : UUID) : Option (Nat × Run) := do
  let r ← s.byScan scanID
  let run ← s.runs[r]?
  if s.byLoc run.locationID = some r then return (r, run) else none

def cancel (s : Process) (scanID : UUID) : Option Process := do
  let (r, run) ← s.running scanID
  return { s.setRun r { run.cancel with cancelling := true } with
    accepted :=
      if s.stateOf scanID = some .running then scanID :: s.accepted else s.accepted }

def shutdown (s : Process) : Process :=
  { s with
    runs := s.runs.mapIdx fun r run =>
      if s.byLoc run.locationID = some r then run.cancel else run }

/-- The process dies; the next one may run `Recover` before it serves. -/
def restart (s : Process) (recovered : Option Int) : Process :=
  { s with
    tables := match recovered with
      | none => s.tables
      | some now => s.tables.abortRunningScans now
    runs := []
    byLoc := fun _ => none
    byScan := fun _ => none }

def step (pool : WorkerPool) (s : Process) : ProcessAction → Option Process
  | .insertLocation id uri =>
    match s.tables.insertLocation id uri with
    | .error _ => none
    | .ok t => some { s with tables := t }
  | .start loc force => s.start loc force
  | .beginScan r now scanID => s.beginScan r now scanID
  | .beginFails r => s.beginFails r
  | .register r order tree => register pool s r order tree
  | .sync r a => s.sync r a
  | .load r i => s.load r i
  | .commit r i newDirID newFileID => s.commit r i newDirID newFileID
  | .sweep r => s.sweep r
  | .finishScan r now => s.finishScan r now
  | .finishFails r => s.finishFails r
  | .release r => s.release r
  | .cancel scanID => s.cancel scanID
  | .shutdown => some s.shutdown
  | .restart recovered => some (s.restart recovered)

end Process

end Byom.Scan
