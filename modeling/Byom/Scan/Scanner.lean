import Mathlib.Logic.Function.Basic
import Byom.Scan.EmittedNames
import Byom.Scan.Reconcile
import Byom.Transition.Run

/-!
# The scanner

`Scanner` is the tables and, for each location, its latest scan. A sync worker
takes a walked dir from the queue and loads its known files, and later commits
the change set; the workers of one scan, the scans of other locations and the
parse queue interleave in between. A transaction that fails changes nothing, so
its action is not enabled; the scan it belonged to can only finish then.
-/

namespace Byom.Scan

open Storage Relational Sqlite

/-- One scan, while it is in flight and after. `begun` is the tables it found. -/
structure ScanRun where
  scanID : UUID
  gen : Int
  force : Bool
  walked : List WalkResult
  queue : List WalkResult
  loaded : List (WalkResult × List File)
  synced : List WalkResult
  swept : Bool
  inFlight : Bool
  progress : Progress
  begun : ScanTables

/-- Every walked dir is synced, and `g.Wait` returns nil. -/
def ScanRun.drained (run : ScanRun) : Bool := run.queue.isEmpty && run.loaded.isEmpty

structure Scanner where
  tables : ScanTables
  byLoc : UUID → Option ScanRun

/-- A process that starts with no tables. -/
def Scanner.empty : Scanner := ⟨.empty, fun _ => none⟩

inductive Action where
  | insertLocation (id : UUID) (uri : String)
  | start (loc : UUID) (now : Int) (scanID : UUID) (force : Bool) (order : MapOrder) (tree : Tree)
  | load (loc : UUID) (i : Nat)
  | commit (loc : UUID) (i : Nat) (newDirID : UUID) (newFileID : Path → UUID)
  | sweep (loc : UUID)
  | finish (loc : UUID) (now : Int) (scanErr : Option ScanError)
  | crash
  | recover (now : Int)
  | dirtyDirs (limit : Nat) (picked : List UUID)
  | releaseDir (dirID : UUID) (lockedGen : Int)
  | releaseAndRedirty (dirID : UUID) (lockedGen : Int)

namespace Scanner

/-- The scan of a location that is in flight. -/
def active (s : Scanner) (loc : UUID) : Option ScanRun :=
  (s.byLoc loc).filter ScanRun.inFlight

def setRun (s : Scanner) (loc : UUID) (t : ScanTables) (run : ScanRun) : Scanner :=
  ⟨t, Function.update s.byLoc loc (some run)⟩

/-- `Scanner.Start`, up to the walk: one scan of a location at a time. -/
def start (s : Scanner) (loc : UUID) (now : Int) (scanID : UUID) (force : Bool)
    (order : MapOrder) (tree : Tree) : Option Scanner :=
  if (s.active loc).isSome then none
  else
    match s.tables.beginScan now scanID loc with
    | .error _ => none
    | .ok (t, gen) =>
      let emitted := (walk order tree).emitted
      some (s.setRun loc t ⟨scanID, gen, force, emitted, emitted, [], [], false, true,
        ⟨0, 0, 0, 0⟩, s.tables⟩)

/-- The first half of `syncDir`: `DirID` and `KnownFiles`. -/
def load (s : Scanner) (loc : UUID) (i : Nat) : Option Scanner := do
  let run ← s.active loc
  let res ← run.queue[i]?
  return s.setRun loc s.tables { run with
    queue := run.queue.eraseIdx i
    loaded := (res, knownIn loc res.dir s.tables) :: run.loaded }

/-- The second half of `syncDir`: `computeChangeset` and `SyncDir`. -/
def commit (s : Scanner) (loc : UUID) (i : Nat) (newDirID : UUID) (newFileID : Path → UUID) :
    Option Scanner := do
  let run ← s.active loc
  let (res, known) ← run.loaded[i]?
  let payload := syncPayload loc run.gen run.force known res
  match s.tables.syncDir newDirID newFileID payload with
  | .error _ => none
  | .ok (t, _) =>
    return s.setRun loc t { run with
      loaded := run.loaded.eraseIdx i
      synced := res :: run.synced
      progress := { run.progress with
        dirsSeen := run.progress.dirsSeen + 1
        filesSeen := run.progress.filesSeen + res.files.length
        filesMissing := run.progress.filesMissing + payload.missing.length } }

def sweep (s : Scanner) (loc : UUID) : Option Scanner := do
  let run ← s.active loc
  if run.drained && !run.swept then
    let (t, dirs, files) := s.tables.sweep loc run.gen
    return s.setRun loc t { run with
      swept := true
      progress := { run.progress with
        dirsMissing := run.progress.dirsMissing + dirs
        filesMissing := run.progress.filesMissing + files } }
  else none

/-- The end of `runScan`. A failed sweep is only logged. -/
def finish (s : Scanner) (loc : UUID) (now : Int) (scanErr : Option ScanError) :
    Option Scanner := do
  let run ← s.active loc
  if scanErr.isSome || run.drained then
    return s.setRun loc (s.tables.finishScan now run.scanID run.progress scanErr)
      { run with inFlight := false }
  else none

def withTables (s : Scanner) : Except SqlError ScanTables → Option Scanner
  | .error _ => none
  | .ok t => some { s with tables := t }

def step (s : Scanner) : Action → Option Scanner
  | .insertLocation id uri => s.withTables (s.tables.insertLocation id uri)
  | .start loc now scanID force order tree => s.start loc now scanID force order tree
  | .load loc i => s.load loc i
  | .commit loc i newDirID newFileID => s.commit loc i newDirID newFileID
  | .sweep loc => s.sweep loc
  | .finish loc now scanErr => s.finish loc now scanErr
  | .crash => some { s with byLoc := fun _ => none }
  | .recover now => some { s with tables := s.tables.abortRunningScans now }
  | .dirtyDirs limit picked =>
    if s.tables.Picks limit picked then some { s with tables := (s.tables.dirtyDirs picked).1 }
    else none
  | .releaseDir dirID lockedGen => s.withTables (s.tables.releaseDir dirID lockedGen)
  | .releaseAndRedirty dirID lockedGen => s.withTables (s.tables.releaseAndRedirty dirID lockedGen)

/-- The states that some history of scans leads to. -/
def Reachable (s : Scanner) : Prop := ∃ acts, Transition.run step empty acts = some s

end Scanner

end Byom.Scan
