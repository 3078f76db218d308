import Mathlib.Logic.Function.Basic
import Byom.Sqlite.DirView
import Byom.Transition.Run

/-!
# The parse pipeline beside running scans

`Pipeline` is one process: the tables, the scans in flight, the dispatcher with
its one-slot notify channel, the queue of claimed dirs, the workers and the retry
timers. Each action is one transaction or one step in memory; a call that fails
in the database is an action of its own where it has an effect. The context of
`Run` stays open throughout.
-/

namespace Byom.Metadata

open Storage Relational Sqlite

/-- `maxParseAttempts`. -/
def maxParseAttempts : Nat := 3

structure ParseAttempts where
  generation : Int
  failures : Nat
  deriving DecidableEq, Repr

/-- Where the dispatcher is. `feeding` holds what is left of a claimed batch. -/
inductive Dispatcher where
  | pumping
  | feeding (batch : List ClaimedDir)
  | waiting
  deriving DecidableEq

/-- What the dispatcher has claimed and not sent. -/
def Dispatcher.batch : Dispatcher → List ClaimedDir
  | .feeding batch => batch
  | _ => []

/-- Where a worker is in `parseClaimed` and `releaseFailed`. -/
inductive Worker where
  | idle
  | claimed (dir : ClaimedDir)
  | read (dir : ClaimedDir) (files : List File)
  | imported (dir : ClaimedDir)
  | cleared (dir : ClaimedDir)
  | failed (dir : ClaimedDir)
  | givingUp (dir : ClaimedDir)
  | redirtying (dir : ClaimedDir)
  | redirtied
  deriving DecidableEq

namespace Worker

/-- The claim a worker has not made its release call for. -/
def claim : Worker → Option ClaimedDir
  | .idle => none
  | .claimed dir => some dir
  | .read dir _ => some dir
  | .imported dir => some dir
  | .cleared dir => some dir
  | .failed dir => some dir
  | .givingUp dir => some dir
  | .redirtying dir => some dir
  | .redirtied => none

/-- The claim a worker is about to call `ReleaseDir` for. -/
def releasing : Worker → Option ClaimedDir
  | .cleared dir => some dir
  | .givingUp dir => some dir
  | _ => none

end Worker

/-- A scan in flight. -/
structure ScanInFlight where
  locationID : UUID
  scanID : UUID
  gen : Int
  deriving DecidableEq, Repr

/-- `onDirty` lists, by location, the syncs that have yet to call `OnDirty`. The
library is kept as the import of each dir; `failedSince` records the dirs with a
failed attempt since their file rows last changed, and nothing reads it. -/
structure Pipeline (Import : Type) where
  tables : ScanTables
  scanning : List ScanInFlight
  onDirty : List UUID
  token : Bool
  dispatcher : Dispatcher
  toParse : List ClaimedDir
  workers : List Worker
  attempts : UUID → ParseAttempts
  timers : Nat
  library : UUID → Import
  failedSince : UUID → Bool

inductive Action where
  | beginScan (loc : UUID) (now : Int) (scanID : UUID)
  | syncDir (newDirID : UUID) (newFileID : Path → UUID) (payload : Scan.SyncPayload)
  | onDirty (i : Nat)
  | sweep (loc : UUID)
  | finishScan (loc : UUID) (now : Int) (progress : Scan.Progress)
      (scanErr : Option Scan.ScanError)
  | receiveToken
  | dirtyDirs (picked : List UUID)
  | send
  | receive (w : Nat)
  | fail (w : Nat)
  | dirFiles (w : Nat)
  | importDir (w : Nat)
  | clearAttempts (w : Nat)
  | recordFailure (w : Nat)
  | releaseDir (w : Nat)
  | releaseAndRedirty (w : Nat)
  | releaseError (w : Nat)
  | armRetry (w : Nat)
  | skipRetry (w : Nat)
  | timerFires

namespace Pipeline

variable {Import : Type}

instance (p : Scan.SyncPayload) (t : ScanTables) : Decidable (t.MissingInside p) :=
  inferInstanceAs (Decidable (∀ f ∈ t.files, _ → _))

/-- `Scanner.Start`: one scan of a location at a time. -/
def beginScan (s : Pipeline Import) (loc : UUID) (now : Int) (scanID : UUID) :
    Option (Pipeline Import) :=
  if s.scanning.any fun r => r.locationID = loc then none
  else
    match s.tables.beginScan now scanID loc with
    | .error _ => none
    | .ok (t, gen) =>
      some { s with
        tables := t
        scanning := ⟨loc, scanID, gen⟩ :: s.scanning }

/-- `SyncDir`, of any payload that a scan in flight can have built: what it marks
missing is in its dir, and it is dirty if it changes a file row. -/
def syncDir (s : Pipeline Import) (newDirID : UUID) (newFileID : Path → UUID)
    (p : Scan.SyncPayload) : Option (Pipeline Import) :=
  if s.scanning.any (fun r => r.locationID = p.locationID ∧ r.gen = p.generation) ∧
      s.tables.MissingInside p then
    match s.tables.syncDir newDirID newFileID p with
    | .error _ => none
    | .ok (t, dirID) =>
      if p.dirty = true ∨ t.files = s.tables.files then
        some { s with
          tables := t
          onDirty := if p.dirty then p.locationID :: s.onDirty else s.onDirty
          failedSince :=
            if t.rowsOf dirID = s.tables.rowsOf dirID then s.failedSince
            else Function.update s.failedSince dirID false }
      else none
  else none

/-- `Sweep` and `FinishScan` come after every worker of the scan has returned. -/
def sweep (s : Pipeline Import) (loc : UUID) : Option (Pipeline Import) := do
  let run ← s.scanning.find? fun r => r.locationID = loc
  if loc ∈ s.onDirty then none
  else return { s with tables := (s.tables.sweep loc run.gen).1 }

def finishScan (s : Pipeline Import) (loc : UUID) (now : Int) (progress : Scan.Progress)
    (scanErr : Option Scan.ScanError) : Option (Pipeline Import) := do
  let run ← s.scanning.find? fun r => r.locationID = loc
  if loc ∈ s.onDirty then none
  else
    return { s with
      tables := s.tables.finishScan now run.scanID progress scanErr
      scanning := s.scanning.filter fun r => r.locationID ≠ loc }

/-- One round of `pump`: claim up to a batch, and return when none is claimable. -/
def dirtyDirs (s : Pipeline Import) (picked : List UUID) : Option (Pipeline Import) :=
  if s.dispatcher = .pumping ∧ s.tables.Picks s.workers.length picked then
    let (t, claimed) := s.tables.dirtyDirs picked
    some { s with
      tables := t
      dispatcher := if claimed = [] then .waiting else .feeding claimed }
  else none

/-- `toParse <- c`, which blocks while the queue is full. -/
def send (s : Pipeline Import) : Option (Pipeline Import) :=
  match s.dispatcher with
  | .feeding (c :: batch) =>
    if s.toParse.length < s.workers.length then
      some { s with
        toParse := s.toParse ++ [c]
        dispatcher := if batch = [] then .pumping else .feeding batch }
    else none
  | _ => none

def setWorker (s : Pipeline Import) (w : Nat) (x : Worker) : Pipeline Import :=
  { s with workers := s.workers.set w x }

def receive (s : Pipeline Import) (w : Nat) : Option (Pipeline Import) :=
  match s.workers[w]?, s.toParse with
  | some .idle, c :: rest =>
    some { s with workers := s.workers.set w (.claimed c), toParse := rest }
  | _, _ => none

/-- The location, its root, the files or `OnResult` return an error. -/
def fail (s : Pipeline Import) (w : Nat) : Option (Pipeline Import) :=
  let failure (dir : ClaimedDir) : Pipeline Import :=
    { s with
      workers := s.workers.set w (.failed dir)
      failedSince := Function.update s.failedSince dir.id true }
  match s.workers[w]? with
  | some (.claimed dir) => some (failure dir)
  | some (.read dir _) => some (failure dir)
  | _ => none

def dirFiles (s : Pipeline Import) (w : Nat) : Option (Pipeline Import) :=
  match s.workers[w]? with
  | some (.claimed dir) => some (s.setWorker w (.read dir (s.tables.dirFiles dir.id)))
  | _ => none

/-- `parseDir` and an `OnResult` that returns nil. -/
def importDir (importOf : List File → Import) (s : Pipeline Import) (w : Nat) :
    Option (Pipeline Import) :=
  match s.workers[w]? with
  | some (.read dir files) =>
    some { s with
      workers := s.workers.set w (.imported dir)
      library := Function.update s.library dir.id (importOf files) }
  | _ => none

def clearAttempts (s : Pipeline Import) (w : Nat) : Option (Pipeline Import) :=
  match s.workers[w]? with
  | some (.imported dir) =>
    some { s with
      workers := s.workers.set w (.cleared dir)
      attempts := Function.update s.attempts dir.id ⟨0, 0⟩ }
  | _ => none

/-- The attempts after one more failure, counted per generation. -/
def countFailure (dir : ClaimedDir) (at_ : ParseAttempts) : ParseAttempts :=
  if at_.generation ≠ dir.lockedGeneration then ⟨dir.lockedGeneration, 1⟩
  else { at_ with failures := at_.failures + 1 }

def recordFailure (s : Pipeline Import) (w : Nat) : Option (Pipeline Import) :=
  match s.workers[w]? with
  | some (.failed dir) =>
    let counted := countFailure dir (s.attempts dir.id)
    let next := if maxParseAttempts ≤ counted.failures then Worker.givingUp dir
      else Worker.redirtying dir
    some { s with
      workers := s.workers.set w next
      attempts := Function.update s.attempts dir.id counted }
  | _ => none

/-- `ReleaseDir`, after a successful parse or after the last attempt. -/
def releaseDir (s : Pipeline Import) (w : Nat) : Option (Pipeline Import) := do
  let x ← s.workers[w]?
  let dir ← x.releasing
  match s.tables.releaseDir dir.id dir.lockedGeneration with
  | .error _ => none
  | .ok t => return { s with workers := s.workers.set w .idle, tables := t }

def releaseAndRedirty (s : Pipeline Import) (w : Nat) : Option (Pipeline Import) :=
  match s.workers[w]? with
  | some (.redirtying dir) =>
    match s.tables.releaseAndRedirty dir.id dir.lockedGeneration with
    | .error _ => none
    | .ok t => some { s with workers := s.workers.set w .redirtied, tables := t }
  | _ => none

/-- A release call that fails, with the lock lost or for another reason, is only
logged. -/
def releaseError (s : Pipeline Import) (w : Nat) : Option (Pipeline Import) :=
  match s.workers[w]? with
  | some (.cleared _) => some (s.setWorker w .idle)
  | some (.givingUp _) => some (s.setWorker w .idle)
  | some (.redirtying _) => some (s.setWorker w .idle)
  | _ => none

/-- `time.AfterFunc(delay, p.Wake)`. -/
def armRetry (s : Pipeline Import) (w : Nat) : Option (Pipeline Import) :=
  if s.workers[w]? = some .redirtied then
    some { s with workers := s.workers.set w .idle, timers := s.timers + 1 }
  else none

/-- The release took longer than its timeout, and no timer is armed. -/
def skipRetry (s : Pipeline Import) (w : Nat) : Option (Pipeline Import) :=
  if s.workers[w]? = some .redirtied then some (s.setWorker w .idle) else none

def step (importOf : List File → Import) (s : Pipeline Import) :
    Action → Option (Pipeline Import)
  | .beginScan loc now scanID => s.beginScan loc now scanID
  | .syncDir newDirID newFileID payload => s.syncDir newDirID newFileID payload
  | .onDirty i =>
    if i < s.onDirty.length then some { s with onDirty := s.onDirty.eraseIdx i, token := true }
    else none
  | .sweep loc => s.sweep loc
  | .finishScan loc now progress scanErr => s.finishScan loc now progress scanErr
  | .receiveToken =>
    if s.dispatcher = .waiting ∧ s.token = true then
      some { s with dispatcher := .pumping, token := false }
    else none
  | .dirtyDirs picked => s.dirtyDirs picked
  | .send => s.send
  | .receive w => s.receive w
  | .fail w => s.fail w
  | .dirFiles w => s.dirFiles w
  | .importDir w => s.importDir importOf w
  | .clearAttempts w => s.clearAttempts w
  | .recordFailure w => s.recordFailure w
  | .releaseDir w => s.releaseDir w
  | .releaseAndRedirty w => s.releaseAndRedirty w
  | .releaseError w => s.releaseError w
  | .armRetry w => s.armRetry w
  | .skipRetry w => s.skipRetry w
  | .timerFires =>
    if 0 < s.timers then some { s with timers := s.timers - 1, token := true } else none

/-- A process that starts on tables some earlier process left, with `n` workers.
The first thing the dispatcher does is the startup sweep. -/
def start (t : ScanTables) (library : UUID → Import) (n : Nat) : Pipeline Import where
  tables := t
  scanning := []
  onDirty := []
  token := false
  dispatcher := .pumping
  toParse := []
  workers := List.replicate n .idle
  attempts := fun _ => ⟨0, 0⟩
  timers := 0
  library := library
  failedSince := fun _ => false

/-- The claims that have been taken and not been given back. -/
def held (s : Pipeline Import) : List ClaimedDir :=
  s.dispatcher.batch ++ s.toParse ++ s.workers.filterMap Worker.claim

end Pipeline

end Byom.Metadata
