import Mathlib.Data.Char
import Mathlib.Data.List.Lex
import Mathlib.Data.List.Sort
import Byom.Relational.Table
import Byom.Storage.File

/-!
# The storage tables and the stores that write them

`ScanStore` and `ParseQueueStore` share the `dirs` table. Each method is one
transaction, so it is one function on the tables, and a failed one leaves them
as they were.
-/

namespace Byom.Storage

/-- The mod time of a zero `time.Time`: year 1, in Unix nanoseconds. -/
def zeroTime : Int := -62135596800000000000

/-- Times are stored as `UnixNano`, in a 64-bit column. -/
def FileInfo.stored (i : FileInfo) : FileInfo := { i with modTime := i.modTime.bmod (2 ^ 64) }

/-- The zero `storage.File`. -/
def File.zero : File := ⟨.nil, [], .other "", ⟨0, zeroTime⟩, false⟩

end Byom.Storage

namespace Byom.Scan

open Storage

/-- `scan.State`. `cancelling` is never stored. -/
inductive State where
  | running
  | cancelling
  | done
  | failed
  | aborted
  deriving DecidableEq, Repr

structure Progress where
  dirsSeen : Int
  dirsMissing : Int
  filesSeen : Int
  filesMissing : Int
  deriving DecidableEq, Repr

/-- The change set of one synced dir. With `dirty`, it is queued for parsing. -/
structure SyncPayload where
  locationID : UUID
  relPath : Path
  generation : Int
  changed : List File
  missing : List UUID
  dirty : Bool
  deriving DecidableEq, Repr

/-- How a scan ended: the two kinds of error `FinishScan` tells apart. -/
inductive ScanError where
  | canceled
  | other (text : String)
  deriving DecidableEq, Repr

end Byom.Scan

namespace Byom.Metadata

open Storage

/-- A dir claimed from the parse queue, with the generation captured then. -/
structure ClaimedDir where
  id : UUID
  relPath : Path
  locationID : UUID
  lockedGeneration : Int
  deriving DecidableEq, Repr

end Byom.Metadata

namespace Byom.Sqlite

open Storage Relational

/-- Why a statement fails. -/
inductive SqlError where
  | unique
  | foreignKey
  | noRows
  | lockLost
  deriving DecidableEq, Repr

structure LocationRow where
  id : UUID
  uri : String
  scanGeneration : Int
  available : Bool
  deriving DecidableEq, Repr

structure ScanRow where
  id : UUID
  locationID : UUID
  generation : Int
  state : Scan.State
  startTime : Int
  finishTime : Option Int
  error : Option String
  progress : Scan.Progress
  deriving DecidableEq, Repr

structure DirRow where
  id : UUID
  locationID : UUID
  relPath : Path
  seenGeneration : Int
  missing : Bool
  dirty : Bool
  lockedGeneration : Option Int
  deriving DecidableEq, Repr

structure FileRow where
  id : UUID
  dirID : UUID
  name : Path
  kind : FileKind
  info : FileInfo
  missing : Bool
  deriving DecidableEq, Repr

/-- `UNIQUE (location_id, relpath)`. -/
def DirRow.key (d : DirRow) : UUID × Path := (d.locationID, d.relPath)

/-- `UNIQUE (dir_id, name)`. -/
def FileRow.key (f : FileRow) : UUID × Path := (f.dirID, f.name)

structure ScanTables where
  locations : List LocationRow
  scans : List ScanRow
  dirs : List DirRow
  files : List FileRow
  deriving DecidableEq

namespace ScanTables

def empty : ScanTables := ⟨[], [], [], []⟩

/-- `LocationStore.Insert`. -/
def insertLocation (id : UUID) (uri : String) (t : ScanTables) : Except SqlError ScanTables :=
  if t.locations.any fun l => l.id = id ∨ l.uri = uri then .error .unique
  else .ok { t with locations := t.locations ++ [⟨id, uri, 0, true⟩] }

/-- `ScanStore.BeginScan`: a running scan row is a crashed one, and so is a lock. -/
def beginScan (now : Int) (scanID locationID : UUID) (t : ScanTables) :
    Except SqlError (ScanTables × Int) :=
  match lookup LocationRow.id locationID t.locations with
  | none => .error .noRows
  | some loc =>
    if t.scans.any fun s => s.id = scanID then .error .unique
    else
      let gen := loc.scanGeneration + 1
      .ok ({ t with
        locations := updateWhere (fun l => l.id = locationID)
          (fun l => { l with scanGeneration := l.scanGeneration + 1 }) t.locations
        scans := updateWhere (fun s => s.locationID = locationID ∧ s.state = .running)
            (fun s => { s with state := .aborted, finishTime := some now }) t.scans ++
          [⟨scanID, locationID, gen, .running, now, none, none, ⟨0, 0, 0, 0⟩⟩]
        dirs := updateWhere (fun d => d.locationID = locationID ∧ d.lockedGeneration.isSome)
          (fun d => { d with lockedGeneration := none, dirty := true }) t.dirs }, gen)

/-- `ScanStore.FinishScan`. -/
def finishScan (now : Int) (scanID : UUID) (progress : Scan.Progress)
    (scanErr : Option Scan.ScanError) (t : ScanTables) : ScanTables :=
  let state := match scanErr with
    | none => .done
    | some .canceled => .aborted
    | some (.other _) => .failed
  let error := match scanErr with
    | some (.other text) => some text
    | _ => none
  { t with
    scans := updateWhere (fun s => s.id = scanID ∧ s.state = .running)
      (fun s => { s with state, finishTime := some now, error, progress }) t.scans }

/-- `ScanStore.AbortRunningScans`. -/
def abortRunningScans (now : Int) (t : ScanTables) : ScanTables :=
  { t with
    scans := updateWhere (fun s => s.state = .running ∨ s.state = .cancelling)
      (fun s => { s with state := .aborted, finishTime := some now }) t.scans }

/-- `ScanStore.DirID`. -/
def dirID (locationID : UUID) (relPath : Path) (t : ScanTables) : Option UUID :=
  (lookup DirRow.key (locationID, relPath) t.dirs).map DirRow.id

/-- `scanFile`: the columns read do not include `missing`. -/
def scanFile (f : FileRow) : File :=
  { File.zero with id := f.id, name := f.name, kind := f.kind, info := f.info }

/-- `ScanStore.KnownFiles`, the map as the list of its values. -/
def knownFiles (dirID : UUID) (t : ScanTables) : List File :=
  (t.files.filter fun f => f.dirID = dirID).map scanFile

/-- The row `SyncDir` inserts for a dir it does not find. -/
def newDir (newDirID : UUID) (p : Scan.SyncPayload) : DirRow :=
  ⟨newDirID, p.locationID, p.relPath, p.generation, false, p.dirty, none⟩

/-- What `SyncDir` does to a dir it finds; `dirty` is only ever set. -/
def resyncDir (p : Scan.SyncPayload) (d : DirRow) : DirRow :=
  { d with
    seenGeneration := p.generation
    missing := false
    dirty := if p.dirty then true else d.dirty }

def upsertDir (newDirID : UUID) (p : Scan.SyncPayload) (t : ScanTables) :
    Except SqlError (ScanTables × UUID) :=
  let upserted : ScanTables :=
    { t with dirs := upsertOn DirRow.key (resyncDir p) (newDir newDirID p) t.dirs }
  match lookup DirRow.key (p.locationID, p.relPath) t.dirs with
  | some d => .ok (upserted, d.id)
  | none =>
    if t.dirs.any fun d => d.id = newDirID then .error .unique
    else if t.locations.all fun l => l.id ≠ p.locationID then .error .foreignKey
    else .ok (upserted, newDirID)

def markMissingFiles (ids : List UUID) (t : ScanTables) : ScanTables :=
  { t with
    files := updateWhere (fun f => f.id ∈ ids ∧ f.missing = false)
      (fun f => { f with missing := true }) t.files }

/-- The row inserted for a file. A nil ID is replaced by a new one. -/
def newFile (newFileID : Path → UUID) (dirID : UUID) (f : File) : FileRow :=
  ⟨if f.id = .nil then newFileID f.name else f.id, dirID, f.name, f.kind, f.info.stored, false⟩

def refreshFile (f : File) (r : FileRow) : FileRow :=
  { r with kind := f.kind, info := f.info.stored, missing := false }

/-- One row of the insert of `upsertFiles`. -/
def upsertFile (newFileID : Path → UUID) (dirID : UUID) (f : File) (t : ScanTables) :
    Except SqlError ScanTables :=
  let fresh := newFile newFileID dirID f
  if (lookup FileRow.key (dirID, f.name) t.files).isNone ∧
      t.files.any (fun r => r.id = fresh.id) then
    .error .unique
  else
    .ok { t with files := upsertOn FileRow.key (refreshFile f) fresh t.files }

def upsertFiles (newFileID : Path → UUID) (dirID : UUID) :
    List File → ScanTables → Except SqlError ScanTables
  | [], t => .ok t
  | f :: fs, t => do
    let t ← upsertFile newFileID dirID f t
    upsertFiles newFileID dirID fs t

/-- `ScanStore.SyncDir`. The IDs that `uuid.NewV7` would mint are arguments. -/
def syncDir (newDirID : UUID) (newFileID : Path → UUID) (p : Scan.SyncPayload) (t : ScanTables) :
    Except SqlError (ScanTables × UUID) := do
  let (t, dirID) ← upsertDir newDirID p t
  let t ← upsertFiles newFileID dirID p.changed (markMissingFiles p.missing t)
  return (t, dirID)

/-- The dirs a sweep of generation `gen` finds unseen. -/
def unseen (locationID : UUID) (gen : Int) (d : DirRow) : Bool :=
  d.locationID = locationID ∧ d.seenGeneration < gen ∧ d.missing = false

/-- `ScanStore.Sweep`, with the rows affected in `dirs` and in `files`. -/
def sweep (locationID : UUID) (gen : Int) (t : ScanTables) : ScanTables × Nat × Nat :=
  let ids := (t.dirs.filter (unseen locationID gen)).map DirRow.id
  ({ t with
      files := updateWhere (fun f => f.dirID ∈ ids) (fun f => { f with missing := true }) t.files
      dirs := updateWhere (unseen locationID gen) (fun d => { d with missing := true }) t.dirs },
    ids.length, (t.files.filter fun f => f.dirID ∈ ids).length)

/-- In the index `idx_dirs_parse_queue`. -/
def claimable (d : DirRow) : Bool := d.dirty && d.lockedGeneration.isNone

/-- The inner select of `DirtyDirs` has a limit and no order, so `picked` may be any
`limit` of the claimable dirs, or all of them if there are fewer. -/
def Picks (limit : Nat) (picked : List UUID) (t : ScanTables) : Prop :=
  picked.Nodup ∧ picked ⊆ (t.dirs.filter claimable).map DirRow.id ∧
    picked.length = min limit (t.dirs.filter claimable).length

instance (limit : Nat) (picked : List UUID) (t : ScanTables) : Decidable (Picks limit picked t) :=
  have : Decidable (picked ⊆ (t.dirs.filter claimable).map DirRow.id) :=
    List.decidableBAll (· ∈ (t.dirs.filter claimable).map DirRow.id) picked
  inferInstanceAs (Decidable (_ ∧ _ ∧ _))

def claim (d : DirRow) : Metadata.ClaimedDir :=
  ⟨d.id, d.relPath, d.locationID, d.seenGeneration⟩

/-- `ParseQueueStore.DirtyDirs`. -/
def dirtyDirs (picked : List UUID) (t : ScanTables) : ScanTables × List Metadata.ClaimedDir :=
  ({ t with
      dirs := updateWhere (fun d => d.id ∈ picked)
        (fun d => { d with dirty := false, lockedGeneration := some d.seenGeneration }) t.dirs },
    picked.filterMap fun id => (lookup DirRow.id id t.dirs).map claim)

/-- The text a path is stored as. -/
def nameText (p : Path) : List Char := ['/'].intercalate (p.map String.toList)

/-- `ORDER BY name COLLATE NOCASE ASC, name DESC`; the collation folds ASCII letters. -/
def nameOrder (a b : File) : Prop :=
  let fold (f : File) := (nameText f.name).map Char.toLower
  fold a < fold b ∨ fold a = fold b ∧ nameText b.name ≤ nameText a.name

instance : DecidableRel nameOrder := fun _ _ =>
  inferInstanceAs (Decidable (_ ∨ _ ∧ _))

/-- `ParseQueueStore.DirFiles`. -/
def dirFiles (dirID : UUID) (t : ScanTables) : List File :=
  ((t.files.filter fun f => f.dirID = dirID ∧ f.missing = false).map scanFile).insertionSort
    nameOrder

/-- The row a release call with `lockedGen` matches. -/
def lockedBy (dirID : UUID) (lockedGen : Int) (d : DirRow) : Bool :=
  d.id = dirID ∧ d.lockedGeneration = some lockedGen

/-- `ParseQueueStore.ReleaseDir`. -/
def releaseDir (dirID : UUID) (lockedGen : Int) (t : ScanTables) : Except SqlError ScanTables :=
  if t.dirs.any (lockedBy dirID lockedGen) then
    .ok { t with
      dirs := updateWhere (lockedBy dirID lockedGen)
        (fun d => { d with lockedGeneration := none }) t.dirs }
  else .error .lockLost

/-- `ParseQueueStore.ReleaseAndRedirty`. -/
def releaseAndRedirty (dirID : UUID) (lockedGen : Int) (t : ScanTables) :
    Except SqlError ScanTables :=
  if t.dirs.any (lockedBy dirID lockedGen) then
    .ok { t with
      dirs := updateWhere (lockedBy dirID lockedGen)
        (fun d => { d with lockedGeneration := none, dirty := true }) t.dirs }
  else .error .lockLost

end ScanTables

end Byom.Sqlite
