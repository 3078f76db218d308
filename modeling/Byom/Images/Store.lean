import Byom.Images.Paths
import Byom.Sqlite.ImageIndex

/-!
# The image store

`Store` is the directory of images beside the database that indexes them, and one process with
its calls of `Add` and `Open`. A call is taken apart at each access to the disk, the index
and the shared cache. Each of these may fail, and the process may stop between any two steps;
what is left then is on the disk and in the database.
-/

namespace Byom.Images

open Storage Files Library Sqlite Relational

/-- What comes from outside: the hash of `crypto/sha256`, `image.DecodeConfig` (the format, the
width and the height), and `resizeJPEG`, which scales in floating point. -/
structure Codec where
  sum256 : Bytes → BitVec 256
  decodeConfig : Bytes → Except String (String × Int × Int)
  resizeJPEG : Bytes → Int → Except String Bytes

def Codec.sha (k : Codec) (data : Bytes) : String := hexString (k.sum256 data)

def mimeForFormat (format : String) : Option String :=
  if format = "jpeg" then some "image/jpeg"
  else if format = "png" then some "image/png"
  else if format = "gif" then some "image/gif"
  else if format = "webp" then some "image/webp"
  else none

/-- What `Add` and `openOriginal` find out about an image, if they accept it. -/
def Codec.probe (k : Codec) (data : Bytes) : Option (String × Int × Int) :=
  match k.decodeConfig data with
  | .error _ => none
  | .ok (format, width, height) => (mimeForFormat format).map fun mime => (mime, width, height)

inductive AddStage where
  | hashed
  | missed
  | storing (mime : String) (width height : Int) (job : Job Path)
  | upserting (mime : String) (width height : Int)
  | publishing (img : Image)
  | returned (img : Image)
  | failed

/-- `flight` is the place of the `singleflight` call that is led or joined. -/
inductive OpenStage where
  | original
  | probing (data : Bytes)
  | cached
  | missed
  | joined (flight : Nat)
  | reading (flight : Nat)
  | resizing (flight : Nat) (data : Bytes)
  | storing (flight : Nat) (job : Job Path)
  | reopening
  | opened (data : Bytes) (mime : String)
  | failed

inductive Call where
  | adding (data : Bytes) (stage : AddStage)
  | opening (sha : String) (size : Int) (stage : OpenStage)

/-- The write that a call has under way. -/
def Call.job : Call → Option (Job Path)
  | .adding _ (.storing _ _ _ job) => some job
  | .opening _ _ (.storing _ job) => some job
  | _ => none

def Call.withJob (job : Job Path) : Call → Call
  | .adding data (.storing mime width height _) => .adding data (.storing mime width height job)
  | .opening sha size (.storing flight _) => .opening sha size (.storing flight job)
  | call => call

/-- A call of `derive.Do`: its key, and whether it succeeded once it is over. -/
structure Flight where
  key : String × Int
  result : Option Bool

/-- `added` and `results` are a record: what was given to `Add`, and what `Add` returned. -/
structure Store where
  files : Disk Path
  db : Database
  known : List (String × Image)
  calls : List Call
  flights : List Flight
  added : List Bytes
  results : List (Bytes × Image)

inductive StoreAction where
  | add (data : Bytes)
  | openImage (sha : String) (size : Int)
  | readKnown (i : Nat)
  | probe (i : Nat)
  | write (i : Nat) (a : WriteAction)
  | written (i : Nat)
  | upsert (i : Nat) (newID : UUID)
  | upsertLost (i : Nat) (newID : UUID)
  | publish (i : Nat)
  | openOriginal (i : Nat)
  | probeOriginal (i : Nat)
  | openCached (i : Nat)
  | enterFlight (i : Nat)
  | readOriginal (i : Nat)
  | resize (i : Nat)
  | wake (i : Nat)
  | reopen (i : Nat)
  | fail (i : Nat)
  | restart
  | store (w : Write)

namespace Store

/-- A new process beside an empty directory. -/
def start (db : Database) : Store := ⟨fun _ => none, db, [], [], [], [], []⟩

def setCall (s : Store) (i : Nat) (call : Call) : Store := { s with calls := s.calls.set i call }

/-- The flight is over, and so its key is free. -/
def land (s : Store) (flight : Nat) (ok : Bool) : Store :=
  { s with flights := s.flights.modify flight fun f => { f with result := some ok } }

/-- `Add` returns an image. -/
def returns (s : Store) (i : Nat) (data : Bytes) (img : Image) : Store :=
  { s.setCall i (.adding data (.returned img)) with results := s.results ++ [(data, img)] }

/-- `Open`, up to its first access to the disk. -/
def openStage (sha : String) (size : Int) : OpenStage :=
  if !validHash sha then .failed
  else if size ≠ 0 && !supportedSize size then .failed
  else if size = 0 then .original
  else .cached

/-- The look at the cache under the read lock. -/
def readKnown (k : Codec) (s : Store) (i : Nat) : Option Store :=
  match s.calls[i]? with
  | some (.adding data .hashed) =>
    match lookup Prod.fst (k.sha data) s.known with
    | some (_, img) => some (s.returns i data img)
    | none => some (s.setCall i (.adding data .missed))
  | _ => none

/-- The format is probed before the disk is touched. -/
def probe (k : Codec) (root : Path) (s : Store) (i : Nat) : Option Store :=
  match s.calls[i]? with
  | some (.adding data .missed) =>
    match k.probe data with
    | none => some (s.setCall i (.adding data .failed))
    | some (mime, width, height) =>
      let job : Job Path := ⟨blobPath root (k.sha data), data, .making⟩
      some (s.setCall i (.adding data (.storing mime width height job)))
  | _ => none

/-- A step of `writeFile`. -/
def write (s : Store) (i : Nat) (a : WriteAction) : Option Store :=
  match s.calls[i]? with
  | none => none
  | some call =>
    match call.job with
    | none => none
    | some job => (job.step tempPath s.files a).map fun (files, job) =>
      { s.setCall i (call.withJob job) with files }

/-- `writeFile` returns. -/
def written (s : Store) (i : Nat) : Option Store :=
  match s.calls[i]? with
  | some (.adding data (.storing mime width height job)) =>
    match job.stage with
    | .returned true => some (s.setCall i (.adding data (.upserting mime width height)))
    | .returned false => some (s.setCall i (.adding data .failed))
    | _ => none
  | some (.opening sha size (.storing flight job)) =>
    match job.stage with
    | .returned true => some ((s.land flight true).setCall i (.opening sha size .reopening))
    | .returned false => some ((s.land flight false).setCall i (.opening sha size .failed))
    | _ => none
  | _ => none

/-- The transaction of `Upsert`: the call, its data and the image with its ID. -/
def commit (k : Codec) (s : Store) (i : Nat) (newID : UUID) : Option (Bytes × Image × Database) :=
  match s.calls[i]? with
  | some (.adding data (.upserting mime width height)) =>
    let img : Image := ⟨newID, k.sha data, mime, width, height⟩
    match s.db.upsertImage img with
    | .ok (db, id) => some (data, { img with id }, db)
    | .error _ => none
  | _ => none

/-- The cache is written under the lock, and the first writer wins. -/
def publish (k : Codec) (s : Store) (i : Nat) : Option Store :=
  match s.calls[i]? with
  | some (.adding data (.publishing img)) =>
    match lookup Prod.fst (k.sha data) s.known with
    | some (_, existing) => some (s.returns i data existing)
    | none => some { s.returns i data img with known := s.known ++ [(k.sha data, img)] }
  | _ => none

def openOriginal (root : Path) (s : Store) (i : Nat) : Option Store :=
  match s.calls[i]? with
  | some (.opening sha size .original) =>
    match s.files (blobPath root sha) with
    | some data => some (s.setCall i (.opening sha size (.probing data)))
    | none => some (s.setCall i (.opening sha size .failed))
  | _ => none

def probeOriginal (k : Codec) (s : Store) (i : Nat) : Option Store :=
  match s.calls[i]? with
  | some (.opening sha size (.probing data)) =>
    match k.probe data with
    | some (mime, _, _) => some (s.setCall i (.opening sha size (.opened data mime)))
    | none => some (s.setCall i (.opening sha size .failed))
  | _ => none

/-- The first `os.Open` of `openDerivative`. -/
def openCached (root : Path) (s : Store) (i : Nat) : Option Store :=
  match s.calls[i]? with
  | some (.opening sha size .cached) =>
    match s.files (derivativePath root sha size) with
    | some data => some (s.setCall i (.opening sha size (.opened data "image/jpeg")))
    | none => some (s.setCall i (.opening sha size .missed))
  | _ => none

/-- `derive.Do`: a flight with the same key is joined, or a new one led. -/
def enterFlight (s : Store) (i : Nat) : Option Store :=
  match s.calls[i]? with
  | some (.opening sha size .missed) =>
    match s.flights.findIdx? fun f => f.key = (sha, size) ∧ f.result = none with
    | some flight => some (s.setCall i (.opening sha size (.joined flight)))
    | none =>
      some { s.setCall i (.opening sha size (.reading s.flights.length)) with
        flights := s.flights ++ [⟨(sha, size), none⟩] }
  | _ => none

/-- `makeDerivative` reads the original. -/
def readOriginal (root : Path) (s : Store) (i : Nat) : Option Store :=
  match s.calls[i]? with
  | some (.opening sha size (.reading flight)) =>
    match s.files (blobPath root sha) with
    | some data => some (s.setCall i (.opening sha size (.resizing flight data)))
    | none => some ((s.land flight false).setCall i (.opening sha size .failed))
  | _ => none

def resize (k : Codec) (root : Path) (s : Store) (i : Nat) : Option Store :=
  match s.calls[i]? with
  | some (.opening sha size (.resizing flight data)) =>
    match k.resizeJPEG data size with
    | .ok out =>
      let job : Job Path := ⟨derivativePath root sha size, out, .making⟩
      some (s.setCall i (.opening sha size (.storing flight job)))
    | .error _ => some ((s.land flight false).setCall i (.opening sha size .failed))
  | _ => none

/-- A flight that was joined is over. -/
def wake (s : Store) (i : Nat) : Option Store :=
  match s.calls[i]? with
  | some (.opening sha size (.joined flight)) =>
    match s.flights[flight]? with
    | some ⟨_, some true⟩ => some (s.setCall i (.opening sha size .reopening))
    | some ⟨_, some false⟩ => some (s.setCall i (.opening sha size .failed))
    | _ => none
  | _ => none

def reopen (root : Path) (s : Store) (i : Nat) : Option Store :=
  match s.calls[i]? with
  | some (.opening sha size .reopening) =>
    match s.files (derivativePath root sha size) with
    | some data => some (s.setCall i (.opening sha size (.opened data "image/jpeg")))
    | none => some (s.setCall i (.opening sha size .failed))
  | _ => none

/-- An access to the disk or the index returns an error, outside of `writeFile`. -/
def fail (s : Store) (i : Nat) : Option Store :=
  match s.calls[i]? with
  | some (.adding data (.upserting _ _ _)) => some (s.setCall i (.adding data .failed))
  | some (.opening sha size (.reading flight)) =>
    some ((s.land flight false).setCall i (.opening sha size .failed))
  | some (.opening sha size .original) => some (s.setCall i (.opening sha size .failed))
  | some (.opening sha size (.probing _)) => some (s.setCall i (.opening sha size .failed))
  | some (.opening sha size .cached) => some (s.setCall i (.opening sha size .failed))
  | some (.opening sha size .reopening) => some (s.setCall i (.opening sha size .failed))
  | _ => none

/-- The process stops, and another one starts. -/
def restart (s : Store) : Store := { s with known := [], calls := [], flights := [] }

/-- Any other write of the database. -/
def store (s : Store) (w : Write) : Option Store :=
  match w with
  | .upsertImage _ => none
  | w => (s.db.step w).map fun db => { s with db }

def step (k : Codec) (root : Path) (s : Store) : StoreAction → Option Store
  | .add data => some { s with
      calls := s.calls ++ [.adding data .hashed]
      added := s.added ++ [data] }
  | .openImage sha size => some { s with
      calls := s.calls ++ [.opening sha size (openStage sha size)] }
  | .readKnown i => s.readKnown k i
  | .probe i => s.probe k root i
  | .write i a => s.write i a
  | .written i => s.written i
  | .upsert i newID => (s.commit k i newID).map fun (data, img, db) =>
      { s.setCall i (.adding data (.publishing img)) with db }
  | .upsertLost i newID => (s.commit k i newID).map fun (data, _, db) =>
      { s.setCall i (.adding data .failed) with db }
  | .publish i => s.publish k i
  | .openOriginal i => s.openOriginal root i
  | .probeOriginal i => s.probeOriginal k i
  | .openCached i => s.openCached root i
  | .enterFlight i => s.enterFlight i
  | .readOriginal i => s.readOriginal root i
  | .resize i => s.resize k root i
  | .wake i => s.wake i
  | .reopen i => s.reopen root i
  | .fail i => s.fail i
  | .restart => some s.restart
  | .store w => s.store w

end Store

end Byom.Images
