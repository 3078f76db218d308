import Byom.Sqlite.Tables

/-!
# Changing and deleting locations

The delete runs no code for what it takes along: dirs, files, albums and tracks
go by foreign keys alone.
-/

namespace Byom.Sqlite

open Storage Relational Library

/-- `scan.ErrScanRunning`, `storage.ErrNotExists` and `storage.ErrExists`. -/
inductive LocationError where
  | scanRunning
  | notExists
  | exists
  deriving DecidableEq, Repr

namespace ScanTables

/-- `errIfScanRunning`. -/
def scanRunning (id : UUID) (t : ScanTables) : Bool :=
  t.scans.any fun s => s.locationID = id ∧ s.state = .running

def dirsOf (location : UUID) (t : ScanTables) : List UUID :=
  deletedKeys DirRow.id (fun d => d.locationID = location) t.dirs

def filesOf (location : UUID) (t : ScanTables) : List UUID :=
  deletedKeys FileRow.id (fun f => f.dirID ∈ t.dirsOf location) t.files

/-- `DELETE FROM locations WHERE id = ?`, as far as the storage tables go. -/
def deleteLocation (id : UUID) (t : ScanTables) : ScanTables where
  locations := deleteWhere (fun l => l.id = id) t.locations
  scans := cascade ScanRow.locationID [id] t.scans
  dirs := deleteWhere (fun d => d.locationID = id) t.dirs
  files := cascade FileRow.dirID (t.dirsOf id) t.files

/-- `UPDATE locations SET uri = ? WHERE id = ?`. -/
def setURI (id : UUID) (uri : String) (t : ScanTables) : ScanTables :=
  { t with locations := updateWhere (fun l => l.id = id) (fun l => { l with uri }) t.locations }

theorem setURI_sameRows (id : UUID) (uri : String) (t : ScanTables) :
    SameRows t (t.setURI id uri) := by
  refine ⟨?_, rfl, rfl⟩
  apply map_key_updateWhere
  exact fun _ => rfl

theorem deleteLocation_wellFormed {t : ScanTables} (id : UUID) (wf : t.WellFormed) :
    (t.deleteLocation id).WellFormed where
  locationIDs := wf.locationIDs.deleteWhere _
  scanIDs := wf.scanIDs.deleteWhere _
  dirIDs := wf.dirIDs.deleteWhere _
  dirKeys := wf.dirKeys.deleteWhere _
  dirLocations := by
    intro d hd
    obtain ⟨hd, other⟩ := mem_deleteWhere.mp hd
    obtain ⟨l, hl, owner⟩ := wf.dirLocations d hd
    refine ⟨l, mem_deleteWhere.mpr ⟨hl, ?_⟩, owner⟩
    rw [owner]
    exact other
  fileIDs := wf.fileIDs.deleteWhere _
  fileKeys := wf.fileKeys.deleteWhere _
  fileDirs := by
    intro f hf
    have refs : References FileRow.dirID t.files (t.dirs.map DirRow.id) := fun f hf =>
      List.mem_map.mpr (wf.fileDirs f hf)
    exact (refs.cascade fun d => d.locationID = id).exists_parent hf
  stored := fun f hf => wf.stored f (mem_cascade.mp hf).1

end ScanTables

namespace Database

/-- `LocationStore.Delete`. -/
def deleteLocation (id : UUID) (db : Database) : Except LocationError Database :=
  let dirs := db.storage.dirsOf id
  let files := db.storage.filesOf id
  if db.storage.scanRunning id then .error .scanRunning
  else if db.storage.locations.all fun l => l.id ≠ id then .error .notExists
  else
    .ok {
      storage := db.storage.deleteLocation id
      library := (db.library.deleteAlbums fun a => a.dirID ∈ dirs).deleteTracks
        fun t => t.fileID ∈ files
      wellFormed := ScanTables.deleteLocation_wellFormed id db.wellFormed
      unique := (db.unique.deleteAlbums _).deleteTracks _
      referenced :=
        have albums := db.referenced.deleteAlbums fun a => a.dirID ∈ dirs
        { albums.deleteTracks fun t => t.fileID ∈ files with
          albumDirs := db.referenced.albumDirs.cascade fun d => d.locationID = id
          trackFiles := albums.trackFiles.cascade fun f => f.dirID ∈ dirs } }

/-- `LocationStore.Update`. -/
def updateLocation (id : UUID) (uri : String) (db : Database) : Except LocationError Database :=
  if db.storage.scanRunning id then .error .scanRunning
  else if db.storage.locations.all fun l => l.id ≠ id then .error .notExists
  else if db.storage.locations.any fun l => l.id ≠ id ∧ l.uri = uri then .error .exists
  else
    .ok { db with
      storage := db.storage.setURI id uri
      wellFormed := (ScanTables.setURI_sameRows id uri _).wellFormed db.wellFormed.scanIDs
        db.wellFormed }

theorem deleteLocation_spec {db db' : Database} {id : UUID} (h : db.deleteLocation id = .ok db') :
    db'.storage = db.storage.deleteLocation id ∧
      db'.library.albums = deleteWhere (fun a => a.dirID ∈ db.storage.dirsOf id) db.library.albums := by
  unfold deleteLocation at h
  simp only at h
  split at h
  · cases h
  · split at h
    · cases h
    · cases h
      exact ⟨rfl, rfl⟩

end Database

end Byom.Sqlite
