import Byom.Sqlite.AlbumPages
import Byom.Sqlite.Locations

/-!
# The other listings

`Artists`, `Tracks`, `Scans` and `Locations`, each with the cursor it resumes after.
-/

namespace Byom.Scan

open Storage

/-- `scan.Scan`. -/
structure ScanRecord where
  id : UUID
  locationID : UUID
  state : State
  startTime : Int
  finishTime : Option Int
  error : String
  progress : Progress
  deriving DecidableEq, Repr

end Byom.Scan

namespace Byom.Sqlite

open Storage Library Page

def scanScan (r : ScanRow) : Scan.ScanRecord :=
  ⟨r.id, r.locationID, r.state, r.startTime, r.finishTime, r.error.getD "", r.progress⟩

namespace Database

/-- `LocationStore.Locations`. -/
def locations (token : Token) (limit : Int) (db : Database) :
    Except Page.Error (List Location × Token) := do
  let cursor ← Page.resume LocationCursor.fields {} (fun _ => true) token
  let key (id : UUID) : Nat := id.toNat
  .ok (Page.read (· < ·) (fun loc => key loc.id) (cursor.map fun cur => key cur.id)
    (fun loc => Page.encode LocationCursor.json ⟨loc.id⟩) limit
    (db.storage.locations.map scanLocation))

/-- `LibraryStore.Artists`. -/
def artists (token : Token) (limit : Int) (db : Database) :
    Except Page.Error (List Artist × Token) := do
  let cursor ← Page.resume ArtistCursor.fields {} (fun _ => true) token
  let key (sortName : String) (id : UUID) : String ×ₗ Nat := toLex (sortName, id.toNat)
  .ok (Page.read (· < ·) (fun a => key a.sortName a.id) (cursor.map fun cur => key cur.sortName cur.id)
    (fun a => Page.encode ArtistCursor.json ⟨a.sortName, a.id⟩) limit db.library.artists)

/-- `trackCredits`, for one track: `ORDER BY role, artist_id`. -/
def trackCredits (trackID : UUID) (db : Database) : List TrackCredit :=
  let key (c : TrackCreditRow) : String ×ₗ Nat := toLex (c.role, c.artistID.toNat)
  (Paging.ordered (· < ·) key (db.library.trackCredits.filter fun c => c.trackID = trackID)).map
    fun c => ⟨c.artistID, c.creditedName, c.role⟩

/-- `scanTrack`, and the credits that are read after it. -/
def scanTrack (db : Database) (t : TrackRow) : Track :=
  ⟨t.id, t.albumID, t.details, db.trackCredits t.id, t.fileID, t.startOffset⟩

/-- `LibraryStore.Tracks`. -/
def tracks (albumID : UUID) (token : Token) (limit : Int) (db : Database) :
    Except Page.Error (List Track × Token) := do
  let cursor ← Page.resume TrackCursor.fields {} (fun cur => cur.albumID = albumID) token
  let key (disc track : Int) (id : UUID) : Int ×ₗ Int ×ₗ Nat := toLex (disc, toLex (track, id.toNat))
  let selected := db.library.tracks.filter fun t => albumID = .nil || t.albumID = albumID
  .ok (Page.read (· < ·) (fun t => key t.details.discNumber t.details.trackNumber t.id)
    (cursor.map fun cur => key cur.discNumber cur.trackNumber cur.id)
    (fun t => Page.encode TrackCursor.json
      ⟨albumID, t.details.discNumber, t.details.trackNumber, t.id⟩) limit
    (selected.map (scanTrack db)))

/-- `ScanStore.Scans`: `ORDER BY start_time DESC, id ASC`. -/
def scans (locationID : UUID) (state : Option Scan.State) (token : Token) (limit : Int)
    (db : Database) : Except Page.Error (List Scan.ScanRecord × Token) := do
  let cursor ← Page.resume ScanCursor.fields {}
    (fun cur => cur.locationID = locationID ∧ cur.state = state) token
  let key (start : Int) (id : UUID) : Intᵒᵈ ×ₗ Nat := toLex (OrderDual.toDual start, id.toNat)
  let selected := db.storage.scans.filter fun r =>
    (locationID = .nil || r.locationID = locationID) && state.all (r.state = ·)
  .ok (Page.read (· < ·) (fun sc => key sc.startTime sc.id)
    (cursor.map fun cur => key cur.startTime cur.id)
    (fun sc => Page.encode ScanCursor.json ⟨locationID, state, sc.startTime, sc.id⟩) limit
    (selected.map scanScan))

end Database

end Byom.Sqlite
