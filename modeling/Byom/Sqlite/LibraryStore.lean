import Byom.Relational.Election
import Byom.Sqlite.Tables

/-!
# The catalog writes of `LibraryStore` and `ImageIndex`

Each function is a statement of a transaction, or a whole one. IDs that
`uuid.NewV7` mints come with the payload.
-/

namespace Byom.Metadata

structure ImportAlbum where
  album : Library.Album
  tracks : List Library.Track
  deriving DecidableEq, Repr

end Byom.Metadata

namespace Byom.Sqlite

open Storage Relational Library Metadata

/-- `MIN` of a column of IDs. -/
instance : Min UUID := .leftLeaningOfLE UUID

/-- The albums of a group key are versions of one release, and one is the primary. -/
def AlbumRow.versions : Election AlbumRow String UUID where
  group := groupKey
  pk := id
  elected := primaryVersion
  elect a := { a with primaryVersion := true }
  group_elect _ := rfl
  pk_elect _ := rfl
  elected_elect _ := rfl

namespace Database

/-- `LibraryStore.ArtistsByAlias`. -/
def artistsByAlias (normName : String) (db : Database) : List Artist :=
  let matching := db.library.artistAliases.filter fun a => a.normName = normName
  (matching.filterMap fun a => lookup Artist.id a.artistID db.library.artists).insertionSort
    fun a b => a.id ≤ b.id

def insertAliases (artistID : UUID) : List String → Database → Except SqlError Database
  | [], db => .ok db
  | name :: names, db => do
    let db ← db.write fun l => { l with artistAliases := l.artistAliases ++ [⟨name, artistID⟩] }
    insertAliases artistID names db

/-- `LibraryStore.InsertArtist`. -/
def insertArtist (artist : Artist) (aliases : List String) (db : Database) :
    Except SqlError Database := do
  let db ← db.write fun l => { l with artists := l.artists ++ [artist] }
  insertAliases artist.id aliases db

/-- What `ImageIndex.Upsert` updates. -/
def refreshImage (img r : Image) : Image :=
  { r with mimeType := img.mimeType, width := img.width, height := img.height }

/-- `ImageIndex.Upsert`. -/
def upsertImage (img : Image) (db : Database) : Except SqlError (Database × UUID) := do
  let db' ← db.write fun l =>
    { l with images := upsertOn Image.contentHash (refreshImage img) img l.images }
  return (db', (upserted Image.contentHash (refreshImage img) img db.library.images).id)

/-- The `SELECT EXISTS` of `upsertAlbum`. -/
def hasPrimary (groupKey : String) (db : Database) : Bool :=
  db.library.albums.any fun a => a.groupKey = groupKey && a.primaryVersion

/-- `COALESCE` of the sort name of the first credited artist. -/
def artistSort (artists : List AlbumArtist) (db : Database) : String :=
  ((artists.head?.bind fun a => lookup Artist.id a.artistID db.library.artists).map
    Artist.sortName).getD ""

/-- The row `upsertAlbum` inserts where the dir has no album with the group key. -/
def newAlbum (al : Album) (db : Database) : AlbumRow :=
  ⟨al.id, al.dirID, al.details, al.groupKey, !db.hasPrimary al.groupKey, db.artistSort al.artists⟩

/-- What it updates where there is one. -/
def refreshAlbum (al : Album) (db : Database) (r : AlbumRow) : AlbumRow :=
  { r with details := al.details, artistSort := db.artistSort al.artists }

def upsertAlbum (al : Album) (db : Database) : Except SqlError (Database × UUID) := do
  let fresh := newAlbum al db
  let merge := refreshAlbum al db
  let db' ← db.write fun l => { l with albums := upsertOn AlbumRow.key merge fresh l.albums }
  return (db', (upserted AlbumRow.key merge fresh db.library.albums).id)

/-- The row `upsertTrack` inserts. -/
def newTrack (t : Track) : TrackRow := ⟨t.id, t.albumID, t.details, t.fileID, t.startOffset⟩

def refreshTrack (t : Track) (r : TrackRow) : TrackRow :=
  { r with albumID := t.albumID, details := t.details }

def upsertTrack (t : Track) (db : Database) : Except SqlError (Database × UUID) := do
  let db' ← db.write fun l =>
    { l with tracks := upsertOn TrackRow.key (refreshTrack t) (newTrack t) l.tracks }
  return (db', (upserted TrackRow.key (refreshTrack t) (newTrack t) db.library.tracks).id)

/-- A conflict with `PRIMARY KEY (album_id, position)` or `UNIQUE (album_id, artist_id)`. -/
def albumArtistConflict (a b : AlbumArtistRow) : Bool := a.slot = b.slot || a.key = b.key

def insertAlbumArtists (albumID : UUID) :
    List (AlbumArtist × Nat) → Database → Except SqlError Database
  | [], db => .ok db
  | (aa, i) :: rest, db => do
    let db ← db.write fun l =>
      { l with
        albumArtists := insertOrIgnore albumArtistConflict
          ⟨albumID, aa.artistID, aa.creditedName, i⟩ l.albumArtists }
    insertAlbumArtists albumID rest db

def replaceAlbumArtists (albumID : UUID) (artists : List AlbumArtist) (db : Database) :
    Except SqlError Database := do
  let db ← db.write fun l =>
    { l with albumArtists := deleteWhere (fun a => a.albumID = albumID) l.albumArtists }
  insertAlbumArtists albumID artists.zipIdx db

/-- The `SELECT EXISTS` of `replaceAlbumImages`. -/
def hasCover (albumID : UUID) (db : Database) : Bool :=
  db.library.albumImages.any fun i => i.albumID = albumID && i.setCover

/-- The row inserted for a link. Its default counts where there is no cover yet. -/
def newAlbumImage (albumID : UUID) (hasCover : Bool) (img : AlbumImage) : AlbumImageRow :=
  ⟨albumID, img.imageID, img.kind, img.setCover && !hasCover⟩

def refreshAlbumImage (img : AlbumImage) (r : AlbumImageRow) : AlbumImageRow :=
  { r with kind := img.kind }

def upsertAlbumImages (albumID : UUID) (hasCover : Bool) :
    List AlbumImage → Database → Except SqlError Database
  | [], db => .ok db
  | img :: rest, db => do
    let db ← db.write fun l =>
      { l with
        albumImages := upsertOn AlbumImageRow.key (refreshAlbumImage img)
          (newAlbumImage albumID hasCover img) l.albumImages }
    upsertAlbumImages albumID hasCover rest db

def replaceAlbumImages (albumID : UUID) (images : List AlbumImage) (db : Database) :
    Except SqlError Database := do
  let keep := images.map AlbumImage.imageID
  let db ← db.write fun l =>
    { l with
      albumImages := deleteWhere (stale AlbumImageRow.imageID AlbumImageRow.albumID albumID keep)
        l.albumImages }
  upsertAlbumImages albumID (db.hasCover albumID) images db

def insertTrackCredits (trackID : UUID) :
    List TrackCredit → Database → Except SqlError Database
  | [], db => .ok db
  | c :: rest, db => do
    let db ← db.write fun l =>
      { l with
        trackCredits := insertOrIgnore (fun a b => a.key = b.key)
          ⟨trackID, c.artistID, c.creditedName, c.role⟩ l.trackCredits }
    insertTrackCredits trackID rest db

def replaceTrackCredits (trackID : UUID) (credits : List TrackCredit) (db : Database) :
    Except SqlError Database := do
  let db ← db.write fun l =>
    { l with trackCredits := deleteWhere (fun c => c.trackID = trackID) l.trackCredits }
  insertTrackCredits trackID credits db

/-- The loop over the tracks of one album, with the IDs it keeps. -/
def importTracks (albumID : UUID) :
    List Track → Database → Except SqlError (Database × List UUID)
  | [], db => .ok (db, [])
  | t :: rest, db => do
    let (db, trackID) ← upsertTrack { t with albumID } db
    let db ← replaceTrackCredits trackID t.credits db
    let (db, kept) ← importTracks albumID rest db
    return (db, trackID :: kept)

/-- The body of the loop over the albums. -/
def importAlbum (al : ImportAlbum) (db : Database) : Except SqlError (Database × UUID) := do
  let (db, albumID) ← upsertAlbum al.album db
  let db ← replaceAlbumArtists albumID al.album.artists db
  let db ← replaceAlbumImages albumID al.album.images db
  let (db, keptTracks) ← importTracks albumID al.tracks db
  return (db.deleteTracks (stale TrackRow.id TrackRow.albumID albumID keptTracks), albumID)

def importAlbums : List ImportAlbum → Database → Except SqlError (Database × List UUID)
  | [], db => .ok (db, [])
  | al :: rest, db => do
    let (db, albumID) ← importAlbum al db
    let (db, kept) ← importAlbums rest db
    return (db, albumID :: kept)

def dirPrimaryGroups (dirID : UUID) (db : Database) : List String :=
  (db.library.albums.filter fun a => a.dirID = dirID && a.primaryVersion).map AlbumRow.groupKey

def promoteOrphanedPrimaries : List String → Database → Except SqlError Database
  | [], db => .ok db
  | key :: keys, db => do
    let db ← db.write fun l => { l with albums := AlbumRow.versions.promote key l.albums }
    promoteOrphanedPrimaries keys db

/-- `LibraryStore.ReplaceDirAlbums`. -/
def replaceDirAlbums (dirID : UUID) (albums : List ImportAlbum) (db : Database) :
    Except SqlError Database := do
  let (db, keptAlbums) ← importAlbums albums db
  let groupKeys := db.dirPrimaryGroups dirID
  promoteOrphanedPrimaries groupKeys
    (db.deleteAlbums (stale AlbumRow.id AlbumRow.dirID dirID keptAlbums))

end Database

end Byom.Sqlite
