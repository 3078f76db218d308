import Mathlib.Tactic.SplitIfs
import Byom.Relational.SortedSet
import Byom.Rpc.ListTracks
import Byom.Sqlite.AlbumVersions

/-!
# The library service

Each handler reads its request, calls the store and writes a message. Enumerations come as
numbers, and a number that is no constant of its enumeration is refused.
-/

namespace Byom.Rpc

open Storage Library Sqlite Relational

/-- `connect.Code`, those of the service. -/
inductive ServiceCode where
  | invalidArgument
  | notFound
  | internal
  deriving DecidableEq, Repr

inductive ServiceCause where
  | request (cause : Cause)
  | unknownAlbumType (field : String) (pb : Int32)
  | unknownBootlegFilter (field : String) (pb : Int32)
  | unknownAlbumOrder (field : String) (pb : Int32)
  | notFound (resource : String) (id : UUID)
  deriving DecidableEq, Repr

/-- `connect.Error`. -/
structure ServiceError where
  code : ServiceCode
  cause : ServiceCause
  deriving DecidableEq, Repr

def Code.service : Code → ServiceCode
  | .invalidArgument => .invalidArgument
  | .internal => .internal

/-- An error of an ID or of a listing. -/
def Error.service (err : Error) : ServiceError := ⟨err.code.service, .request err.cause⟩

/-- `rpcError`, of `library.ErrNotFound`. -/
def errNotFound (resource : String) (id : UUID) : ServiceError :=
  ⟨.notFound, .notFound resource id⟩

/-! ### Messages -/

structure ArtistProto where
  id : String
  name : String
  deriving DecidableEq, Repr

structure AlbumArtistProto where
  artistID : String
  creditedName : String
  deriving DecidableEq, Repr

structure AlbumProto where
  id : String
  title : String
  albumType : Int32
  releaseDate : String
  originalReleaseDate : String
  releaseCountry : String
  bootleg : Bool
  compilation : Bool
  live : Bool
  groupKey : String
  version : String
  primaryVersion : Bool
  artists : List AlbumArtistProto
  coverHash : String
  deriving DecidableEq, Repr

def artistProto (a : Artist) : ArtistProto := ⟨a.id.string, a.name⟩

/-- `albumTypes`. -/
def albumTypes : AlbumType → Int32
  | .unknown => 0
  | .main => 1
  | .single => 2
  | .ep => 3
  | .other => 4

def albumProto (al : Album) : AlbumProto where
  id := al.id.string
  title := al.details.title
  albumType := albumTypes al.details.type
  releaseDate := al.details.releaseDate
  originalReleaseDate := al.details.originalReleaseDate
  releaseCountry := al.details.releaseCountry
  bootleg := al.details.bootleg
  compilation := al.details.compilation
  live := al.details.live
  groupKey := al.groupKey
  version := al.details.version
  primaryVersion := al.primaryVersion
  artists := al.artists.map fun aa => ⟨aa.artistID.string, aa.creditedName⟩
  coverHash := al.coverHash

/-! ### Enumerations -/

def albumTypesByProto (pb : Int32) : Option AlbumType :=
  [AlbumType.unknown, .main, .single, .ep, .other].find? fun type => albumTypes type = pb

def readAlbumType (field : String) (pb : Int32) : Except ServiceError AlbumType :=
  match albumTypesByProto pb with
  | some type => .ok type
  | none => .error ⟨.invalidArgument, .unknownAlbumType field pb⟩

def albumTypeFilter (field : String) (pbTypes : List Int32) :
    Except ServiceError (List AlbumType) := do
  let types ← pbTypes.mapM (readAlbumType field)
  .ok (sortCompact AlbumType.text types)

def bootlegFilter (field : String) (pb : Int32) : Except ServiceError BootlegFilter :=
  if pb = 0 then .ok .bootlegsInclude
  else if pb = 1 then .ok .bootlegsExclude
  else if pb = 2 then .ok .bootlegsOnly
  else .error ⟨.invalidArgument, .unknownBootlegFilter field pb⟩

def albumOrder (field : String) (pb : Int32) : Except ServiceError AlbumOrder :=
  if pb = 0 ∨ pb = 1 then .ok .title
  else if pb = 2 then .ok .artist
  else if pb = 3 then .ok .releaseDate
  else if pb = 4 then .ok .originalDate
  else if pb = 5 then .ok .recentlyAdded
  else .error ⟨.invalidArgument, .unknownAlbumOrder field pb⟩

end Byom.Rpc

/-! ### Single items -/

namespace Byom.Sqlite.Database

open Storage Relational Library

/-- `LibraryStore.Artist`, with none for `library.ErrNotFound`. -/
def artist (id : UUID) (db : Database) : Option Artist :=
  (db.library.artists.filter fun a => a.id = id).head?

/-- `LibraryStore.Album`: the first row of its query. -/
def album (id : UUID) (db : Database) : Option Album :=
  ((db.library.albums.filter fun a => a.id = id).flatMap fun a =>
    (leftMatches (fun c => c.albumID = a.id && c.setCover) db.library.albumImages).flatMap fun cov =>
      (leftMatches (fun img => cov.any fun c => c.imageID = img.id) db.library.images).map
        fun img => scanAlbum db a img).head?

/-- `LibraryStore.Track`. -/
def track (id : UUID) (db : Database) : Option Track :=
  ((db.library.tracks.filter fun t => t.id = id).map (scanTrack db)).head?

end Byom.Sqlite.Database

/-! ### Handlers -/

namespace Byom.Rpc

open Storage Library Sqlite Relational

structure ListArtistsRequest where
  pageSize : Int32 := 0
  pageToken : Page.Token := .empty

structure ListArtistsResponse where
  items : List ArtistProto
  nextPageToken : Page.Token

def listArtists (db : Database) (req : ListArtistsRequest) :
    Except ServiceError ListArtistsResponse := do
  let (artists, next) ←
    (db.artists req.pageToken req.pageSize.toInt).mapError fun err => (rpcError err).service
  .ok ⟨artists.map artistProto, next⟩

def getArtist (db : Database) (id : String) : Except ServiceError ArtistProto := do
  let id ← (parseID "id" id).mapError Error.service
  match db.artist id with
  | some artist => .ok (artistProto artist)
  | none => .error (errNotFound "artist" id)

structure ListAlbumsRequest where
  pageSize : Int32 := 0
  pageToken : Page.Token := .empty
  artistID : String := ""
  includeAllVersions : Bool := false
  albumTypes : List Int32 := []
  bootlegs : Int32 := 0
  order : Int32 := 0
  descending : Bool := false

structure ListAlbumsResponse where
  items : List AlbumProto
  nextPageToken : Page.Token

/-- What `ListAlbums` reads from a request, other than the page. -/
def albumQueryOf (req : ListAlbumsRequest) : Except ServiceError SortedQuery := do
  let artistID ← (parseOptionalID "artist_id" req.artistID).mapError Error.service
  let types ← albumTypeFilter "album_types" req.albumTypes
  let bootlegs ← bootlegFilter "bootlegs" req.bootlegs
  let order ← albumOrder "order" req.order
  .ok {
    artistID, types, bootlegs, order
    includeAllVersions := req.includeAllVersions
    descending := req.descending }

def listAlbums (db : Database) (req : ListAlbumsRequest) :
    Except ServiceError ListAlbumsResponse := do
  let query ← albumQueryOf req
  let (albums, next) ← (db.albums query req.pageToken req.pageSize.toInt).mapError
    fun err => (rpcError err).service
  .ok ⟨albums.map albumProto, next⟩

def getAlbum (db : Database) (id : String) : Except ServiceError AlbumProto := do
  let id ← (parseID "id" id).mapError Error.service
  match db.album id with
  | some album => .ok (albumProto album)
  | none => .error (errNotFound "album" id)

def listAlbumVersions (db : Database) (albumID : String) :
    Except ServiceError (List AlbumProto) := do
  let id ← (parseID "album_id" albumID).mapError Error.service
  match db.albumVersions id with
  | some albums => .ok (albums.map albumProto)
  | none => .error (errNotFound "album" id)

def getTrack (db : Database) (id : String) : Except ServiceError TrackProto := do
  let id ← (parseID "id" id).mapError Error.service
  match db.track id with
  | some track => .ok (trackProto track)
  | none => .error (errNotFound "track" id)

section Handlers

variable {db : Database}

theorem listArtists_ok {req : ListArtistsRequest} {res : ListArtistsResponse}
    (h : listArtists db req = .ok res) : ∃ artists,
      db.artists req.pageToken req.pageSize.toInt = .ok (artists, res.nextPageToken) ∧
        res.items = artists.map artistProto := by
  unfold listArtists at h
  cases read : db.artists req.pageToken req.pageSize.toInt with
  | error err => simp [read, Except.mapError, bind, Except.bind] at h
  | ok got =>
    obtain ⟨artists, next⟩ := got
    obtain rfl : (⟨artists.map artistProto, next⟩ : ListArtistsResponse) = res := by
      simpa [read, Except.mapError, bind, Except.bind] using h
    exact ⟨artists, rfl, rfl⟩

theorem listAlbums_ok_iff {req : ListAlbumsRequest} {res : ListAlbumsResponse} :
    listAlbums db req = .ok res ↔ ∃ query albums, albumQueryOf req = .ok query ∧
      db.albums query req.pageToken req.pageSize.toInt = .ok (albums, res.nextPageToken) ∧
        res.items = albums.map albumProto := by
  unfold listAlbums
  cases albumQueryOf req with
  | error err => simp [bind, Except.bind]
  | ok query =>
    cases read : db.albums query req.pageToken req.pageSize.toInt with
    | error err => simp [read, Except.mapError, bind, Except.bind]
    | ok got =>
      obtain ⟨albums, next⟩ := got
      obtain ⟨items, token⟩ := res
      simp [read, Except.mapError, bind, Except.bind, and_comm, eq_comm]

/-- What is read from a request. -/
theorem albumQueryOf_ok_iff {req : ListAlbumsRequest} {query : SortedQuery} :
    albumQueryOf req = .ok query ↔ parseOptionalID "artist_id" req.artistID = .ok query.artistID ∧
      albumTypeFilter "album_types" req.albumTypes = .ok query.types ∧
        bootlegFilter "bootlegs" req.bootlegs = .ok query.bootlegs ∧
          albumOrder "order" req.order = .ok query.order ∧
            query.includeAllVersions = req.includeAllVersions ∧
              query.descending = req.descending := by
  obtain ⟨⟨artistID, versions, types, bootlegs⟩, order, descending⟩ := query
  unfold albumQueryOf
  cases parseOptionalID "artist_id" req.artistID with
  | error err => simp [Except.mapError, bind, Except.bind]
  | ok id =>
    cases albumTypeFilter "album_types" req.albumTypes with
    | error err => simp [Except.mapError, bind, Except.bind]
    | ok read =>
      cases bootlegFilter "bootlegs" req.bootlegs with
      | error err => simp [Except.mapError, bind, Except.bind]
      | ok filter =>
        cases albumOrder "order" req.order with
        | error err => simp [Except.mapError, bind, Except.bind]
        | ok sort =>
          simp [Except.mapError, bind, Except.bind]
          grind

theorem albumOrder_recognized {field : String} {pb : Int32} {order : AlbumOrder}
    (read : albumOrder field pb = .ok order) : ∃ exprs, albumSort order = .ok exprs := by
  unfold albumOrder at read
  split_ifs at read <;> cases read <;> exact ⟨_, rfl⟩

end Handlers

/-! ### Requests for the same albums -/

theorem albumTypesByProto_albumTypes (type : AlbumType) :
    albumTypesByProto (albumTypes type) = some type := by
  cases type <;> decide

theorem AlbumType.text_injective : Function.Injective AlbumType.text := by
  intro a b same
  have read := AlbumType.ofText_text a
  rw [same, AlbumType.ofText_text] at read
  exact (Option.some.inj read).symm

variable {field : String} {pbs : List Int32} {types : List AlbumType}

theorem readAlbumType_ok {pb : Int32} {type : AlbumType}
    (read : readAlbumType field pb = .ok type) : pb = albumTypes type := by
  unfold readAlbumType at read
  split at read
  · rename_i known
    cases read
    have found := List.find?_some known
    exact (of_decide_eq_true found).symm
  · cases read

theorem mapM_readAlbumType (h : pbs.mapM (readAlbumType field) = .ok types) :
    pbs = types.map albumTypes := by
  induction pbs generalizing types with
  | nil =>
    cases h
    rfl
  | cons pb rest ih =>
    rw [List.mapM_cons] at h
    cases first : readAlbumType field pb with
    | error err => simp [first, bind, Except.bind] at h
    | ok type =>
      cases later : rest.mapM (readAlbumType field) with
      | error err => simp [first, later, bind, Except.bind] at h
      | ok more =>
        obtain rfl : type :: more = types := by
          simpa [first, later, bind, Except.bind, pure, Except.pure] using h
        rw [List.map_cons, readAlbumType_ok first, ← ih later]

end Byom.Rpc
