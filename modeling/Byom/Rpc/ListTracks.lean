import Byom.Rpc.Convert
import Byom.Sqlite.History
import Byom.Sqlite.Listings

/-!
# The tracks on the page of an album

The client asks for the tracks of an album once, for 500 of them. `Tracks` cuts the page
at `maxSize`.
-/

namespace Byom.Rpc

open Storage Library Sqlite

/-- `connect.Code`, those that a listing can fail with. -/
inductive Code where
  | invalidArgument
  | internal
  deriving DecidableEq, Repr

inductive Cause where
  | malformedID (field : String)
  | listing (err : Page.Error)
  deriving DecidableEq, Repr

/-- `connect.Error`. -/
structure Error where
  code : Code
  cause : Cause
  deriving DecidableEq, Repr

/-- `rpcError`, of the errors of a listing. -/
def rpcError : Page.Error → Error
  | .invalidToken => ⟨.invalidArgument, .listing .invalidToken⟩
  | err => ⟨.internal, .listing err⟩

def parseID (field s : String) : Except Error UUID :=
  match UUID.parse s with
  | some id => .ok id
  | none => .error ⟨.invalidArgument, .malformedID field⟩

def parseOptionalID (field s : String) : Except Error UUID :=
  if s = "" then .ok .nil else parseID field s

structure ListTracksRequest where
  pageSize : Int32 := 0
  pageToken : Page.Token := .empty
  albumID : String := ""

structure ListTracksResponse where
  items : List TrackProto
  nextPageToken : Page.Token

/-- `LibraryServer.ListTracks`. -/
def listTracks (db : Database) (req : ListTracksRequest) : Except Error ListTracksResponse := do
  let albumID ← parseOptionalID "album_id" req.albumID
  let (tracks, next) ← (db.tracks albumID req.pageToken req.pageSize.toInt).mapError rpcError
  .ok ⟨tracks.map trackProto, next⟩

end Byom.Rpc

namespace Byom.Ui

open Rpc

/-- `listTracks`, in `rpc/library.ts`. -/
def listTracks (server : ListTracksRequest → Except Error ListTracksResponse) (albumId : String) :
    Except Error ListTracksResponse :=
  server { albumID := albumId, pageSize := 500 }

end Byom.Ui

namespace Byom.Rpc

open Storage Library Sqlite

/-- Disc, track and ID. -/
def place (t : Track) : Int ×ₗ Int ×ₗ Nat :=
  toLex (t.details.discNumber, toLex (t.details.trackNumber, t.id.toNat))

def albumTracks (db : Database) (albumID : UUID) : List Track :=
  (db.library.tracks.filter fun t => t.albumID = albumID).map db.scanTrack

/-- The items are the tracks of the album, all of them, in disc, track and ID order. -/
def ShowsAlbum (db : Database) (albumID : UUID) (items : List TrackProto) : Prop :=
  ∃ tracks : List Track, tracks.Perm (albumTracks db albumID) ∧
    (tracks.Pairwise fun a b => place a < place b) ∧ items = tracks.map trackProto

theorem albumTracks_length (db : Database) (albumID : UUID) : (albumTracks db albumID).length =
    (db.library.tracks.filter fun t => t.albumID = albumID).length :=
  List.length_map _

theorem parseOptionalID_string (field : String) (id : UUID) :
    parseOptionalID field id.string = .ok id := by
  have some_ : id.string ≠ "" := by
    intro empty
    have read := UUID.parse_string id
    rw [empty] at read
    cases read
  rw [parseOptionalID, if_neg some_, parseID, UUID.parse_string]

variable {db : Database} {albumID : UUID}

/-- The first page of an album's tracks. -/
theorem tracks_empty (db : Database) (minted : albumID ≠ .nil) (limit : Int) : ∃ next,
    db.tracks albumID .empty limit =
      .ok ((Paging.ordered (· < ·) place (albumTracks db albumID)).take (Page.size limit), next) := by
  obtain ⟨next, read, _⟩ := Page.read_eq_page (· < ·) place none
    (fun t => Page.encode TrackCursor.json
      ⟨albumID, t.details.discNumber, t.details.trackNumber, t.id⟩) limit (albumTracks db albumID)
  rw [Paging.page_rows, Paging.rowsAfter_none] at read
  have selected : (db.library.tracks.filter fun t => albumID = .nil || t.albumID = albumID) =
      db.library.tracks.filter fun t => t.albumID = albumID := by
    simp [minted]
  refine ⟨next, ?_⟩
  rw [← read]
  simp only [Database.tracks, Page.resume, selected]
  rfl

theorem place_inj {a b : Track} (same : place a = place b) : a.id = b.id :=
  BitVec.eq_of_toNat_eq (congrArg (fun k => (ofLex (ofLex k).2).2) same)

theorem albumTracks_distinct (db : Database) (albumID : UUID) :
    ((albumTracks db albumID).map place).Nodup := by
  have ids : ((albumTracks db albumID).map Track.id).Nodup := by
    rw [albumTracks, List.map_map]
    exact db.unique.trackIDs.filter _
  rw [List.nodup_map_iff_inj_on (ids.of_map _)]
  intro a ha b hb same
  exact List.inj_on_of_nodup_map ids ha hb (place_inj same)

theorem listTracks_items (db : Database) (minted : albumID ≠ .nil) : ∃ next,
    Ui.listTracks (listTracks db) albumID.string =
      .ok ⟨((Paging.ordered (· < ·) place (albumTracks db albumID)).take Page.maxSize).map
        trackProto, next⟩ := by
  obtain ⟨next, read⟩ := tracks_empty db minted 500
  refine ⟨next, ?_⟩
  have asked : Int32.toInt 500 = 500 := by decide
  have cut : Page.size 500 = Page.maxSize := by decide
  rw [cut] at read
  simp [Ui.listTracks, listTracks, parseOptionalID_string, asked, read, Except.mapError, bind,
    Except.bind]

/-- There are no more items than a page has. -/
theorem fits_of_showsAlbum (minted : albumID ≠ .nil)
    (shows_ : ∃ res, Ui.listTracks (listTracks db) albumID.string = .ok res ∧
      ShowsAlbum db albumID res.items) :
    (db.library.tracks.filter fun t => t.albumID = albumID).length ≤ Page.maxSize := by
  obtain ⟨res, same, tracks, perm, _, items⟩ := shows_
  obtain ⟨next, answer⟩ := listTracks_items db minted
  obtain rfl := Except.ok.inj (same.symm.trans answer)
  have shown : (((Paging.ordered (· < ·) place (albumTracks db albumID)).take Page.maxSize).map
      trackProto).length = (tracks.map trackProto).length := congrArg List.length items
  rw [List.length_map, List.length_map, perm.length_eq, albumTracks_length] at shown
  rw [← shown]
  exact List.length_take_le _ _

/-- The page shows all of an album exactly if the album has no more tracks than a page. -/
theorem listTracks_showsAlbum_iff (db : Database) {albumID : UUID} (minted : albumID ≠ .nil) :
    (∃ res, Ui.listTracks (listTracks db) albumID.string = .ok res ∧
        ShowsAlbum db albumID res.items) ↔
      (db.library.tracks.filter fun t => t.albumID = albumID).length ≤ Page.maxSize := by
  constructor
  · exact fits_of_showsAlbum minted
  · intro fits
    obtain ⟨next, answer⟩ := listTracks_items db minted
    have sorted : (Paging.ordered (· < ·) place (albumTracks db albumID)).Perm
        (albumTracks db albumID) := Paging.ordered_perm _
    have all : (Paging.ordered (· < ·) place (albumTracks db albumID)).length ≤ Page.maxSize := by
      rw [sorted.length_eq, albumTracks_length]
      exact fits
    refine ⟨_, answer, _, sorted, Paging.ordered_pairwise (albumTracks_distinct db albumID), ?_⟩
    rw [List.take_of_length_le all]

/-! ### One file with many tracks -/

def cueTrack (i : Nat) : TrackRow :=
  ⟨.ofNat 128 (i + 1), 30, { (Database.wholeFile 40 20).details with trackNumber := i + 1 }, 20, i⟩

def cueTracks : List TrackRow := (List.range 201).map cueTrack

theorem cueTracks_ids : Relational.UniqueOn TrackRow.id cueTracks := by
  unfold Relational.UniqueOn cueTracks
  rw [List.map_map]
  refine List.Nodup.map_on ?_ List.nodup_range
  intro i hi j hj same
  have number := congrArg BitVec.toNat same
  simp only [Function.comp_apply, cueTrack, BitVec.toNat_ofNat, List.mem_range] at number hi hj
  omega

theorem cueTracks_keys : Relational.UniqueOn TrackRow.key cueTracks := by
  unfold Relational.UniqueOn cueTracks
  rw [List.map_map]
  refine List.Nodup.map_on ?_ List.nodup_range
  intro i _ j _ same
  exact Int.ofNat.inj (congrArg Prod.snd same)

/-- An album in dir 10, before it has tracks. -/
def emptyAlbum : List Write :=
  Database.firstScans ++ [.replaceDirAlbums 10 [Database.albumIn 30 10 "release" []]]

theorem emptyAlbum_enabled : (Transition.run Database.step .empty emptyAlbum).isSome := by decide

def noTracks : Database := Database.afterWrites emptyAlbum emptyAlbum_enabled

def cueLibrary : LibraryTables := { noTracks.library with tracks := cueTracks }

theorem cueLibrary_unique : cueLibrary.Unique :=
  { noTracks.unique with trackIDs := cueTracks_ids, trackKeys := cueTracks_keys }

theorem cueLibrary_referenced : cueLibrary.Referenced (noTracks.storage.dirs.map DirRow.id)
    (noTracks.storage.files.map FileRow.id) := by
  have album : (30 : UUID) ∈ noTracks.library.albums.map AlbumRow.id := by decide
  have file : (20 : UUID) ∈ noTracks.storage.files.map FileRow.id := by decide
  have credits : noTracks.library.trackCredits = [] := by decide
  refine { noTracks.referenced with trackAlbums := ?_, trackFiles := ?_, trackCreditTracks := ?_ }
  · intro t ht
    obtain ⟨i, _, rfl⟩ := List.mem_map.mp ht
    exact album
  · intro t ht
    obtain ⟨i, _, rfl⟩ := List.mem_map.mp ht
    exact file
  · intro c hc
    have here : c ∈ noTracks.library.trackCredits := hc
    rw [credits] at here
    cases here

def cueSheet : Database :=
  { noTracks with
    library := cueLibrary
    unique := cueLibrary_unique
    referenced := cueLibrary_referenced }

theorem cueSheet_count :
    (cueSheet.library.tracks.filter fun t => t.albumID = 30).length = 201 := by
  have all : cueTracks.filter (fun t => t.albumID = 30) = cueTracks := by
    apply List.filter_eq_self.mpr
    intro t ht
    obtain ⟨i, _, rfl⟩ := List.mem_map.mp ht
    rfl
  change (cueTracks.filter _).length = 201
  rw [all, cueTracks, List.length_map, List.length_range]

/-- Of 201 tracks one is not on the page. -/
theorem cueSheet_cut : ¬∃ res, Ui.listTracks (listTracks cueSheet) (30 : UUID).string = .ok res ∧
    ShowsAlbum cueSheet 30 res.items := by
  intro shows_
  have fits := fits_of_showsAlbum (by decide) shows_
  rw [cueSheet_count] at fits
  exact absurd fits (by decide)

/-! ### An album on two discs -/

/-- The only track of the second disc, which has a name. -/
def secondDisc : Track :=
  let song := Database.wholeFile 40 20
  { song with details := { song.details with discNumber := 2, discSubtitle := "Live" } }

def secondSong : Track :=
  let song := Database.wholeFile 41 21
  { song with details := { song.details with trackNumber := 2 } }

/-- It comes after the second song in its file. -/
def firstSong : Track := { Database.wholeFile 42 21 with startOffset := 180000000000 }

/-- The tracks are stored in the reverse of their order. -/
def twoDiscs : List Write :=
  Database.firstScans ++
    [.replaceDirAlbums 10 [Database.albumIn 30 10 "release" [secondDisc, secondSong, firstSong]]]

theorem twoDiscs_enabled : (Transition.run Database.step .empty twoDiscs).isSome := by decide

theorem twoDiscs_listed :
    (albumTracks (Database.afterWrites twoDiscs twoDiscs_enabled) 30).map
        (fun t => (t.details.discNumber, t.details.trackNumber, t.id)) =
          [(2, 1, 40), (1, 2, 41), (1, 1, 42)] ∧
      ∃ res, Ui.listTracks (listTracks (Database.afterWrites twoDiscs twoDiscs_enabled))
          (30 : UUID).string = .ok res ∧
        ShowsAlbum (Database.afterWrites twoDiscs twoDiscs_enabled) 30 res.items :=
  ⟨by decide, (listTracks_showsAlbum_iff (Database.afterWrites twoDiscs twoDiscs_enabled)
    (show (30 : UUID) ≠ .nil by decide)).mpr (by decide)⟩

end Byom.Rpc
