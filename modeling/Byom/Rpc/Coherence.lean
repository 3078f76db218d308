import Byom.Relational.Selection
import Byom.Rpc.LibraryServer
import Byom.Sqlite.PagedListings

/-!
# What the calls say of one item

Every item of a listing is what its own call answers with, and each version of a release names
all of them.
-/

namespace Byom.Sqlite.Database

open Storage Relational Library

variable {db : Database} {id : UUID}

/-- The joins give an album one row, with its cover. -/
theorem joined_eq (db : Database) (a : AlbumRow) :
    ((leftMatches (fun c => c.albumID = a.id && c.setCover) db.library.albumImages).flatMap
      fun cov => (leftMatches (fun img => cov.any fun c => c.imageID = img.id)
        db.library.images).map fun img => scanAlbum db a img) = [scanAlbum db a (db.cover a)] := by
  have linked : leftMatches (fun c => c.albumID = a.id && c.setCover) db.library.albumImages =
      [db.library.albumImages.find? fun c => c.albumID = a.id && c.setCover] := by
    apply db.unique.covers.leftMatches_eq
    · simp
    · intro c d hc hd
      simp only [Bool.and_eq_true, decide_eq_true_eq] at hc hd
      exact hc.1.trans hd.1.symm
  have image : ∀ cov : Option AlbumImageRow,
      leftMatches (fun img => cov.any fun c => c.imageID = img.id) db.library.images =
        [db.library.images.find? fun img => cov.any fun c => c.imageID = img.id] := by
    intro cov
    have ids : UniqueOn Image.id (db.library.images.filter fun _ => true) := by
      rw [List.filter_true]
      exact db.unique.imageIDs
    apply ids.leftMatches_eq
    · exact fun _ _ => rfl
    · intro i j hi hj
      cases cov with
      | none => cases hi
      | some c =>
        have first : c.imageID = i.id := by simpa using hi
        have second : c.imageID = j.id := by simpa using hj
        exact first.symm.trans second
  simp [linked, image, cover]

theorem album_of_row {a : AlbumRow} (stored : a ∈ db.library.albums) :
    db.album a.id = some (scanAlbum db a (db.cover a)) := by
  rw [album, db.unique.albumIDs.filter_key stored, List.flatMap_singleton, joined_eq]
  rfl

theorem row_of_album {al : Album} (found : db.album id = some al) :
    ∃ a ∈ db.library.albums, a.id = id ∧ al = scanAlbum db a (db.cover a) := by
  have member := List.mem_of_head? found
  obtain ⟨a, selected, joined⟩ := List.mem_flatMap.mp member
  obtain ⟨stored, own⟩ := List.mem_filter.mp selected
  rw [joined_eq] at joined
  exact ⟨a, stored, of_decide_eq_true own, List.mem_singleton.mp joined⟩

theorem album_of_listed {query : AlbumQuery} {al : Album} (listed : al ∈ db.albumRows query) :
    db.album al.id = some al := by
  rw [albumRows_eq] at listed
  obtain ⟨a, selected, rfl⟩ := List.mem_map.mp listed
  exact album_of_row (List.mem_filter.mp selected).1

theorem versionRows_of_row {a : AlbumRow} (stored : a ∈ db.library.albums) :
    db.versionRows a.id = (db.library.albums.filter fun b => b.groupKey = a.groupKey).map
      fun b => scanAlbum db b (db.cover b) := by
  have found : lookup AlbumRow.id a.id db.library.albums = some a :=
    db.unique.albumIDs.lookup_of_mem stored
  unfold versionRows
  simp only [found, joined_eq]
  exact List.flatMap_pure_eq_map _ _

/-- The versions of a release are those of each of them. -/
theorem albumVersions_of_row {a : AlbumRow} (stored : a ∈ db.library.albums) :
    db.albumVersions a.id = some (Paging.ordered (· < ·) versionKey
      ((db.library.albums.filter fun b => b.groupKey = a.groupKey).map
        fun b => scanAlbum db b (db.cover b))) := by
  have own : scanAlbum db a (db.cover a) ∈ Paging.ordered (· < ·) versionKey
      (db.versionRows a.id) := by
    rw [Paging.mem_ordered, versionRows_of_row stored]
    exact List.mem_map_of_mem (List.mem_filter.mpr ⟨stored, decide_eq_true rfl⟩)
  unfold albumVersions
  rw [← versionRows_of_row stored]
  exact if_neg (List.ne_nil_of_mem own)

theorem row_of_albumVersions {albums : List Album} (found : db.albumVersions id = some albums) :
    ∃ a ∈ db.library.albums, a.id = id := by
  unfold albumVersions versionRows at found
  cases row : lookup AlbumRow.id id db.library.albums with
  | none =>
    have nothing : Paging.ordered (· < ·) versionKey [] = [] := rfl
    simp [row, nothing] at found
  | some a => exact ⟨a, mem_of_lookup row, key_of_lookup row⟩

theorem artist_of_row {a : Artist} (stored : a ∈ db.library.artists) :
    db.artist a.id = some a := by
  rw [artist, db.unique.artistIDs.filter_key stored]
  rfl

theorem track_of_row {t : TrackRow} (stored : t ∈ db.library.tracks) :
    db.track t.id = some (scanTrack db t) := by
  rw [track, db.unique.trackIDs.filter_key stored]
  rfl

end Byom.Sqlite.Database

namespace Byom.Rpc

open Storage Library Sqlite

variable {db : Database}

/-- One item is told alike by every call. -/
structure Coherent (db : Database) : Prop where
  artists : ∀ req res, listArtists db req = .ok res → ∀ pb ∈ res.items, getArtist db pb.id = .ok pb
  albums : ∀ req res, listAlbums db req = .ok res → ∀ pb ∈ res.items, getAlbum db pb.id = .ok pb
  tracks : ∀ req res, listTracks db req = .ok res → ∀ pb ∈ res.items, getTrack db pb.id = .ok pb
  /-- Each version of a release leads to the same versions. -/
  versions : ∀ id items, listAlbumVersions db id = .ok items → ∀ pb ∈ items,
    getAlbum db pb.id = .ok pb ∧ listAlbumVersions db pb.id = .ok items
  /-- An album is one of its versions. -/
  own : ∀ id pb, getAlbum db id = .ok pb → ∃ items, listAlbumVersions db id = .ok items ∧ pb ∈ items

theorem getAlbum_of_found {al : Album} (found : db.album al.id = some al) :
    getAlbum db al.id.string = .ok (albumProto al) := by
  simp [getAlbum, parseID, UUID.parse_string, found, Except.mapError, bind, Except.bind]

/-- The row of an album whose call succeeds. -/
theorem getAlbum_ok_iff {s : String} {pb : AlbumProto} : getAlbum db s = .ok pb ↔
    ∃ id al, UUID.parse s = some id ∧ db.album id = some al ∧ pb = albumProto al := by
  unfold getAlbum parseID
  cases UUID.parse s with
  | none => simp [Except.mapError, bind, Except.bind]
  | some id =>
    cases found : db.album id with
    | none => simp [found, Except.mapError, bind, Except.bind]
    | some al => simp [found, Except.mapError, bind, Except.bind, eq_comm]

theorem listAlbumVersions_ok_iff {s : String} {items : List AlbumProto} :
    listAlbumVersions db s = .ok items ↔
      ∃ id albums, UUID.parse s = some id ∧ db.albumVersions id = some albums ∧
        items = albums.map albumProto := by
  unfold listAlbumVersions parseID
  cases UUID.parse s with
  | none => simp [Except.mapError, bind, Except.bind]
  | some id =>
    cases found : db.albumVersions id with
    | none => simp [found, Except.mapError, bind, Except.bind]
    | some albums => simp [found, Except.mapError, bind, Except.bind, eq_comm]

theorem listTracks_ok {req : ListTracksRequest} {res : ListTracksResponse}
    (h : listTracks db req = .ok res) : ∃ albumID tracks,
      db.tracks albumID req.pageToken req.pageSize.toInt = .ok (tracks, res.nextPageToken) ∧
        res.items = tracks.map trackProto := by
  unfold listTracks at h
  cases parsed : parseOptionalID "album_id" req.albumID with
  | error err => simp [parsed, bind, Except.bind] at h
  | ok albumID =>
    cases read : db.tracks albumID req.pageToken req.pageSize.toInt with
    | error err => simp [parsed, read, Except.mapError, bind, Except.bind] at h
    | ok got =>
      obtain ⟨tracks, next⟩ := got
      obtain rfl : (⟨tracks.map trackProto, next⟩ : ListTracksResponse) = res := by
        simpa [parsed, read, Except.mapError, bind, Except.bind] using h
      exact ⟨albumID, tracks, read, rfl⟩

theorem row_of_tracks {albumID : UUID} {token next : Page.Token} {limit : Int} {got : List Track}
    (read : db.tracks albumID token limit = .ok (got, next)) {t : Track} (listed : t ∈ got) :
    ∃ row ∈ db.library.tracks, t = db.scanTrack row := by
  unfold Database.tracks at read
  cases resumed : Page.resume TrackCursor.fields {} (fun cur => cur.albumID = albumID) token with
  | error err => simp [resumed, bind, Except.bind] at read
  | ok cursor =>
    have cut := by simpa only [resumed, bind, Except.bind, Except.ok.injEq] using read
    obtain ⟨row, selected, rfl⟩ := List.mem_map.mp (Page.mem_of_read cut listed)
    exact ⟨row, (List.mem_filter.mp selected).1, rfl⟩

/-- Whatever is listed is found alone, with the same message. -/
theorem coherent (db : Database) : Coherent db where
  artists req res h pb listed := by
    obtain ⟨artists, read, items⟩ := listArtists_ok h
    rw [items] at listed
    obtain ⟨a, member, rfl⟩ := List.mem_map.mp listed
    rw [artists_eq_call] at read
    have found := Database.artist_of_row (Page.PagedQuery.mem_of_call read member)
    simp [getArtist, artistProto, parseID, UUID.parse_string, found, Except.mapError, bind,
      Except.bind]
  albums req res h pb listed := by
    obtain ⟨query, albums, asked, read, items⟩ := listAlbums_ok_iff.mp h
    rw [items] at listed
    obtain ⟨al, member, rfl⟩ := List.mem_map.mp listed
    obtain ⟨_, _, _, order, _⟩ := albumQueryOf_ok_iff.mp asked
    obtain ⟨exprs, known⟩ := albumOrder_recognized order
    rw [albums_eq_call known] at read
    exact getAlbum_of_found (Database.album_of_listed (Page.PagedQuery.mem_of_call read member))
  tracks req res h pb listed := by
    obtain ⟨albumID, tracks, read, items⟩ := listTracks_ok h
    rw [items] at listed
    obtain ⟨t, member, rfl⟩ := List.mem_map.mp listed
    obtain ⟨row, stored, rfl⟩ := row_of_tracks read member
    have found := Database.track_of_row stored
    have id : (db.scanTrack row).id = row.id := rfl
    simp [getTrack, trackProto, parseID, UUID.parse_string, id, found, Except.mapError, bind,
      Except.bind]
  versions s items h pb listed := by
    obtain ⟨id, albums, parsed, found, rfl⟩ := listAlbumVersions_ok_iff.mp h
    obtain ⟨al, member, rfl⟩ := List.mem_map.mp listed
    obtain ⟨a, stored, rfl⟩ := Database.row_of_albumVersions found
    have all := Database.albumVersions_of_row stored
    obtain rfl := Option.some.inj (found.symm.trans all)
    rw [Paging.mem_ordered] at member
    obtain ⟨b, selected, rfl⟩ := List.mem_map.mp member
    obtain ⟨stored', group⟩ := List.mem_filter.mp selected
    have group' : b.groupKey = a.groupKey := of_decide_eq_true group
    refine ⟨getAlbum_of_found (Database.album_of_row stored'), ?_⟩
    have versions := Database.albumVersions_of_row stored'
    rw [group'] at versions
    exact listAlbumVersions_ok_iff.mpr ⟨b.id, _, UUID.parse_string b.id, versions, rfl⟩
  own s pb h := by
    obtain ⟨id, al, parsed, found, rfl⟩ := getAlbum_ok_iff.mp h
    obtain ⟨a, stored, rfl, rfl⟩ := Database.row_of_album found
    have versions := Database.albumVersions_of_row stored
    refine ⟨_, listAlbumVersions_ok_iff.mpr ⟨a.id, _, parsed, versions, rfl⟩, ?_⟩
    apply List.mem_map_of_mem
    rw [Paging.mem_ordered]
    exact List.mem_map_of_mem (List.mem_filter.mpr ⟨stored, decide_eq_true rfl⟩)

end Byom.Rpc
