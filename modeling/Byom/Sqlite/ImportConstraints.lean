import Byom.Relational.Constraint
import Byom.Sqlite.CatalogWrites

/-!
# Imports meet the constraints

An upsert names one unique index, and every statement is checked against all of them. What the
payload refers to is there, and its IDs are new: then each statement of
`ReplaceDirAlbums` meets every constraint, and the next one finds the same.
-/

namespace Byom.Sqlite.Database

open Storage Relational Library Metadata

variable {db db' : Database} {albumID trackID : UUID} {kept : List UUID}

theorem write_ok {statement : LibraryTables → LibraryTables}
    (unique : (statement db.library).Unique)
    (referenced : (statement db.library).Referenced (db.storage.dirs.map DirRow.id)
      (db.storage.files.map FileRow.id)) : ∃ db', db.write statement = .ok db' := by
  unfold write
  simp only [dif_pos unique, dif_pos referenced]
  exact ⟨_, rfl⟩

theorem bind_of_ok {ε α β : Type} {x : Except ε α} {f : α → Except ε β} {a : α} (h : x = .ok a) :
    (x >>= f) = f a := by
  rw [h]
  rfl

def HasAlbum (id : UUID) (db : Database) : Prop := id ∈ db.library.albums.map AlbumRow.id

def HasTrack (id : UUID) (db : Database) : Prop := id ∈ db.library.tracks.map TrackRow.id

def HasArtist (id : UUID) (db : Database) : Prop := id ∈ db.library.artists.map Artist.id

def HasImageID (id : UUID) (db : Database) : Prop := id ∈ db.library.images.map Image.id

instance (id : UUID) (db : Database) : Decidable (HasAlbum id db) :=
  inferInstanceAs (Decidable (_ ∈ _))

instance (id : UUID) (db : Database) : Decidable (HasTrack id db) :=
  inferInstanceAs (Decidable (_ ∈ _))

instance (id : UUID) (db : Database) : Decidable (HasImageID id db) :=
  inferInstanceAs (Decidable (_ ∈ _))

/-- A table that is kept has the keys it had. -/
theorem Keeps.mem_keys {Row Key : Type} {table : LibraryTables → List Row} {key : Row → Key}
    {k : Key} (kept : Keeps table db db') (has : k ∈ (table db.library).map key) :
    k ∈ (table db'.library).map key := by
  rw [kept.2]
  exact has

theorem HasAlbum.of_keeps {id : UUID} (has : db.HasAlbum id)
    (kept : Keeps LibraryTables.albums db db') : db'.HasAlbum id :=
  kept.mem_keys has

theorem HasArtist.of_keeps {id : UUID} (has : db.HasArtist id)
    (kept : Keeps LibraryTables.artists db db') : db'.HasArtist id :=
  kept.mem_keys has

theorem HasTrack.of_keeps {id : UUID} (has : db.HasTrack id)
    (kept : Keeps LibraryTables.tracks db db') : db'.HasTrack id :=
  kept.mem_keys has

/-! ### The statements -/

theorem upsertAlbum_ok {al : Album} (dir : al.dirID ∈ db.storage.dirs.map DirRow.id)
    (new : ¬ db.HasAlbum al.id) : ∃ db' id, upsertAlbum al db = .ok (db', id) := by
  have unlike : ∀ a ∈ db.library.albums, a.id ≠ al.id :=
    fun a ha same => new (List.mem_map.mpr ⟨a, ha, same⟩)
  -- a new album is the primary only if the group has none
  have primary : (newAlbum al db).primaryVersion = true → ∀ a ∈ db.library.albums,
      a.primaryVersion = true → a.groupKey ≠ (newAlbum al db).groupKey := by
    intro flag a ha elected group
    have same : a.groupKey = al.groupKey := group
    have taken : db.hasPrimary al.groupKey = true := by
      unfold hasPrimary
      refine List.any_eq_true.mpr ⟨a, ha, ?_⟩
      simpa [elected] using same
    have free : (!db.hasPrimary al.groupKey) = true := flag
    rw [taken] at free
    cases free
  have more : db.library.albums.map AlbumRow.id ⊆ (upsertOn AlbumRow.key (refreshAlbum al db)
      (newAlbum al db) db.library.albums).map AlbumRow.id := by
    apply upsertOn_keeps_map
    exact fun _ => rfl
  obtain ⟨db', written⟩ : ∃ db', db.write (fun l => { l with
      albums := upsertOn AlbumRow.key (refreshAlbum al db) (newAlbum al db) l.albums }) =
        .ok db' := by
    apply write_ok
    · exact { db.unique with
        albumIDs := db.unique.albumIDs.upsertOn_other (fun _ => rfl) unlike
        albumKeys := db.unique.albumKeys.upsertOn fun _ => rfl
        primaries := db.unique.primaries.upsertOn_index (fun _ => rfl) (fun _ => rfl) primary }
    · exact { db.referenced with
        albumDirs := db.referenced.albumDirs.upsertOn db.referenced.albumDirs dir
        albumArtistAlbums := db.referenced.albumArtistAlbums.mono (fun _ => id) more
        trackAlbums := db.referenced.trackAlbums.mono (fun _ => id) more
        albumImageAlbums := db.referenced.albumImageAlbums.mono (fun _ => id) more }
  exact ⟨db', _, bind_of_ok written⟩

theorem insertAlbumArtists_ok {artists : List (AlbumArtist × Nat)} (album : db.HasAlbum albumID)
    (known : ∀ p ∈ artists, db.HasArtist p.1.artistID) :
    ∃ db', insertAlbumArtists albumID artists db = .ok db' := by
  induction artists generalizing db with
  | nil => exact ⟨db, rfl⟩
  | cons p rest ih =>
    obtain ⟨first, later⟩ := List.forall_mem_cons.mp known
    obtain ⟨mid, written⟩ : ∃ mid, db.write (fun l => { l with
        albumArtists := insertOrIgnore albumArtistConflict
          ⟨albumID, p.1.artistID, p.1.creditedName, p.2⟩ l.albumArtists }) = .ok mid := by
      apply write_ok
      · exact { db.unique with
          albumArtistSlots := db.unique.albumArtistSlots.insertOrIgnore fun r same => by
            simp [albumArtistConflict, same]
          albumArtists := db.unique.albumArtists.insertOrIgnore fun r same => by
            simp [albumArtistConflict, same] }
      · exact { db.referenced with
          albumArtistAlbums := db.referenced.albumArtistAlbums.insertOrIgnore album
          albumArtistArtists := db.referenced.albumArtistArtists.insertOrIgnore first }
    have albums : Keeps LibraryTables.albums db mid := by
      refine write_keeps ?_ written
      exact fun _ => rfl
    have artists : Keeps LibraryTables.artists db mid := by
      refine write_keeps ?_ written
      exact fun _ => rfl
    obtain ⟨db', inserted⟩ := ih (album.of_keeps albums) fun p hp => (later p hp).of_keeps artists
    exact ⟨db', (bind_of_ok written).trans inserted⟩

theorem replaceAlbumArtists_ok {artists : List AlbumArtist} (album : db.HasAlbum albumID)
    (known : ∀ aa ∈ artists, db.HasArtist aa.artistID) :
    ∃ db', replaceAlbumArtists albumID artists db = .ok db' := by
  obtain ⟨mid, cleared⟩ : ∃ mid, db.write (fun l => { l with
      albumArtists := deleteWhere (fun a => a.albumID = albumID) l.albumArtists }) = .ok mid := by
    apply write_ok
    · exact { db.unique with
        albumArtistSlots := db.unique.albumArtistSlots.deleteWhere _
        albumArtists := db.unique.albumArtists.deleteWhere _ }
    · exact { db.referenced with
        albumArtistAlbums :=
          db.referenced.albumArtistAlbums.mono (deleteWhere_subset _ _) (fun _ => id)
        albumArtistArtists :=
          db.referenced.albumArtistArtists.mono (deleteWhere_subset _ _) (fun _ => id) }
  have albums : Keeps LibraryTables.albums db mid := by
    refine write_keeps ?_ cleared
    exact fun _ => rfl
  have people : Keeps LibraryTables.artists db mid := by
    refine write_keeps ?_ cleared
    exact fun _ => rfl
  have listed : ∀ p ∈ artists.zipIdx, mid.HasArtist p.1.artistID :=
    fun p hp => (known p.1 (List.fst_mem_of_mem_zipIdx hp)).of_keeps people
  obtain ⟨db', inserted⟩ := insertAlbumArtists_ok (album.of_keeps albums) listed
  exact ⟨db', (bind_of_ok cleared).trans inserted⟩

/-! ### Image links -/

theorem HasImageID.of_keeps {id : UUID} (has : db.HasImageID id)
    (kept : Keeps LibraryTables.images db db') : db'.HasImageID id :=
  kept.mem_keys has

/-- The album has no cover. -/
def CoverFree (albumID : UUID) (db : Database) : Prop :=
  ∀ r ∈ db.library.albumImages, r.setCover = true → r.albumID ≠ albumID

theorem coverFree_of_hasCover (none : db.hasCover albumID = false) : db.CoverFree albumID := by
  intro r hr flag own
  have found : db.hasCover albumID = true := by
    unfold hasCover
    refine List.any_eq_true.mpr ⟨r, hr, ?_⟩
    simp [own, flag]
  rw [none] at found
  cases found

/-- No two links are marked as the cover. -/
def OneDefault (images : List AlbumImage) : Prop :=
  images.Pairwise fun a b => ¬(a.setCover = true ∧ b.setCover = true)

theorem upsertAlbumImages_ok {cover : Bool} {images : List AlbumImage} (album : db.HasAlbum albumID)
    (known : ∀ img ∈ images, db.HasImageID img.imageID) (one : OneDefault images)
    (free : ∀ img ∈ images, img.setCover = true → cover = false → db.CoverFree albumID) :
    ∃ db', upsertAlbumImages albumID cover images db = .ok db' := by
  induction images generalizing db with
  | nil => exact ⟨db, rfl⟩
  | cons img rest ih =>
    obtain ⟨first, later⟩ := List.forall_mem_cons.mp known
    obtain ⟨alone, others⟩ := List.pairwise_cons.mp one
    -- a new cover meets no other one
    have covers : (newAlbumImage albumID cover img).setCover = true →
        ∀ r ∈ db.library.albumImages, r.setCover = true → r.albumID ≠ albumID := by
      intro flag
      obtain ⟨marked, open_⟩ : img.setCover = true ∧ cover = false := by
        simpa [newAlbumImage] using flag
      exact free img List.mem_cons_self marked open_
    obtain ⟨mid, written⟩ : ∃ mid, db.write (fun l => { l with
        albumImages := upsertOn AlbumImageRow.key (refreshAlbumImage img)
          (newAlbumImage albumID cover img) l.albumImages }) = .ok mid := by
      apply write_ok
      · exact { db.unique with
          albumImages := db.unique.albumImages.upsertOn fun _ => rfl
          covers := db.unique.covers.upsertOn_index (fun _ => rfl) (fun _ => rfl) covers }
      · exact { db.referenced with
          albumImageAlbums :=
            db.referenced.albumImageAlbums.upsertOn db.referenced.albumImageAlbums album
          albumImageImages :=
            db.referenced.albumImageImages.upsertOn db.referenced.albumImageImages first }
    have albums : Keeps LibraryTables.albums db mid := by
      refine write_keeps ?_ written
      exact fun _ => rfl
    have images : Keeps LibraryTables.images db mid := by
      refine write_keeps ?_ written
      exact fun _ => rfl
    have still : ∀ other ∈ rest, other.setCover = true → cover = false → mid.CoverFree albumID := by
      intro other hother marked open_ r hr flag
      rw [(write_spec written).2] at hr
      rcases mem_upsertOn hr with ⟨rfl, _⟩ | ⟨old, _⟩ | ⟨old, hold, _, rfl⟩
      · have plain : img.setCover = true := by
          have both : img.setCover = true ∧ cover = false := by simpa [newAlbumImage] using flag
          exact both.1
        exact absurd ⟨plain, marked⟩ (alone other hother)
      · exact free other (List.mem_cons_of_mem _ hother) marked open_ r old flag
      · exact free other (List.mem_cons_of_mem _ hother) marked open_ old hold flag
    obtain ⟨db', linked⟩ := ih (album.of_keeps albums)
      (fun img himg => (later img himg).of_keeps images) others still
    exact ⟨db', (bind_of_ok written).trans linked⟩

theorem replaceAlbumImages_ok {images : List AlbumImage} (album : db.HasAlbum albumID)
    (known : ∀ img ∈ images, db.HasImageID img.imageID) (one : OneDefault images) :
    ∃ db', replaceAlbumImages albumID images db = .ok db' := by
  obtain ⟨mid, cleared⟩ : ∃ mid, db.write (fun l => { l with
      albumImages := deleteWhere (stale AlbumImageRow.imageID AlbumImageRow.albumID albumID
        (images.map AlbumImage.imageID)) l.albumImages }) = .ok mid := by
    apply write_ok
    · exact { db.unique with
        albumImages := db.unique.albumImages.deleteWhere _
        covers := db.unique.covers.partialIndex _ }
    · exact { db.referenced with
        albumImageAlbums :=
          db.referenced.albumImageAlbums.mono (deleteWhere_subset _ _) (fun _ => id)
        albumImageImages :=
          db.referenced.albumImageImages.mono (deleteWhere_subset _ _) (fun _ => id) }
  have albums : Keeps LibraryTables.albums db mid := by
    refine write_keeps ?_ cleared
    exact fun _ => rfl
  have rows : Keeps LibraryTables.images db mid := by
    refine write_keeps ?_ cleared
    exact fun _ => rfl
  obtain ⟨db', linked⟩ := upsertAlbumImages_ok (album.of_keeps albums)
    (fun img himg => (known img himg).of_keeps rows) one
    fun _ _ _ none => coverFree_of_hasCover none
  exact ⟨db', (bind_of_ok cleared).trans linked⟩

/-! ### Tracks -/

theorem upsertTrack_ok {t : Track} (album : db.HasAlbum t.albumID)
    (file : t.fileID ∈ db.storage.files.map FileRow.id) (new : ¬ db.HasTrack t.id) :
    ∃ db' id, upsertTrack t db = .ok (db', id) := by
  have unlike : ∀ r ∈ db.library.tracks, r.id ≠ t.id :=
    fun r hr same => new (List.mem_map.mpr ⟨r, hr, same⟩)
  have more : db.library.tracks.map TrackRow.id ⊆ (upsertOn TrackRow.key (refreshTrack t)
      (newTrack t) db.library.tracks).map TrackRow.id := by
    apply upsertOn_keeps_map
    exact fun _ => rfl
  obtain ⟨db', written⟩ : ∃ db', db.write (fun l => { l with
      tracks := upsertOn TrackRow.key (refreshTrack t) (newTrack t) l.tracks }) = .ok db' := by
    apply write_ok
    · exact { db.unique with
        trackIDs := db.unique.trackIDs.upsertOn_other (fun _ => rfl) unlike
        trackKeys := db.unique.trackKeys.upsertOn fun _ => rfl }
    · exact { db.referenced with
        trackAlbums := db.referenced.trackAlbums.upsertOn (fun _ _ => album) album
        trackFiles := db.referenced.trackFiles.upsertOn db.referenced.trackFiles file
        trackCreditTracks := db.referenced.trackCreditTracks.mono (fun _ => id) more }
  exact ⟨db', _, bind_of_ok written⟩

/-- The track that is written is there, and no other track is new. -/
theorem upsertTrack_tracks {t : Track} (h : upsertTrack t db = .ok (db', trackID)) :
    db'.HasTrack trackID ∧ ∀ id, db'.HasTrack id → id = t.id ∨ db.HasTrack id := by
  obtain ⟨tracks, rfl⟩ := upsertTrack_spec h
  have found := lookup_upsertOn_self (newTrack t) db.library.tracks
    (fun _ => rfl : ∀ r, (refreshTrack t r).key = r.key)
  refine ⟨?_, ?_⟩
  · unfold HasTrack
    rw [tracks]
    exact List.mem_map_of_mem (mem_of_lookup found)
  · intro id has
    unfold HasTrack at has
    rw [tracks] at has
    exact mem_map_upsertOn has fun _ => rfl

theorem insertTrackCredits_ok {credits : List TrackCredit} (track : db.HasTrack trackID)
    (known : ∀ c ∈ credits, db.HasArtist c.artistID) :
    ∃ db', insertTrackCredits trackID credits db = .ok db' := by
  induction credits generalizing db with
  | nil => exact ⟨db, rfl⟩
  | cons c rest ih =>
    obtain ⟨first, later⟩ := List.forall_mem_cons.mp known
    let row : TrackCreditRow := ⟨trackID, c.artistID, c.creditedName, c.role⟩
    have unique : UniqueOn TrackCreditRow.key
        (insertOrIgnore (fun a b => a.key = b.key) row db.library.trackCredits) :=
      db.unique.trackCredits.insertOrIgnore fun r same => decide_eq_true same.symm
    have tracks : References TrackCreditRow.trackID
        (insertOrIgnore (fun a b => a.key = b.key) row db.library.trackCredits)
        (db.library.tracks.map TrackRow.id) :=
      db.referenced.trackCreditTracks.insertOrIgnore track
    have artists : References TrackCreditRow.artistID
        (insertOrIgnore (fun a b => a.key = b.key) row db.library.trackCredits)
        (db.library.artists.map Artist.id) :=
      db.referenced.trackCreditArtists.insertOrIgnore first
    obtain ⟨mid, written⟩ : ∃ mid, db.write (fun l => { l with
        trackCredits := insertOrIgnore (fun a b => a.key = b.key) row l.trackCredits }) =
          .ok mid := by
      apply write_ok
      · exact { db.unique with trackCredits := unique }
      · exact { db.referenced with trackCreditTracks := tracks, trackCreditArtists := artists }
    have tracks : Keeps LibraryTables.tracks db mid := by
      refine write_keeps ?_ written
      exact fun _ => rfl
    have artists : Keeps LibraryTables.artists db mid := by
      refine write_keeps ?_ written
      exact fun _ => rfl
    obtain ⟨db', inserted⟩ := ih (track.of_keeps tracks) fun c hc => (later c hc).of_keeps artists
    exact ⟨db', (bind_of_ok written).trans inserted⟩

theorem replaceTrackCredits_ok {credits : List TrackCredit} (track : db.HasTrack trackID)
    (known : ∀ c ∈ credits, db.HasArtist c.artistID) :
    ∃ db', replaceTrackCredits trackID credits db = .ok db' := by
  obtain ⟨mid, cleared⟩ : ∃ mid, db.write (fun l => { l with
      trackCredits := deleteWhere (fun c => c.trackID = trackID) l.trackCredits }) = .ok mid := by
    apply write_ok
    · exact { db.unique with trackCredits := db.unique.trackCredits.deleteWhere _ }
    · exact { db.referenced with
        trackCreditTracks :=
          db.referenced.trackCreditTracks.mono (deleteWhere_subset _ _) (fun _ => id)
        trackCreditArtists :=
          db.referenced.trackCreditArtists.mono (deleteWhere_subset _ _) (fun _ => id) }
  have tracks : Keeps LibraryTables.tracks db mid := by
    refine write_keeps ?_ cleared
    exact fun _ => rfl
  have artists : Keeps LibraryTables.artists db mid := by
    refine write_keeps ?_ cleared
    exact fun _ => rfl
  obtain ⟨db', inserted⟩ := insertTrackCredits_ok (track.of_keeps tracks)
    fun c hc => (known c hc).of_keeps artists
  exact ⟨db', (bind_of_ok cleared).trans inserted⟩

/-- What a track refers to is there. -/
structure TrackKnown (db : Database) (t : Track) : Prop where
  file : t.fileID ∈ db.storage.files.map FileRow.id
  credits : ∀ c ∈ t.credits, db.HasArtist c.artistID

theorem TrackKnown.of_keeps {t : Track} (known : db.TrackKnown t)
    (kept : Keeps LibraryTables.artists db db') : db'.TrackKnown t := by
  refine ⟨?_, fun c hc => (known.credits c hc).of_keeps kept⟩
  rw [kept.1]
  exact known.file

theorem importTracks_ok {ts : List Track} (album : db.HasAlbum albumID)
    (known : ∀ t ∈ ts, db.TrackKnown t) (distinct : (ts.map Track.id).Nodup)
    (new : ∀ t ∈ ts, ¬ db.HasTrack t.id) : ∃ db' kept, importTracks albumID ts db = .ok (db', kept) ∧
      ∀ id, db'.HasTrack id → id ∈ ts.map Track.id ∨ db.HasTrack id := by
  induction ts generalizing db with
  | nil => exact ⟨db, [], rfl, fun id => .inr⟩
  | cons t rest ih =>
    obtain ⟨first, later⟩ := List.forall_mem_cons.mp known
    obtain ⟨fresh, others⟩ := List.forall_mem_cons.mp new
    obtain ⟨apart, restDistinct⟩ := List.nodup_cons.mp distinct
    obtain ⟨stored, trackID, upserted⟩ :=
      upsertTrack_ok (t := { t with albumID }) album first.file fresh
    obtain ⟨there, ids⟩ := upsertTrack_tracks upserted
    have artists₁ : Keeps LibraryTables.artists db stored :=
      upsertTrack_keeps (fun _ _ => rfl) upserted
    have albums₁ : Keeps LibraryTables.albums db stored :=
      upsertTrack_keeps (fun _ _ => rfl) upserted
    obtain ⟨credited, credits⟩ := replaceTrackCredits_ok there
      fun c hc => (first.credits c hc).of_keeps artists₁
    have artists₂ : Keeps LibraryTables.artists db credited :=
      artists₁.trans (replaceTrackCredits_keeps (fun _ _ => rfl) credits)
    have albums₂ : Keeps LibraryTables.albums db credited :=
      albums₁.trans (replaceTrackCredits_keeps (fun _ _ => rfl) credits)
    have tracks₂ : Keeps LibraryTables.tracks stored credited :=
      replaceTrackCredits_keeps (fun _ _ => rfl) credits
    have before : ∀ id, credited.HasTrack id → id = t.id ∨ db.HasTrack id := by
      intro id has
      unfold HasTrack at has
      rw [tracks₂.2] at has
      exact ids id has
    have still : ∀ u ∈ rest, ¬ credited.HasTrack u.id := by
      intro u hu has
      rcases before u.id has with same | old
      · exact apart (List.mem_map.mpr ⟨u, hu, same⟩)
      · exact others u hu old
    obtain ⟨db', kept, imported, final⟩ := ih (album.of_keeps albums₂)
      (fun u hu => (later u hu).of_keeps artists₂) restDistinct still
    refine ⟨db', trackID :: kept, ?_, ?_⟩
    · rw [importTracks, bind_of_ok upserted]
      exact (bind_of_ok credits).trans (bind_of_ok imported)
    · intro id has
      rw [List.map_cons, List.mem_cons]
      rcases final id has with listed | has
      · exact .inl (.inr listed)
      · exact (before id has).imp_left .inl

/-! ### Albums -/

/-- What an album and its tracks refer to is there. -/
structure AlbumKnown (db : Database) (al : ImportAlbum) : Prop where
  dir : al.album.dirID ∈ db.storage.dirs.map DirRow.id
  artists : ∀ aa ∈ al.album.artists, db.HasArtist aa.artistID
  images : ∀ img ∈ al.album.images, db.HasImageID img.imageID
  oneDefault : OneDefault al.album.images
  tracks : ∀ t ∈ al.tracks, db.TrackKnown t

/-- What no statement of an import writes. -/
def origins (l : LibraryTables) : List Artist × List Image := (l.artists, l.images)

theorem AlbumKnown.of_keeps {al : ImportAlbum} (known : db.AlbumKnown al)
    (kept : Keeps origins db db') : db'.AlbumKnown al := by
  obtain ⟨artists, images⟩ := Prod.mk.inj kept.2
  refine ⟨?_, ?_, ?_, known.oneDefault, ?_⟩
  · rw [kept.1]
    exact known.dir
  · exact fun aa haa => (known.artists aa haa).of_keeps ⟨kept.1, artists⟩
  · exact fun img himg => (known.images img himg).of_keeps ⟨kept.1, images⟩
  · exact fun t ht => (known.tracks t ht).of_keeps ⟨kept.1, artists⟩

theorem upsertAlbum_albums {al : Album} (h : upsertAlbum al db = .ok (db', albumID)) :
    db'.HasAlbum albumID ∧ ∀ id, db'.HasAlbum id → id = al.id ∨ db.HasAlbum id := by
  obtain ⟨albums, rfl⟩ := upsertAlbum_spec h
  have found := lookup_upsertOn_self (newAlbum al db) db.library.albums (refreshAlbum_key al db)
  refine ⟨?_, ?_⟩
  · unfold HasAlbum
    rw [albums]
    exact List.mem_map_of_mem (mem_of_lookup found)
  · intro id has
    unfold HasAlbum at has
    rw [albums] at has
    exact mem_map_upsertOn has fun _ => rfl

theorem importAlbum_ok {al : ImportAlbum} (known : db.AlbumKnown al)
    (newAlbum : ¬ db.HasAlbum al.album.id) (distinct : (al.tracks.map Track.id).Nodup)
    (newTracks : ∀ t ∈ al.tracks, ¬ db.HasTrack t.id) :
    ∃ db' albumID, importAlbum al db = .ok (db', albumID) ∧
      (∀ id, db'.HasAlbum id → id = al.album.id ∨ db.HasAlbum id) ∧
      ∀ id, db'.HasTrack id → id ∈ al.tracks.map Track.id ∨ db.HasTrack id := by
  obtain ⟨stored, albumID, upserted⟩ := upsertAlbum_ok known.dir newAlbum
  obtain ⟨there, ids⟩ := upsertAlbum_albums upserted
  have known₁ := known.of_keeps (upsertAlbum_keeps (fun _ _ => rfl) upserted)
  obtain ⟨credited, artists⟩ := replaceAlbumArtists_ok there known₁.artists
  have known₂ := known₁.of_keeps (replaceAlbumArtists_keeps (fun _ _ => rfl) artists)
  have albums₂ : Keeps LibraryTables.albums stored credited :=
    replaceAlbumArtists_keeps (fun _ _ => rfl) artists
  obtain ⟨linked, images⟩ :=
    replaceAlbumImages_ok (there.of_keeps albums₂) known₂.images known₂.oneDefault
  have known₃ := known₂.of_keeps (replaceAlbumImages_keeps (fun _ _ => rfl) images)
  have albums₃ : Keeps LibraryTables.albums stored linked :=
    albums₂.trans (replaceAlbumImages_keeps (fun _ _ => rfl) images)
  have tracks₃ : Keeps LibraryTables.tracks db linked :=
    ((upsertAlbum_keeps (fun _ _ => rfl) upserted).trans
      (replaceAlbumArtists_keeps (fun _ _ => rfl) artists)).trans
        (replaceAlbumImages_keeps (fun _ _ => rfl) images)
  have still : ∀ t ∈ al.tracks, ¬ linked.HasTrack t.id := by
    intro t ht has
    unfold HasTrack at has
    rw [tracks₃.2] at has
    exact newTracks t ht has
  obtain ⟨listed, kept, loop, final⟩ :=
    importTracks_ok (there.of_keeps albums₃) known₃.tracks distinct still
  have albums₄ : Keeps LibraryTables.albums stored listed :=
    albums₃.trans (importTracks_keeps (fun _ _ _ => rfl) loop)
  refine ⟨listed.deleteTracks (stale TrackRow.id TrackRow.albumID albumID kept), albumID, ?_, ?_,
    ?_⟩
  · rw [importAlbum, bind_of_ok upserted]
    refine (bind_of_ok artists).trans ((bind_of_ok images).trans ?_)
    exact bind_of_ok loop
  · intro id has
    apply ids
    have same : listed.HasAlbum id := has
    unfold HasAlbum at same
    rwa [albums₄.2] at same
  · intro id has
    have before : listed.HasTrack id := by
      obtain ⟨r, hr, rfl⟩ := List.mem_map.mp has
      exact List.mem_map_of_mem (mem_deleteWhere.mp hr).1
    refine (final id before).imp_right fun has => ?_
    unfold HasTrack at has
    rwa [tracks₃.2] at has

/-- The IDs of the albums and their tracks are all different, and not in use. -/
structure Minted (albums : List ImportAlbum) (db : Database) : Prop where
  albumIDs : (albums.map fun al => al.album.id).Nodup
  newAlbums : ∀ al ∈ albums, ¬ db.HasAlbum al.album.id
  trackIDs : ((albums.flatMap ImportAlbum.tracks).map Track.id).Nodup
  newTracks : ∀ al ∈ albums, ∀ t ∈ al.tracks, ¬ db.HasTrack t.id

theorem importAlbums_ok {albums : List ImportAlbum} (known : ∀ al ∈ albums, db.AlbumKnown al)
    (minted : Minted albums db) : ∃ db' kept, importAlbums albums db = .ok (db', kept) := by
  induction albums generalizing db with
  | nil => exact ⟨db, [], rfl⟩
  | cons al rest ih =>
    obtain ⟨first, later⟩ := List.forall_mem_cons.mp known
    obtain ⟨apart, albumIDs⟩ := List.nodup_cons.mp minted.albumIDs
    obtain ⟨newAlbum, newAlbums⟩ := List.forall_mem_cons.mp minted.newAlbums
    obtain ⟨newTracks, newLater⟩ := List.forall_mem_cons.mp minted.newTracks
    have trackIDs := minted.trackIDs
    rw [List.flatMap_cons, List.map_append, List.nodup_append] at trackIDs
    obtain ⟨own, others, unlike⟩ := trackIDs
    obtain ⟨mid, albumID, imported, albumsAfter, tracksAfter⟩ :=
      importAlbum_ok first newAlbum own newTracks
    have kept : Keeps origins db mid := importAlbum_keeps (fun _ _ _ _ _ _ => rfl) imported
    have still : Minted rest mid := by
      refine ⟨albumIDs, ?_, others, ?_⟩
      · intro other hother has
        rcases albumsAfter _ has with same | old
        · exact apart (List.mem_map.mpr ⟨other, hother, same⟩)
        · exact newAlbums other hother old
      · intro other hother t ht has
        rcases tracksAfter _ has with listed | old
        · have again : t.id ∈ (rest.flatMap ImportAlbum.tracks).map Track.id :=
            List.mem_map_of_mem (List.mem_flatMap.mpr ⟨other, hother, ht⟩)
          exact unlike _ listed _ again rfl
        · exact newLater other hother t ht old
    obtain ⟨db', later', loop⟩ := ih (fun al hal => (later al hal).of_keeps kept) still
    refine ⟨db', albumID :: later', ?_⟩
    rw [importAlbums, bind_of_ok imported]
    exact bind_of_ok loop

theorem promoteOrphanedPrimaries_ok (keys : List String) (db : Database) :
    ∃ db', promoteOrphanedPrimaries keys db = .ok db' := by
  induction keys generalizing db with
  | nil => exact ⟨db, rfl⟩
  | cons key keys ih =>
    have ids : (AlbumRow.versions.promote key db.library.albums).map AlbumRow.id =
        db.library.albums.map AlbumRow.id := by
      apply map_key_updateWhere
      exact fun _ => rfl
    have one : AlbumRow.versions.AtMostOne (AlbumRow.versions.promote key db.library.albums) :=
      Election.AtMostOne.promote (E := AlbumRow.versions) db.unique.primaries db.unique.albumIDs
    have dirs : References AlbumRow.dirID (AlbumRow.versions.promote key db.library.albums)
        (db.storage.dirs.map DirRow.id) := by
      intro r hr
      obtain ⟨a, ha, rfl⟩ := mem_updateWhere.mp hr
      split
      · exact db.referenced.albumDirs a ha
      · exact db.referenced.albumDirs a ha
    obtain ⟨mid, written⟩ : ∃ mid, db.write (fun l => { l with
        albums := AlbumRow.versions.promote key l.albums }) = .ok mid := by
      apply write_ok
      · exact { db.unique with
          albumIDs := db.unique.albumIDs.updateWhere fun _ => rfl
          albumKeys := db.unique.albumKeys.updateWhere fun _ => rfl
          primaries := one }
      · exact { db.referenced with
          albumDirs := dirs
          albumArtistAlbums := ids ▸ db.referenced.albumArtistAlbums
          trackAlbums := ids ▸ db.referenced.trackAlbums
          albumImageAlbums := ids ▸ db.referenced.albumImageAlbums }
    obtain ⟨db', promoted⟩ := ih mid
    exact ⟨db', (bind_of_ok written).trans promoted⟩

/-- A payload whose references are there and whose IDs are new violates no constraint. -/
theorem replaceDirAlbums_ok {albums : List ImportAlbum} (dirID : UUID)
    (known : ∀ al ∈ albums, db.AlbumKnown al) (minted : Minted albums db) :
    ∃ db', replaceDirAlbums dirID albums db = .ok db' := by
  obtain ⟨imported, kept, loop⟩ := importAlbums_ok known minted
  obtain ⟨db', promoted⟩ := promoteOrphanedPrimaries_ok (imported.dirPrimaryGroups dirID)
    (imported.deleteAlbums (stale AlbumRow.id AlbumRow.dirID dirID kept))
  exact ⟨db', (bind_of_ok loop).trans promoted⟩

end Byom.Sqlite.Database
