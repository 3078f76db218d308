import Byom.Relational.Selection
import Byom.Sqlite.TrackView

/-!
# What is under an album

`contents` reads all rows under one album. The import of another album leaves them alone
if it lists none of the tracks, and so does the delete of other albums.
-/

namespace Byom.Sqlite

open Storage Relational Library Metadata

/-- The artists in the order they are stored, the image links, and the tracks with their
credits. -/
structure AlbumContents where
  artists : List AlbumArtistRow
  images : List AlbumImageRow
  tracks : List (TrackRow × List TrackCreditRow)
  deriving DecidableEq

namespace LibraryTables

def artistsOf (albumID : UUID) (l : LibraryTables) : List AlbumArtistRow :=
  l.albumArtists.filter fun a => a.albumID = albumID

def imagesOf (albumID : UUID) (l : LibraryTables) : List AlbumImageRow :=
  l.albumImages.filter fun i => i.albumID = albumID

def tracksOf (albumID : UUID) (l : LibraryTables) : List TrackRow :=
  l.tracks.filter fun t => t.albumID = albumID

def creditsOf (trackID : UUID) (l : LibraryTables) : List TrackCreditRow :=
  l.trackCredits.filter fun c => c.trackID = trackID

def contents (albumID : UUID) (l : LibraryTables) : AlbumContents where
  artists := l.artistsOf albumID
  images := l.imagesOf albumID
  tracks := (l.tracksOf albumID).map fun t => (t, l.creditsOf t.id)

variable {l l' : LibraryTables} {albumID id : UUID}

theorem mem_tracksOf {t : TrackRow} : t ∈ l.tracksOf albumID ↔ t ∈ l.tracks ∧ t.albumID = albumID := by
  simp [tracksOf]

theorem contents_congr (artists : l'.artistsOf id = l.artistsOf id)
    (images : l'.imagesOf id = l.imagesOf id) (tracks : l'.tracksOf id = l.tracksOf id)
    (credits : ∀ t ∈ l.tracksOf id, l'.creditsOf t.id = l.creditsOf t.id) :
    l'.contents id = l.contents id := by
  unfold contents
  rw [artists, images, tracks]
  congr 1
  apply List.map_congr_left
  intro t ht
  rw [credits t ht]

theorem tracksOf_of_contents (same : l'.contents id = l.contents id) :
    l'.tracksOf id = l.tracksOf id := by
  have fst : ∀ l : LibraryTables, (l.contents id).tracks.map Prod.fst = l.tracksOf id := by
    intro l
    rw [contents, List.map_map]
    exact List.map_id _
  rw [← fst, ← fst, same]

theorem creditsOf_of_contents (same : l'.contents id = l.contents id) {t : TrackRow}
    (ht : t ∈ l.tracksOf id) : l'.creditsOf t.id = l.creditsOf t.id := by
  have listed : (t, l.creditsOf t.id) ∈ (l'.contents id).tracks := by
    rw [same]
    exact List.mem_map.mpr ⟨t, ht, rfl⟩
  obtain ⟨u, _, pair⟩ := List.mem_map.mp listed
  obtain ⟨rfl, credits⟩ := Prod.mk.inj pair
  exact credits

/-! ### Deletes -/

theorem deleteTracks_creditsOf (unique : l.Unique) {p : TrackRow → Bool} {t : TrackRow}
    (ht : t ∈ l.tracks) (stays : p t = false) :
    (l.deleteTracks p).creditsOf t.id = l.creditsOf t.id := by
  have kept : t.id ∉ deletedKeys TrackRow.id p l.tracks := by
    rw [unique.trackIDs.key_deleted ht, stays]
    exact Bool.false_ne_true
  apply filter_deleteWhere_of_disjoint
  intro c _ own
  rw [of_decide_eq_true own]
  exact decide_eq_false kept

theorem deleteTracks_contents (unique : l.Unique) {p : TrackRow → Bool}
    (stay : ∀ t ∈ l.tracksOf id, p t = false) : (l.deleteTracks p).contents id = l.contents id := by
  apply contents_congr
  · rfl
  · rfl
  · apply filter_deleteWhere_of_disjoint
    intro t ht own
    exact stay t (List.mem_filter.mpr ⟨ht, own⟩)
  · intro t ht
    exact deleteTracks_creditsOf unique (List.mem_filter.mp ht).1 (stay t ht)

theorem deleteAlbums_contents (unique : l.Unique) {p : AlbumRow → Bool} {a : AlbumRow}
    (ha : a ∈ l.albums) (stays : p a = false) :
    (l.deleteAlbums p).contents a.id = l.contents a.id := by
  have kept : a.id ∉ deletedKeys AlbumRow.id p l.albums := by
    rw [unique.albumIDs.key_deleted ha, stays]
    exact Bool.false_ne_true
  have tracks : (l.deleteTracks fun r => r.albumID ∈ deletedKeys AlbumRow.id p l.albums).contents
      a.id = l.contents a.id := by
    apply deleteTracks_contents unique
    intro t ht
    rw [(mem_tracksOf.mp ht).2]
    exact decide_eq_false kept
  have artists : (l.deleteAlbums p).artistsOf a.id = l.artistsOf a.id := by
    apply filter_deleteWhere_of_disjoint
    intro r _ own
    rw [of_decide_eq_true own]
    exact decide_eq_false kept
  have images : (l.deleteAlbums p).imagesOf a.id = l.imagesOf a.id := by
    apply filter_deleteWhere_of_disjoint
    intro r _ own
    rw [of_decide_eq_true own]
    exact decide_eq_false kept
  exact contents_congr artists images (tracksOf_of_contents tracks :)
    fun _ ht => (creditsOf_of_contents tracks ht :)

end LibraryTables

namespace Database

open LibraryTables

variable {db db' : Database} {albumID trackID id : UUID}

/-! ### Artists and credits -/

/-- The rows for the artists of an album: the first credit of each, at its place. -/
def albumArtistRows (albumID : UUID) (artists : List AlbumArtist) : List AlbumArtistRow :=
  (artists.zipIdx.eraseDupsBy fun a b => a.1.artistID = b.1.artistID).map fun (aa, i) =>
    ⟨albumID, aa.artistID, aa.creditedName, i⟩

/-- The rows for the credits of a track: the first of each artist and role. -/
def trackCreditRows (trackID : UUID) (credits : List TrackCredit) : List TrackCreditRow :=
  (credits.eraseDupsBy fun a b => (a.artistID, a.role) = (b.artistID, b.role)).map fun c =>
    ⟨trackID, c.artistID, c.creditedName, c.role⟩

theorem insertAlbumArtists_spec {artists : List (AlbumArtist × Nat)}
    (h : insertAlbumArtists albumID artists db = .ok db') :
    db'.library.albumArtists = insertAllOrIgnore albumArtistConflict
      (artists.map fun (aa, i) => ⟨albumID, aa.artistID, aa.creditedName, i⟩)
      db.library.albumArtists := by
  induction artists generalizing db with
  | nil => cases h; rfl
  | cons aa rest ih =>
    obtain ⟨mid, first, second⟩ := bind_ok h
    rw [ih second, (write_spec first).2]
    rfl

theorem insertTrackCredits_spec {credits : List TrackCredit}
    (h : insertTrackCredits trackID credits db = .ok db') :
    db'.library.trackCredits = insertAllOrIgnore (fun a b => a.key = b.key)
      (credits.map fun c => ⟨trackID, c.artistID, c.creditedName, c.role⟩)
      db.library.trackCredits := by
  induction credits generalizing db with
  | nil => cases h; rfl
  | cons c rest ih =>
    obtain ⟨mid, first, second⟩ := bind_ok h
    rw [ih second, (write_spec first).2]
    rfl

theorem replaceAlbumArtists_spec {artists : List AlbumArtist}
    (h : replaceAlbumArtists albumID artists db = .ok db') :
    db'.library.albumArtists = insertAllOrIgnore albumArtistConflict
      (artists.zipIdx.map fun (aa, i) => ⟨albumID, aa.artistID, aa.creditedName, i⟩)
      (deleteWhere (fun a => a.albumID = albumID) db.library.albumArtists) := by
  obtain ⟨mid, first, second⟩ := bind_ok h
  rw [insertAlbumArtists_spec second, (write_spec first).2]

theorem replaceTrackCredits_spec {credits : List TrackCredit}
    (h : replaceTrackCredits trackID credits db = .ok db') :
    db'.library.trackCredits = insertAllOrIgnore (fun a b => a.key = b.key)
      (credits.map fun c => ⟨trackID, c.artistID, c.creditedName, c.role⟩)
      (deleteWhere (fun c => c.trackID = trackID) db.library.trackCredits) := by
  obtain ⟨mid, first, second⟩ := bind_ok h
  rw [insertTrackCredits_spec second, (write_spec first).2]

theorem replaceAlbumArtists_self {artists : List AlbumArtist}
    (h : replaceAlbumArtists albumID artists db = .ok db') :
    db'.library.artistsOf albumID = albumArtistRows albumID artists := by
  have within : ∀ a b : AlbumArtistRow, albumArtistConflict a b = true → a.albumID = b.albumID := by
    intro a b hit
    rcases (Bool.or_eq_true _ _).mp hit with slot | key
    · exact congrArg Prod.fst (of_decide_eq_true slot)
    · exact congrArg Prod.fst (of_decide_eq_true key)
  unfold artistsOf
  rw [replaceAlbumArtists_spec h, filter_replaced, eraseDupsBy_map]
  · -- the places are different, so only the artists can conflict
    unfold albumArtistRows
    congr 1
    have places : (artists.zipIdx.map Prod.snd).Nodup := by
      rw [List.zipIdx_map_snd]
      exact List.nodup_range'
    apply eraseDupsBy_congr
    refine (List.pairwise_map.mp places).imp ?_
    intro a b apart
    simp [albumArtistConflict, AlbumArtistRow.slot, AlbumArtistRow.key, apart.symm]
  · intro r hr
    obtain ⟨aa, _, rfl⟩ := List.mem_map.mp hr
    exact decide_eq_true rfl
  · intro r hr a hit
    obtain ⟨aa, _, rfl⟩ := List.mem_map.mp hr
    exact decide_eq_true (within _ _ hit).symm

theorem replaceAlbumArtists_ne {artists : List AlbumArtist}
    (h : replaceAlbumArtists albumID artists db = .ok db') (other : id ≠ albumID) :
    db'.library.artistsOf id = db.library.artistsOf id := by
  unfold artistsOf
  rw [replaceAlbumArtists_spec h]
  apply filter_replaced_of_disjoint
  · intro a _ own
    rw [of_decide_eq_true own]
    exact decide_eq_false other
  · intro r hr
    obtain ⟨aa, _, rfl⟩ := List.mem_map.mp hr
    exact decide_eq_false other.symm

theorem replaceTrackCredits_self {credits : List TrackCredit}
    (h : replaceTrackCredits trackID credits db = .ok db') :
    db'.library.creditsOf trackID = trackCreditRows trackID credits := by
  unfold creditsOf
  rw [replaceTrackCredits_spec h, filter_replaced, eraseDupsBy_map]
  · unfold trackCreditRows
    simp [TrackCreditRow.key]
  · intro r hr
    obtain ⟨c, _, rfl⟩ := List.mem_map.mp hr
    exact decide_eq_true rfl
  · intro r hr a hit
    obtain ⟨c, _, rfl⟩ := List.mem_map.mp hr
    exact decide_eq_true (congrArg Prod.fst (of_decide_eq_true hit)).symm

theorem replaceTrackCredits_ne {credits : List TrackCredit}
    (h : replaceTrackCredits trackID credits db = .ok db') (other : id ≠ trackID) :
    db'.library.creditsOf id = db.library.creditsOf id := by
  unfold creditsOf
  rw [replaceTrackCredits_spec h]
  apply filter_replaced_of_disjoint
  · intro c _ own
    rw [of_decide_eq_true own]
    exact decide_eq_false other
  · intro r hr
    obtain ⟨c, _, rfl⟩ := List.mem_map.mp hr
    exact decide_eq_false other.symm

/-! ### Image links -/

theorem upsertAlbumImages_ne {cover : Bool} {images : List AlbumImage}
    (h : upsertAlbumImages albumID cover images db = .ok db') (other : id ≠ albumID) :
    db'.library.imagesOf id = db.library.imagesOf id := by
  induction images generalizing db with
  | nil => cases h; rfl
  | cons img rest ih =>
    obtain ⟨mid, first, second⟩ := bind_ok h
    rw [ih second, (write_spec first).2]
    apply filter_upsertOn_of_disjoint
    · exact decide_eq_false other.symm
    · intro r _ key
      have own : r.albumID = albumID := congrArg Prod.fst key
      have outside : r.albumID ≠ id := own ▸ other.symm
      exact ⟨decide_eq_false outside, decide_eq_false outside⟩

theorem replaceAlbumImages_ne {images : List AlbumImage}
    (h : replaceAlbumImages albumID images db = .ok db') (other : id ≠ albumID) :
    db'.library.imagesOf id = db.library.imagesOf id := by
  obtain ⟨mid, first, second⟩ := bind_ok h
  rw [upsertAlbumImages_ne second other, (write_spec first).2]
  apply filter_deleteWhere_of_disjoint
  intro i _ own
  rw [stale, of_decide_eq_true own]
  simp [other]

/-! ### Tracks -/

section Tracks

variable {ts : List Track} {kept : List UUID}

/-- The row of a track after its upsert. -/
theorem exists_upserted {t : Track}
    (h : upsertTrack { t with albumID } db = .ok (db', trackID)) :
    ∃ row ∈ db'.library.tracks, row.key = t.key ∧ row.id = trackID ∧ row.albumID = albumID ∧
      row.details = t.details := by
  have written := upsertTrack_written h
  refine ⟨_, mem_of_lookup written, key_of_lookup written, (upsertTrack_spec h).2.symm, ?_⟩
  unfold upserted
  cases lookup TrackRow.key (newTrack { t with albumID }).key db.library.tracks <;>
    exact ⟨rfl, rfl⟩

/-- A track at another file or offset stays as it is. -/
theorem upsertTrack_keepsOther {t : Track} (h : upsertTrack { t with albumID } db = .ok (db', trackID))
    {r : TrackRow} (hr : r ∈ db.library.tracks) (other : r.key ≠ t.key) :
    r ∈ db'.library.tracks ∧ r.id ≠ trackID := by
  have stays : r ∈ db'.library.tracks := by
    rw [(upsertTrack_spec h).1]
    exact upsertOn_keeps_of_ne hr other
  refine ⟨stays, ?_⟩
  intro same
  obtain ⟨row, hrow, keyRow, idRow, _⟩ := exists_upserted h
  obtain rfl := db'.unique.trackIDs.eq_of_key stays hrow (same.trans idRow.symm)
  exact other keyRow

theorem importTracks_keepsOther (h : importTracks albumID ts db = .ok (db', kept)) {r : TrackRow}
    (hr : r ∈ db.library.tracks) (other : r.key ∉ ts.map Track.key) :
    r ∈ db'.library.tracks ∧ db'.library.creditsOf r.id = db.library.creditsOf r.id := by
  induction ts generalizing db kept with
  | nil => cases h; exact ⟨hr, rfl⟩
  | cons t rest ih =>
    obtain ⟨stored, credited, trackID, later, first, second, third, _⟩ := importTracks_cons h
    rw [List.map_cons, List.mem_cons, not_or] at other
    obtain ⟨here, later⟩ := other
    obtain ⟨stays, apart⟩ := upsertTrack_keepsOther first hr here
    have tracks : Keeps LibraryTables.tracks stored credited :=
      replaceTrackCredits_keeps (fun _ _ => rfl) second
    have credits : Keeps (creditsOf r.id) db stored := upsertTrack_keeps (fun _ _ => rfl) first
    rw [← tracks.2] at stays
    obtain ⟨there, same⟩ := ih third stays later
    refine ⟨there, ?_⟩
    rw [same, replaceTrackCredits_ne second apart, credits.2]

theorem importTracks_tracksOf (h : importTracks albumID ts db = .ok (db', kept))
    (other : id ≠ albumID) (clear : ∀ r ∈ db.library.tracksOf id, r.key ∉ ts.map Track.key) :
    db'.library.tracksOf id = db.library.tracksOf id := by
  induction ts generalizing db kept with
  | nil => cases h; rfl
  | cons t rest ih =>
    obtain ⟨stored, credited, trackID, later, first, second, third, _⟩ := importTracks_cons h
    have one : stored.library.tracksOf id = db.library.tracksOf id := by
      unfold tracksOf
      rw [(upsertTrack_spec first).1]
      apply filter_upsertOn_of_disjoint
      · exact decide_eq_false other.symm
      · intro r hr key
        refine ⟨decide_eq_false ?_, decide_eq_false other.symm⟩
        intro own
        have listed : r.key ∈ (t :: rest).map Track.key := key ▸ List.mem_cons_self
        exact clear r (mem_tracksOf.mpr ⟨hr, own⟩) listed
    have two : Keeps (tracksOf id) stored credited :=
      replaceTrackCredits_keeps (fun _ _ => rfl) second
    have same := two.2.trans one
    rw [ih third, same]
    rw [same]
    exact fun r hr listed => clear r hr (List.mem_cons_of_mem _ listed)

end Tracks

/-! ### One album of the payload -/

section Imports

variable {al : ImportAlbum} {albums : List ImportAlbum} {kept : List UUID} {a : AlbumRow}

theorem importAlbum_artistsOf (h : importAlbum al db = .ok (db', albumID)) :
    db'.library.artistsOf albumID = albumArtistRows albumID al.album.artists ∧
      ∀ id, id ≠ albumID → db'.library.artistsOf id = db.library.artistsOf id := by
  obtain ⟨stored, credited, linked, listed, keptTracks, first, second, third, fourth, rfl⟩ :=
    importAlbum_steps h
  have after : Keeps LibraryTables.albumArtists credited listed :=
    (replaceAlbumImages_keeps (fun _ _ => rfl) third).trans
      (importTracks_keeps (fun _ _ _ => rfl) fourth)
  have same : ∀ id, listed.library.artistsOf id = credited.library.artistsOf id := by
    intro id
    unfold artistsOf
    rw [after.2]
  refine ⟨(same albumID).trans (replaceAlbumArtists_self second), ?_⟩
  intro id other
  have before : Keeps (artistsOf id) db stored := upsertAlbum_keeps (fun _ _ => rfl) first
  exact (same id).trans ((replaceAlbumArtists_ne second other).trans before.2)

/-- An album that is not the imported one keeps what is under it, if no track of it is listed. -/
theorem importAlbum_contents (h : importAlbum al db = .ok (db', albumID)) (other : id ≠ albumID)
    (clear : ∀ r ∈ db.library.tracksOf id, ¬al.Lists r.key) :
    db'.library.contents id = db.library.contents id := by
  have artists := (importAlbum_artistsOf h).2 id other
  obtain ⟨stored, credited, linked, listed, keptTracks, first, second, third, fourth, rfl⟩ :=
    importAlbum_steps h
  have links : Keeps (imagesOf id) db credited :=
    (upsertAlbum_keeps (fun _ _ => rfl) first).trans
      (replaceAlbumArtists_keeps (fun _ _ => rfl) second)
  have images : Keeps (imagesOf id) linked listed := importTracks_keeps (fun _ _ _ => rfl) fourth
  have tracks : Keeps (fun l => (l.tracks, l.trackCredits)) db linked :=
    ((upsertAlbum_keeps (fun _ _ => rfl) first).trans
      (replaceAlbumArtists_keeps (fun _ _ => rfl) second)).trans
        (replaceAlbumImages_keeps (fun _ _ => rfl) third)
  obtain ⟨rows, credits⟩ := Prod.mk.inj tracks.2
  have under : linked.library.tracksOf id = db.library.tracksOf id := by
    unfold tracksOf
    rw [rows]
  have free : ∀ r ∈ linked.library.tracksOf id, r.key ∉ al.tracks.map Track.key := by
    rw [under]
    exact clear
  have loop : listed.library.contents id = db.library.contents id := by
    refine contents_congr artists ?_ ?_ ?_
    · rw [images.2, replaceAlbumImages_ne third other, links.2]
    · rw [importTracks_tracksOf fourth other free, under]
    · intro t ht
      rw [← under] at ht
      rw [(importTracks_keepsOther fourth (mem_tracksOf.mp ht).1 (free t ht)).2]
      unfold creditsOf
      rw [credits]
  rw [← loop]
  apply deleteTracks_contents listed.unique
  intro t ht
  simp [stale, (mem_tracksOf.mp ht).2, other]

/-- An album with another key stays as it is. -/
theorem importAlbum_keepsOther (h : importAlbum al db = .ok (db', albumID))
    (ha : a ∈ db.library.albums) (other : a.key ≠ al.key) :
    a ∈ db'.library.albums ∧ a.id ≠ albumID := by
  have stays : a ∈ db'.library.albums := by
    rw [(importAlbum_albums h).2.1]
    exact upsertOn_keeps_of_ne ha other
  refine ⟨stays, ?_⟩
  rintro rfl
  have own := albumKey_of_mem stays
  rw [importAlbum_key h] at own
  exact other (Option.some.inj own).symm

theorem importAlbums_contents (h : importAlbums albums db = .ok (db', kept))
    (ha : a ∈ db.library.albums) (other : ∀ al ∈ albums, a.key ≠ al.key)
    (clear : ∀ al ∈ albums, ∀ r ∈ db.library.tracksOf a.id, ¬al.Lists r.key) :
    a ∈ db'.library.albums ∧ db'.library.contents a.id = db.library.contents a.id := by
  induction albums generalizing db kept with
  | nil => cases h; exact ⟨ha, rfl⟩
  | cons al rest ih =>
    obtain ⟨mid, albumID, later, first, second, _⟩ := importAlbums_cons h
    obtain ⟨here, others⟩ := List.forall_mem_cons.mp other
    obtain ⟨clearHere, clearLater⟩ := List.forall_mem_cons.mp clear
    obtain ⟨stays, apart⟩ := importAlbum_keepsOther first ha here
    have one := importAlbum_contents first apart clearHere
    have free : ∀ al ∈ rest, ∀ r ∈ mid.library.tracksOf a.id, ¬al.Lists r.key := by
      rw [tracksOf_of_contents one]
      exact clearLater
    obtain ⟨there, same⟩ := ih second stays others free
    exact ⟨there, same.trans one⟩

end Imports

end Database

end Byom.Sqlite
