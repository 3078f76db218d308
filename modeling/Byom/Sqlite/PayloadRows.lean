import Byom.Sqlite.AlbumContents
import Byom.Sqlite.RowIdentity

/-!
# The rows of a payload

The last album with a key decides what the row carries. A track of the payload that is
there after the loop has the data and the credits of the one album that lists it.
-/

namespace Byom.Sqlite

open Storage Relational Library Metadata

namespace Database

open LibraryTables

variable {db db' : Database} {al other : ImportAlbum} {albums : List ImportAlbum} {a : AlbumRow}
  {t : Track} {albumID : UUID} {kept : List UUID}

/-! ### What an album row carries -/

/-- The metadata, the sort name and the artists of a payload album. -/
structure Carries (al : ImportAlbum) (a : AlbumRow) (db : Database) : Prop where
  details : a.details = al.album.details
  artistSort : a.artistSort = db.artistSort al.album.artists
  artists : db.library.artistsOf a.id = albumArtistRows a.id al.album.artists

theorem artistSort_congr (same : db'.library.artists = db.library.artists)
    (artists : List AlbumArtist) : db'.artistSort artists = db.artistSort artists := by
  unfold artistSort
  rw [same]

theorem importAlbum_artists (h : importAlbum al db = .ok (db', albumID)) :
    db'.library.artists = db.library.artists := by
  have kept : Keeps LibraryTables.artists db db' := importAlbum_keeps (fun _ _ _ _ _ _ => rfl) h
  exact kept.2

theorem importAlbum_carries (h : importAlbum al db = .ok (db', albumID)) :
    ∃ a ∈ db'.library.albums, a.key = al.key ∧ Carries al a db' := by
  obtain ⟨_, rows, id⟩ := importAlbum_albums h
  have written := lookup_upsertOn_self (newAlbum al.album db) db.library.albums
    (refreshAlbum_key al.album db)
  rw [← rows] at written
  have tags : (upserted AlbumRow.key (refreshAlbum al.album db) (newAlbum al.album db)
        db.library.albums).details = al.album.details ∧
      (upserted AlbumRow.key (refreshAlbum al.album db) (newAlbum al.album db)
        db.library.albums).artistSort = db.artistSort al.album.artists := by
    unfold upserted
    cases lookup AlbumRow.key (newAlbum al.album db).key db.library.albums <;> exact ⟨rfl, rfl⟩
  refine ⟨_, mem_of_lookup written, key_of_lookup written, tags.1, ?_, ?_⟩
  · rw [tags.2, artistSort_congr (importAlbum_artists h)]
  · rw [← id]
    exact (importAlbum_artistsOf h).1

theorem importAlbum_keepsCarries (h : importAlbum other db = .ok (db', albumID))
    (ha : a ∈ db.library.albums) (apart : a.key ≠ other.key) (carries : Carries al a db) :
    a ∈ db'.library.albums ∧ Carries al a db' := by
  obtain ⟨stays, ne⟩ := importAlbum_keepsOther h ha apart
  refine ⟨stays, carries.details, ?_, ?_⟩
  · rw [artistSort_congr (importAlbum_artists h)]
    exact carries.artistSort
  · rw [(importAlbum_artistsOf h).2 a.id ne]
    exact carries.artists

theorem importAlbums_keepsCarries (h : importAlbums albums db = .ok (db', kept))
    (ha : a ∈ db.library.albums) (apart : ∀ other ∈ albums, a.key ≠ other.key)
    (carries : Carries al a db) : a ∈ db'.library.albums ∧ Carries al a db' := by
  induction albums generalizing db kept with
  | nil => cases h; exact ⟨ha, carries⟩
  | cons other rest ih =>
    obtain ⟨mid, albumID, later, first, second, _⟩ := importAlbums_cons h
    obtain ⟨here, others⟩ := List.forall_mem_cons.mp apart
    obtain ⟨stays, still⟩ := importAlbum_keepsCarries first ha here carries
    exact ih second stays others still

/-- The last album of the payload with a key. -/
def lastWith (key : UUID × String) (albums : List ImportAlbum) : Option ImportAlbum :=
  (albums.filter fun al => al.key = key).getLast?

/-- The last album with a key decides. -/
theorem importAlbums_carries (h : importAlbums albums db = .ok (db', kept))
    {key : UUID × String} (last : lastWith key albums = some al) :
    ∃ a ∈ db'.library.albums, a.key = key ∧ Carries al a db' := by
  induction albums generalizing db kept with
  | nil => cases last
  | cons first rest ih =>
    obtain ⟨mid, albumID, later, one, others, _⟩ := importAlbums_cons h
    cases again : lastWith key rest with
    | some al' =>
      have same : lastWith key (first :: rest) = some al' := by
        unfold lastWith at again ⊢
        rw [List.filter_cons]
        split
        · rw [List.getLast?_cons, again, Option.getD_some]
        · exact again
      obtain rfl : al' = al := Option.some.inj (same.symm.trans last)
      exact ih others again
    | none =>
      have absent := List.getLast?_eq_none_iff.mp again
      unfold lastWith at last
      rw [List.filter_cons, absent] at last
      split at last
      · rename_i own
        obtain rfl : first = al := Option.some.inj last
        have own : first.key = key := of_decide_eq_true own
        obtain ⟨a, ha, keyA, carries⟩ := importAlbum_carries one
        have apart : ∀ other ∈ rest, a.key ≠ other.key := by
          intro other hother same
          have hit := List.filter_eq_nil_iff.mp absent other hother
          exact hit (decide_eq_true (same.symm.trans (keyA.trans own)))
        obtain ⟨stays, still⟩ := importAlbums_keepsCarries others ha apart carries
        exact ⟨a, stays, keyA.trans own, still⟩
      · cases last

/-! ### What a track row carries -/

/-- If there is a row at the file and offset of a track, it has the track's data and credits
and is under its album. -/
def Holds (al : ImportAlbum) (t : Track) (db : Database) : Prop :=
  ∀ r ∈ db.library.tracks, r.key = t.key → r.details = t.details ∧
    db.albumKey r.albumID = some al.key ∧
      db.library.creditsOf r.id = trackCreditRows r.id t.credits

theorem importTracks_stores {ts : List Track} (h : importTracks albumID ts db = .ok (db', kept))
    (distinct : (ts.map Track.key).Nodup) (ht : t ∈ ts) :
    ∃ r ∈ db'.library.tracks, r.key = t.key ∧ r.details = t.details ∧ r.albumID = albumID ∧
      db'.library.creditsOf r.id = trackCreditRows r.id t.credits := by
  induction ts generalizing db kept with
  | nil => cases ht
  | cons first rest ih =>
    obtain ⟨stored, credited, trackID, later, one, credits, others, _⟩ := importTracks_cons h
    rw [List.map_cons, List.nodup_cons] at distinct
    obtain ⟨apart, distinct⟩ := distinct
    rcases List.mem_cons.mp ht with rfl | ht
    · obtain ⟨row, hrow, key, rfl, owner, details⟩ := exists_upserted one
      have tracks : Keeps LibraryTables.tracks stored credited :=
        replaceTrackCredits_keeps (fun _ _ => rfl) credits
      rw [← tracks.2] at hrow
      rw [← key] at apart
      obtain ⟨stays, same⟩ := importTracks_keepsOther others hrow apart
      refine ⟨row, stays, key, details, owner, ?_⟩
      rw [same, replaceTrackCredits_self credits]
    · exact ih others distinct ht

theorem importAlbum_holds (h : importAlbum al db = .ok (db', albumID))
    (distinct : (al.tracks.map Track.key).Nodup) (ht : t ∈ al.tracks) : Holds al t db' := by
  have own := importAlbum_key h
  obtain ⟨stored, credited, linked, listed, keptTracks, first, second, third, fourth, rfl⟩ :=
    importAlbum_steps h
  intro r hr key
  obtain ⟨hr, stays⟩ := mem_deleteWhere.mp hr
  obtain ⟨row, hrow, keyRow, details, owner, credits⟩ := importTracks_stores fourth distinct ht
  obtain rfl := listed.unique.trackKeys.eq_of_key hr hrow (key.trans keyRow.symm)
  refine ⟨details, owner ▸ own, ?_⟩
  rw [← credits]
  exact deleteTracks_creditsOf listed.unique hr stays

/-- A row that the album does not list comes through its import as it was, if at all. -/
theorem importAlbum_track (h : importAlbum other db = .ok (db', albumID)) {r : TrackRow}
    (hr : r ∈ db'.library.tracks) (absent : ¬other.Lists r.key) :
    r ∈ db.library.tracks ∧ db'.library.creditsOf r.id = db.library.creditsOf r.id := by
  have before : r ∈ db.library.tracks := by
    have found := db'.unique.trackKeys.lookup_of_mem hr
    have unlisted : other.tracks.filter (fun t => t.key = r.key) = [] := by
      rw [List.filter_eq_nil_iff]
      intro t ht same
      exact absent (List.mem_map.mpr ⟨t, ht, of_decide_eq_true same⟩)
    rw [importAlbum_lookup h, listTrack, unlisted, Option.filter_eq_some_iff] at found
    exact mem_of_lookup found.1
  refine ⟨before, ?_⟩
  obtain ⟨stored, credited, linked, listed, keptTracks, first, second, third, fourth, rfl⟩ :=
    importAlbum_steps h
  have same : Keeps (fun l => (l.tracks, l.trackCredits)) db linked :=
    ((upsertAlbum_keeps (fun _ _ => rfl) first).trans
      (replaceAlbumArtists_keeps (fun _ _ => rfl) second)).trans
        (replaceAlbumImages_keeps (fun _ _ => rfl) third)
  obtain ⟨tracks, credits⟩ := Prod.mk.inj same.2
  obtain ⟨hr, stays⟩ := mem_deleteWhere.mp hr
  refine (deleteTracks_creditsOf listed.unique hr stays).trans ?_
  rw [(importTracks_keepsOther fourth (tracks ▸ before) absent).2]
  unfold creditsOf
  rw [credits]

theorem importAlbum_keepsHolds (h : importAlbum other db = .ok (db', albumID))
    (absent : ¬other.Lists t.key) (holds : Holds al t db) : Holds al t db' := by
  intro r hr key
  rw [← key] at absent
  obtain ⟨before, credits⟩ := importAlbum_track h hr absent
  obtain ⟨details, owner, rows⟩ := holds r before key
  exact ⟨details, importAlbum_keepsKey h owner, credits.trans rows⟩

theorem importAlbums_keepsHolds (h : importAlbums albums db = .ok (db', kept))
    (absent : ∀ other ∈ albums, ¬other.Lists t.key) (holds : Holds al t db) : Holds al t db' := by
  induction albums generalizing db kept with
  | nil => cases h; exact holds
  | cons other rest ih =>
    obtain ⟨mid, albumID, later, first, second, _⟩ := importAlbums_cons h
    obtain ⟨here, others⟩ := List.forall_mem_cons.mp absent
    exact ih second others (importAlbum_keepsHolds first here holds)

/-- Of a payload that lists every track once, the rows are those of the album that lists them. -/
theorem importAlbums_holds (h : importAlbums albums db = .ok (db', kept))
    (distinct : ((albums.flatMap ImportAlbum.tracks).map Track.key).Nodup)
    (hal : al ∈ albums) (ht : t ∈ al.tracks) : Holds al t db' := by
  induction albums generalizing db kept with
  | nil => cases hal
  | cons first rest ih =>
    obtain ⟨mid, albumID, later, one, others, _⟩ := importAlbums_cons h
    rw [List.flatMap_cons, List.map_append, List.nodup_append] at distinct
    obtain ⟨own, distinct, apart⟩ := distinct
    rcases List.mem_cons.mp hal with rfl | hal
    · apply importAlbums_keepsHolds others ?_ (importAlbum_holds one own ht)
      intro other hother lists
      obtain ⟨u, hu, same⟩ := List.mem_map.mp lists
      have again : t.key ∈ (rest.flatMap ImportAlbum.tracks).map Track.key :=
        List.mem_map.mpr ⟨u, List.mem_flatMap.mpr ⟨other, hother, hu⟩, same⟩
      exact apart _ (List.mem_map_of_mem ht) _ again rfl
    · exact ih others distinct hal

/-- The delete of albums takes tracks along, and leaves the others as they are. -/
theorem deleteAlbums_holds {p : AlbumRow → Bool} (holds : Holds al t db) :
    Holds al t (db.deleteAlbums p) := by
  intro r hr key
  obtain ⟨b, hb, owner⟩ := (db.deleteAlbums p).referenced.trackAlbums.exists_parent hr
  obtain ⟨hr, stays⟩ := mem_deleteWhere.mp hr
  obtain ⟨details, owned, credits⟩ := holds r hr key
  refine ⟨details, ?_, ?_⟩
  · rw [← owner, albumKey_of_mem (mem_deleteWhere.mp hb).1] at owned
    rw [← owner, albumKey_of_mem hb]
    exact owned
  · exact (deleteTracks_creditsOf db.unique hr stays).trans credits

end Database

end Byom.Sqlite
