import Byom.Sqlite.PrimaryVersion

/-!
# Tracks by file and offset

`trackAt` reads the tables as a map from a file and an offset to the track there
and the key of its album. On that map the import of one album is `claimTrack`,
and `ReplaceDirAlbums` is one pass of it over the payload.
-/

namespace Byom.Library

/-- `UNIQUE (file_id, start_offset_ns)`. -/
def Track.key (t : Track) : Storage.UUID × Int := (t.fileID, t.startOffset)

end Byom.Library

namespace Byom.Metadata

open Storage Library

/-- The columns an album matches an existing row on. -/
def ImportAlbum.key (al : ImportAlbum) : UUID × String := (al.album.dirID, al.album.groupKey)

/-- The album lists a track at the file and offset. -/
def ImportAlbum.Lists (al : ImportAlbum) (key : UUID × Int) : Prop := key ∈ al.tracks.map Track.key

instance (al : ImportAlbum) (key : UUID × Int) : Decidable (al.Lists key) :=
  inferInstanceAs (Decidable (key ∈ al.tracks.map Track.key))

end Byom.Metadata

namespace Byom.Sqlite

open Storage Relational Library Metadata

/-- A track, and the key of the album it is under. -/
structure TrackView where
  id : UUID
  owner : UUID × String
  details : TrackDetails
  deriving DecidableEq, Repr

/-- The import of one album, seen at a file and offset. A track that is listed comes
under the album and keeps its ID; one that is not, and is under the album, is deleted. -/
def claimTrack (al : ImportAlbum) (key : UUID × Int) (old : Option TrackView) :
    Option TrackView :=
  match al.tracks.filter fun t => t.key = key with
  | [] => old.filter fun view => view.owner ≠ al.key
  | t :: later =>
    some ⟨(old.map TrackView.id).getD t.id, al.key, (later.getLast?.getD t).details⟩

/-- The import of one album after the other. -/
def claimTracks (key : UUID × Int) : List ImportAlbum → Option TrackView → Option TrackView
  | [], view => view
  | al :: rest, view => claimTracks key rest (claimTrack al key view)

namespace Database

variable {db db' : Database} {id albumID : UUID} {key : UUID × Int}

/-- The key of the album with an ID. -/
def albumKey (id : UUID) (db : Database) : Option (UUID × String) :=
  (lookup AlbumRow.id id db.library.albums).map AlbumRow.key

def viewOf (db : Database) (t : TrackRow) : Option TrackView :=
  (db.albumKey t.albumID).map fun owner => ⟨t.id, owner, t.details⟩

def trackAt (key : UUID × Int) (db : Database) : Option TrackView :=
  (lookup TrackRow.key key db.library.tracks).bind db.viewOf

theorem albumKey_eq_some_iff {k : UUID × String} :
    db.albumKey id = some k ↔ ∃ a ∈ db.library.albums, a.id = id ∧ a.key = k := by
  unfold albumKey
  rw [Option.map_eq_some_iff]
  simp [db.unique.albumIDs.lookup_eq_some_iff, and_assoc]

theorem albumKey_of_mem {a : AlbumRow} (ha : a ∈ db.library.albums) :
    db.albumKey a.id = some a.key :=
  albumKey_eq_some_iff.mpr ⟨a, ha, rfl, rfl⟩

theorem albumKey_inj {i j : UUID} {k : UUID × String} (hi : db.albumKey i = some k)
    (hj : db.albumKey j = some k) : i = j := by
  obtain ⟨a, ha, rfl, keyA⟩ := albumKey_eq_some_iff.mp hi
  obtain ⟨b, hb, rfl, keyB⟩ := albumKey_eq_some_iff.mp hj
  rw [db.unique.albumKeys.eq_of_key ha hb (keyA.trans keyB.symm)]

/-- The foreign key: every track has its view. -/
theorem exists_albumKey {t : TrackRow} (ht : t ∈ db.library.tracks) :
    ∃ k, db.albumKey t.albumID = some k := by
  obtain ⟨a, ha, same⟩ := db.referenced.trackAlbums.exists_parent ht
  exact ⟨a.key, albumKey_eq_some_iff.mpr ⟨a, ha, same, rfl⟩⟩

theorem trackAt_eq_some_iff {view : TrackView} : db.trackAt key = some view ↔
    ∃ t ∈ db.library.tracks, t.key = key ∧ t.id = view.id ∧ t.details = view.details ∧
      db.albumKey t.albumID = some view.owner := by
  unfold trackAt viewOf
  rw [Option.bind_eq_some_iff]
  constructor
  · rintro ⟨t, found, read⟩
    obtain ⟨owner, owned, rfl⟩ := Option.map_eq_some_iff.mp read
    exact ⟨t, mem_of_lookup found, key_of_lookup found, rfl, rfl, owned⟩
  · rintro ⟨t, ht, same, idT, detailsT, owned⟩
    refine ⟨t, db.unique.trackKeys.lookup_eq_some_iff.mpr ⟨ht, same⟩, ?_⟩
    rw [owned, idT, detailsT]
    rfl

/-! ### The loop over the tracks of an album -/

/-- What the loop leaves at a file and offset. -/
def listTrack (albumID : UUID) (ts : List Track) (key : UUID × Int) (old : Option TrackRow) :
    Option TrackRow :=
  match ts.filter fun t => t.key = key with
  | [] => old
  | t :: later =>
    some ⟨(old.map TrackRow.id).getD t.id, albumID, (later.getLast?.getD t).details, key.1, key.2⟩

@[simp] theorem listTrack_nil (albumID : UUID) (key : UUID × Int) (old : Option TrackRow) :
    listTrack albumID [] key old = old := rfl

theorem listTrack_cons_ne {t : Track} {rest : List Track} {old : Option TrackRow}
    (other : t.key ≠ key) :
    listTrack albumID (t :: rest) key old = listTrack albumID rest key old := by
  simp [listTrack, other]

theorem listTrack_cons_self {t : Track} {rest : List Track} {old : Option TrackRow} :
    listTrack albumID (t :: rest) t.key old = listTrack albumID rest t.key
      (some ⟨(old.map TrackRow.id).getD t.id, albumID, t.details, t.fileID, t.startOffset⟩) := by
  unfold listTrack
  rw [List.filter_cons_of_pos (by simp)]
  cases rest.filter fun u => u.key = t.key with
  | nil => rfl
  | cons u later => simp [List.getLast?_cons]

theorem exists_listTrack (albumID : UUID) (ts : List Track) (key : UUID × Int) (old : TrackRow) :
    ∃ row, listTrack albumID ts key (some old) = some row ∧ row.id = old.id := by
  unfold listTrack
  cases ts.filter fun t => t.key = key with
  | nil => exact ⟨old, rfl, rfl⟩
  | cons t later => exact ⟨_, rfl, rfl⟩

theorem upsertTrack_written {t : Track} {trackID : UUID}
    (h : upsertTrack { t with albumID } db = .ok (db', trackID)) :
    lookup TrackRow.key t.key db'.library.tracks = some (upserted TrackRow.key
      (refreshTrack { t with albumID }) (newTrack { t with albumID }) db.library.tracks) := by
  rw [(upsertTrack_spec h).1]
  exact lookup_upsertOn_self (newTrack { t with albumID }) _ fun _ => rfl

theorem upsertTrack_lookup {t : Track} {trackID : UUID}
    (h : upsertTrack { t with albumID } db = .ok (db', trackID)) :
    lookup TrackRow.key key db'.library.tracks =
      listTrack albumID [t] key (lookup TrackRow.key key db.library.tracks) := by
  by_cases same : t.key = key
  · subst same
    rw [upsertTrack_written h, listTrack_cons_self, listTrack_nil, upserted]
    change some ((Option.map _ (lookup TrackRow.key t.key db.library.tracks)).getD _) = _
    cases found : lookup TrackRow.key t.key db.library.tracks with
    | none => rfl
    | some r =>
      have file : r.fileID = t.fileID := congrArg Prod.fst (key_of_lookup found)
      have offset : r.startOffset = t.startOffset := congrArg Prod.snd (key_of_lookup found)
      simp [refreshTrack, file, offset]
  · rw [(upsertTrack_spec h).1, listTrack_cons_ne same, listTrack_nil]
    apply lookup_upsertOn_ne
    · exact fun _ => rfl
    · exact fun h => same h.symm

theorem importTracks_lookup {ts : List Track} {kept : List UUID}
    (h : importTracks albumID ts db = .ok (db', kept)) (key : UUID × Int) :
    lookup TrackRow.key key db'.library.tracks =
      listTrack albumID ts key (lookup TrackRow.key key db.library.tracks) := by
  induction ts generalizing db kept with
  | nil => cases h; rfl
  | cons t rest ih =>
    obtain ⟨stored, credited, trackID, later, first, second, third, _⟩ := importTracks_cons h
    have credits : Keeps LibraryTables.tracks stored credited :=
      replaceTrackCredits_keeps (fun _ _ => rfl) second
    rw [ih third, credits.2, upsertTrack_lookup first]
    by_cases same : t.key = key
    · subst same
      rw [listTrack_cons_self, listTrack_nil, listTrack_cons_self]
    · rw [listTrack_cons_ne same, listTrack_nil, listTrack_cons_ne same]

/-- The IDs the loop keeps are those of the tracks it lists. -/
theorem importTracks_kept {ts : List Track} {kept : List UUID}
    (h : importTracks albumID ts db = .ok (db', kept)) {r : TrackRow}
    (hr : r ∈ db'.library.tracks) : r.id ∈ kept ↔ r.key ∈ ts.map Track.key := by
  induction ts generalizing db kept with
  | nil => cases h; simp
  | cons t rest ih =>
    obtain ⟨stored, credited, trackID, later, first, second, third, rfl⟩ := importTracks_cons h
    have credits : Keeps LibraryTables.tracks stored credited :=
      replaceTrackCredits_keeps (fun _ _ => rfl) second
    -- the row of `t` has the ID that is kept for it
    have listed : ∃ row ∈ db'.library.tracks, row.key = t.key ∧ row.id = trackID := by
      obtain ⟨row, found, same⟩ := exists_listTrack albumID rest t.key (upserted TrackRow.key
        (refreshTrack { t with albumID }) (newTrack { t with albumID }) db.library.tracks)
      rw [← upsertTrack_written first, ← credits.2, ← importTracks_lookup third] at found
      refine ⟨row, mem_of_lookup found, key_of_lookup found, ?_⟩
      rw [same, (upsertTrack_spec first).2]
    obtain ⟨row, hrow, keyRow, idRow⟩ := listed
    rw [List.mem_cons, List.map_cons, List.mem_cons, ih third]
    apply or_congr_left
    constructor
    · intro same
      rw [db'.unique.trackIDs.eq_of_key hr hrow (same.trans idRow.symm), keyRow]
    · intro same
      rw [db'.unique.trackKeys.eq_of_key hr hrow (same.trans keyRow.symm), idRow]

/-! ### One album, and the whole payload -/

section Imports

variable {al : ImportAlbum}

theorem importAlbum_keepsKey (h : importAlbum al db = .ok (db', albumID)) {k : UUID × String}
    (owned : db.albumKey id = some k) : db'.albumKey id = some k := by
  obtain ⟨a, ha, rfl, rfl⟩ := albumKey_eq_some_iff.mp owned
  obtain ⟨a', ha', same, key, _⟩ := importAlbum_keepsAlbum h ha
  exact albumKey_eq_some_iff.mpr ⟨a', ha', same, key⟩

theorem importAlbum_key (h : importAlbum al db = .ok (db', albumID)) :
    db'.albumKey albumID = some al.key := by
  obtain ⟨_, albums, rfl⟩ := importAlbum_albums h
  have written := lookup_upsertOn_self (newAlbum al.album db) db.library.albums
    (refreshAlbum_key al.album db)
  rw [← albums] at written
  exact albumKey_eq_some_iff.mpr ⟨_, mem_of_lookup written, rfl, key_of_lookup written⟩

/-- The rows after the loop over the tracks, less those under the album that the loop
did not list. -/
theorem importAlbum_lookup (h : importAlbum al db = .ok (db', albumID)) (key : UUID × Int) :
    lookup TrackRow.key key db'.library.tracks =
      (listTrack albumID al.tracks key (lookup TrackRow.key key db.library.tracks)).filter
        fun r => r.albumID ≠ albumID ∨ al.Lists key := by
  obtain ⟨stored, credited, linked, listed, keptTracks, first, second, third, fourth, rfl⟩ :=
    importAlbum_steps h
  have before : Keeps LibraryTables.tracks db linked :=
    ((upsertAlbum_keeps (fun _ _ => rfl) first).trans
      (replaceAlbumArtists_keeps (fun _ _ => rfl) second)).trans
        (replaceAlbumImages_keeps (fun _ _ => rfl) third)
  have loop := importTracks_lookup fourth key
  rw [before.2] at loop
  rw [← loop]
  show lookup TrackRow.key key (deleteWhere _ listed.library.tracks) = _
  rw [listed.unique.trackKeys.lookup_deleteWhere]
  cases found : lookup TrackRow.key key listed.library.tracks with
  | none => rfl
  | some r =>
    have keptIDs := importTracks_kept fourth (mem_of_lookup found)
    rw [key_of_lookup found] at keptIDs
    have agree : (!stale TrackRow.id TrackRow.albumID albumID keptTracks r) =
        decide (r.albumID ≠ albumID ∨ al.Lists key) := by
      by_cases owned : r.albumID = albumID <;> by_cases lists : al.Lists key <;>
        simp_all [stale, ImportAlbum.Lists]
    simp only [Option.filter, agree]

theorem map_id_trackAt (key : UUID × Int) (db : Database) :
    (db.trackAt key).map TrackView.id = (lookup TrackRow.key key db.library.tracks).map TrackRow.id := by
  unfold trackAt viewOf
  cases found : lookup TrackRow.key key db.library.tracks with
  | none => rfl
  | some t =>
    obtain ⟨k, owned⟩ := exists_albumKey (mem_of_lookup found)
    simp [owned]

/-- The import of one album, on the abstract map. -/
theorem importAlbum_trackAt (h : importAlbum al db = .ok (db', albumID)) (key : UUID × Int) :
    db'.trackAt key = claimTrack al key (db.trackAt key) := by
  have rows := importAlbum_lookup h key
  have own := importAlbum_key h
  unfold claimTrack
  rw [map_id_trackAt]
  unfold listTrack at rows
  cases listed : al.tracks.filter fun t => t.key = key with
  | cons t later =>
    have lists : al.Lists key := by
      have member : t ∈ al.tracks.filter fun t => t.key = key := listed ▸ List.mem_cons_self
      obtain ⟨ht, same⟩ := List.mem_filter.mp member
      exact List.mem_map.mpr ⟨t, ht, by simpa using same⟩
    simp only [listed, lists, or_true, decide_true, Option.filter_some, if_true] at rows
    unfold trackAt
    rw [rows, Option.bind_some, viewOf, own]
    rfl
  | nil =>
    have lists : ¬al.Lists key := by
      intro lists
      obtain ⟨t, ht, same⟩ := List.mem_map.mp lists
      have none := List.filter_eq_nil_iff.mp listed t ht
      exact none (by simpa using same)
    simp only [listed, lists, or_false] at rows
    unfold trackAt
    rw [rows]
    cases found : lookup TrackRow.key key db.library.tracks with
    | none => rfl
    | some r =>
      obtain ⟨k, owned⟩ := exists_albumKey (mem_of_lookup found)
      have owned' := importAlbum_keepsKey h owned
      -- the album of the track is the imported one if the keys agree
      have same : r.albumID = albumID ↔ k = al.key := by
        constructor
        · intro eq
          rw [eq, own] at owned'
          exact (Option.some.inj owned').symm
        · intro eq
          exact albumKey_inj (eq ▸ owned') own
      have view : db.viewOf r = some ⟨r.id, k, r.details⟩ := by rw [viewOf, owned]; rfl
      have view' : db'.viewOf r = some ⟨r.id, k, r.details⟩ := by rw [viewOf, owned']; rfl
      rw [Option.bind_some, view]
      by_cases here : k = al.key
      · simp [Option.filter, same.mpr here, here]
      · simp [Option.filter, same.not.mpr here, here, view']

theorem importAlbums_trackAt {albums : List ImportAlbum} {kept : List UUID}
    (h : importAlbums albums db = .ok (db', kept)) (key : UUID × Int) :
    db'.trackAt key = claimTracks key albums (db.trackAt key) := by
  induction albums generalizing db kept with
  | nil => cases h; rfl
  | cons al rest ih =>
    obtain ⟨mid, albumID, later, first, second, _⟩ := importAlbums_cons h
    rw [ih second, importAlbum_trackAt first, claimTracks]

/-- The IDs the loop keeps are those of the albums of the payload. -/
theorem importAlbums_kept {albums : List ImportAlbum} {kept : List UUID}
    (h : importAlbums albums db = .ok (db', kept)) {a : AlbumRow}
    (ha : a ∈ db'.library.albums) : a.id ∈ kept ↔ a.key ∈ albums.map ImportAlbum.key := by
  induction albums generalizing db kept with
  | nil => cases h; simp
  | cons al rest ih =>
    obtain ⟨mid, albumID, later, first, second, rfl⟩ := importAlbums_cons h
    obtain ⟨b, hb, idB, keyB⟩ := albumKey_eq_some_iff.mp (importAlbum_key first)
    obtain ⟨c, hc, idC, keyC, _⟩ := importAlbums_keepsAlbum second hb
    rw [List.mem_cons, List.map_cons, List.mem_cons, ih second]
    apply or_congr_left
    constructor
    · intro same
      rw [db'.unique.albumIDs.eq_of_key ha hc (same.trans (idC.trans idB).symm), keyC, keyB]
    · intro same
      rw [db'.unique.albumKeys.eq_of_key ha hc (same.trans (keyC.trans keyB).symm), idC, idB]

end Imports

/-! ### The delete of stale albums -/

/-- The albums of the payload that the loop has stored stay, with their IDs. -/
theorem replaceDirAlbums_keepsStored {dirID : UUID} {albums : List ImportAlbum}
    (h : replaceDirAlbums dirID albums db = .ok db') :
    ∃ mid kept, importAlbums albums db = .ok (mid, kept) ∧
      ∀ al ∈ albums, ∀ b ∈ mid.library.albums, b.key = al.key →
        ∃ c ∈ db'.library.albums, c.key = b.key ∧ c.id = b.id := by
  obtain ⟨mid, kept, loop, promoted⟩ := replaceDirAlbums_steps h
  refine ⟨mid, kept, loop, ?_⟩
  intro al hal b hb same
  have listed : b.id ∈ kept := by
    rw [importAlbums_kept loop hb, same]
    exact List.mem_map_of_mem hal
  have remains : b ∈ deleteWhere (stale AlbumRow.id AlbumRow.dirID dirID kept)
      mid.library.albums := mem_deleteWhere.mpr ⟨hb, by simp [stale, listed]⟩
  obtain ⟨c, hc, id, key⟩ :=
    exists_album (promoteOrphanedPrimaries_spec promoted).2.2.symm remains
  exact ⟨c, hc, key, id⟩

theorem trackAt_of_keeps (tracks : db'.library.tracks = db.library.tracks)
    (albums : db'.library.albums.map (fun a => (a.id, a.key)) =
      db.library.albums.map fun a => (a.id, a.key)) (key : UUID × Int) :
    db'.trackAt key = db.trackAt key := by
  have keys : ∀ id, db'.albumKey id = db.albumKey id := by
    intro id
    ext k
    have read : ∀ db : Database, db.albumKey id = some k ↔
        (id, k) ∈ db.library.albums.map fun a => (a.id, a.key) := by
      intro db
      rw [albumKey_eq_some_iff]
      simp
    rw [read, read, albums]
  unfold trackAt viewOf
  simp only [tracks, keys]

/-- A delete of albums by their keys takes their tracks along. -/
theorem deleteAlbums_trackAt (p : AlbumRow → Bool) (q : UUID × String → Bool)
    (agree : ∀ a ∈ db.library.albums, p a = !q a.key) (key : UUID × Int) :
    (db.deleteAlbums p).trackAt key = (db.trackAt key).filter fun view => q view.owner := by
  have keys : ∀ id k, db.albumKey id = some k → q k = true →
      (db.deleteAlbums p).albumKey id = some k := by
    intro id k owned kept
    obtain ⟨a, ha, same, rfl⟩ := albumKey_eq_some_iff.mp owned
    refine albumKey_eq_some_iff.mpr ⟨a, mem_deleteWhere.mpr ⟨ha, ?_⟩, same, rfl⟩
    simp [agree a ha, kept]
  have rows : lookup TrackRow.key key (db.deleteAlbums p).library.tracks =
      (lookup TrackRow.key key db.library.tracks).filter fun t =>
        !decide (t.albumID ∈ deletedKeys AlbumRow.id p db.library.albums) :=
    db.unique.trackKeys.lookup_deleteWhere _
  unfold trackAt
  rw [rows]
  cases found : lookup TrackRow.key key db.library.tracks with
  | none => rfl
  | some t =>
    obtain ⟨a, ha, same⟩ := db.referenced.trackAlbums.exists_parent (mem_of_lookup found)
    have owned : db.albumKey t.albumID = some a.key := same ▸ albumKey_of_mem ha
    have view : db.viewOf t = some ⟨t.id, a.key, t.details⟩ := by rw [viewOf, owned]; rfl
    have deleted : t.albumID ∈ deletedKeys AlbumRow.id p db.library.albums ↔ q a.key = false := by
      rw [← same, db.unique.albumIDs.key_deleted ha, agree a ha]
      simp
    rw [Option.bind_some, view]
    cases kept : q a.key with
    | false => simp [Option.filter, deleted.mpr kept, kept]
    | true =>
      have stays : t.albumID ∉ deletedKeys AlbumRow.id p db.library.albums := by
        rw [deleted, kept]
        simp
      have view' : (db.deleteAlbums p).viewOf t = some ⟨t.id, a.key, t.details⟩ := by
        rw [viewOf, keys _ _ owned kept]
        rfl
      simp [Option.filter, stays, kept, view']

/-- After the loop, what is under an album of the dir that the payload does not have goes. -/
def ownerStays (dirID : UUID) (albums : List ImportAlbum) (owner : UUID × String) : Bool :=
  owner.1 ≠ dirID || owner ∈ albums.map ImportAlbum.key

/-- `ReplaceDirAlbums`, at a file and offset. -/
theorem replaceDirAlbums_trackAt {dirID : UUID} {albums : List ImportAlbum}
    (h : replaceDirAlbums dirID albums db = .ok db') (key : UUID × Int) :
    db'.trackAt key = (claimTracks key albums (db.trackAt key)).filter fun view =>
      ownerStays dirID albums view.owner := by
  obtain ⟨mid, keptAlbums, loop, promoted⟩ := replaceDirAlbums_steps h
  have tracks : Keeps LibraryTables.tracks _ db' :=
    promoteOrphanedPrimaries_keeps (fun _ _ => rfl) promoted
  rw [trackAt_of_keeps tracks.2 (promoteOrphanedPrimaries_spec promoted).2.2,
    ← importAlbums_trackAt loop]
  apply deleteAlbums_trackAt
  intro a ha
  have kept := importAlbums_kept loop ha
  by_cases owned : a.dirID = dirID <;> by_cases listed : a.key ∈ albums.map ImportAlbum.key <;>
    simp_all [stale, ownerStays, AlbumRow.key]

end Database

end Byom.Sqlite
