import Byom.Metadata.Importer
import Byom.Sqlite.RowIdentity

/-!
# Which parsed tracks are stored

The parser tells albums apart by credited names and title, the store by the group
key. Two parsed albums with one group key are one row, and the import of the second
deletes the tracks of the first as stale.
-/

namespace Byom.Sqlite

open Storage Relational Library Metadata

section Claim

variable {albums : List ImportAlbum} {key : UUID × Int}

/-- Of albums that list every track once, each keeps its tracks exactly if no later one
has its key. -/
theorem claimTracks_lists_iff (start : UUID × Int → Option TrackView)
    (distinct : ((albums.flatMap ImportAlbum.tracks).map Track.key).Nodup) :
    (∀ al ∈ albums, ∀ t ∈ al.tracks, ∃ view, claimTracks t.key albums (start t.key) = some view ∧
        view.owner = al.key ∧ view.details = t.details) ↔
      albums.Pairwise fun al later => al.tracks ≠ [] → al.key ≠ later.key := by
  induction albums generalizing start with
  | nil => simp
  | cons al rest ih =>
    rw [List.flatMap_cons, List.map_append, List.nodup_append] at distinct
    obtain ⟨own, others, apart⟩ := distinct
    rw [List.forall_mem_cons, List.pairwise_cons]
    apply and_congr
    · -- the rest lists none of the tracks of `al`
      have after : ∀ t ∈ al.tracks, ∃ id, claimTracks t.key (al :: rest) (start t.key) =
          (some ⟨id, al.key, t.details⟩ : Option TrackView).filter fun view =>
            view.owner ∉ rest.map ImportAlbum.key := by
        intro t ht
        have listed : t.key ∈ al.tracks.map Track.key := List.mem_map_of_mem ht
        obtain ⟨first, _, last, hlast, _, same, claimed⟩ := claimTrack_of_lists listed (start t.key)
        obtain rfl := List.inj_on_of_nodup_map own hlast ht same
        have absent : ∀ later ∈ rest, ¬later.Lists last.key := by
          intro later hlater lists
          obtain ⟨u, hu, sameU⟩ := List.mem_map.mp lists
          have again : last.key ∈ (rest.flatMap ImportAlbum.tracks).map Track.key :=
            List.mem_map.mpr ⟨u, List.mem_flatMap.mpr ⟨later, hlater, hu⟩, sameU⟩
          exact apart _ listed _ again rfl
        exact ⟨_, by rw [claimTracks, claimTracks_of_absent absent, claimed]⟩
      constructor
      · intro kept later hlater tracks same
        obtain ⟨t, ht⟩ := List.exists_mem_of_ne_nil _ tracks
        obtain ⟨view, result, _⟩ := kept t ht
        obtain ⟨id, claimed⟩ := after t ht
        have gone : al.key ∈ rest.map ImportAlbum.key := List.mem_map.mpr ⟨later, hlater, same.symm⟩
        rw [claimed] at result
        simp [Option.filter, gone] at result
      · intro unlike t ht
        obtain ⟨id, claimed⟩ := after t ht
        have stays : al.key ∉ rest.map ImportAlbum.key := by
          intro listed
          obtain ⟨later, hlater, same⟩ := List.mem_map.mp listed
          exact unlike later hlater (List.ne_nil_of_mem ht) same.symm
        refine ⟨⟨id, al.key, t.details⟩, ?_, rfl, rfl⟩
        rw [claimed]
        simp [Option.filter, stays]
    · exact ih (fun key => claimTrack al key (start key)) others

end Claim

end Byom.Sqlite

namespace Byom.Metadata

open Storage Relational Library Sqlite

/-- The track is the one row at its file and offset, under an album of the dir with the
group key. -/
def Stores (db : Database) (dirID : UUID) (groupKey : Option String) (key : UUID × Int)
    (details : TrackDetails) : Prop :=
  ∃ r ∈ db.library.tracks, db.library.tracks.filter (fun r => r.key = key) = [r] ∧
    r.details = details ∧ ∃ a ∈ db.library.albums, a.id = r.albumID ∧ a.dirID = dirID ∧
      groupKey = some a.groupKey

instance (db : Database) (dirID : UUID) (groupKey : Option String) (key : UUID × Int)
    (details : TrackDetails) : Decidable (Stores db dirID groupKey key details) :=
  inferInstanceAs (Decidable (∃ r ∈ db.library.tracks, _ ∧ _ ∧ ∃ a ∈ db.library.albums, _))

theorem stores_iff {db : Database} {dirID : UUID} {groupKey : String} {key : UUID × Int}
    {details : TrackDetails} : Stores db dirID (some groupKey) key details ↔
      ∃ view, db.trackAt key = some view ∧ view.owner = (dirID, groupKey) ∧
        view.details = details := by
  constructor
  · rintro ⟨r, hr, single, rfl, a, ha, owner, rfl, group⟩
    have found : r ∈ db.library.tracks.filter fun r => r.key = key := by simp [single]
    have same : r.key = key := by simpa using (List.mem_filter.mp found).2
    refine ⟨⟨r.id, a.key, r.details⟩, ?_, ?_, rfl⟩
    · exact Database.trackAt_eq_some_iff.mpr
        ⟨r, hr, same, rfl, rfl, owner ▸ Database.albumKey_of_mem ha⟩
    · rw [Option.some.inj group]
      rfl
  · rintro ⟨view, found, owner, rfl⟩
    obtain ⟨r, hr, rfl, _, details, owned⟩ := Database.trackAt_eq_some_iff.mp found
    obtain ⟨a, ha, id, key⟩ := Database.albumKey_eq_some_iff.mp owned
    have keys : (a.dirID, a.groupKey) = (dirID, groupKey) := key.trans owner
    refine ⟨r, hr, ?_, details, a, ha, id, ?_, ?_⟩
    · exact db.unique.trackKeys.filter_eq_singleton hr (by simp) (by simp)
    · exact congrArg Prod.fst keys
    · exact congrArg (fun k => some k.2) keys.symm

namespace Importer

variable {rt : Runtime} {im im' : Importer} {res : ParseResult}

/-- Every parsed track is stored with its metadata, under the album it came from. -/
def HasTracks (rt : Runtime) (im : Importer) (res : ParseResult) (db : Database) : Prop :=
  ∀ pa ∈ res.albums, ∀ pt ∈ pa.tracks,
    Stores db res.dirID (groupKey rt im pa) (pt.fileID, pt.startOffset)
      { discNumber := pt.metadata.discNumber
        discSubtitle := pt.metadata.discSubtitle
        trackNumber := pt.metadata.trackNumber
        title := pt.metadata.title
        releaseDate := pt.metadata.releaseDate
        originalReleaseDate := pt.metadata.originalReleaseDate
        audio := pt.audio
        duration := pt.duration }

/-- No parsed album with tracks is followed by one with its group key. -/
def NoTwins (rt : Runtime) (im : Importer) (res : ParseResult) : Prop :=
  res.albums.Pairwise fun pa later => pa.tracks ≠ [] → groupKey rt im pa ≠ groupKey rt im later

instance (rt : Runtime) (im : Importer) (res : ParseResult) (db : Database) :
    Decidable (HasTracks rt im res db) :=
  inferInstanceAs (Decidable (∀ pa ∈ res.albums, ∀ pt ∈ pa.tracks, Stores _ _ _ _ _))

instance (rt : Runtime) (im : Importer) (res : ParseResult) : Decidable (NoTwins rt im res) :=
  inferInstanceAs (Decidable (List.Pairwise _ res.albums))

/-- `HasTracks`, read off the albums that are handed to the store. -/
theorem hasTracks_iff {albums : List ImportAlbum} {db : Database}
    (built : albums.map summary = res.albums.map (parsedSummary rt im)) :
    HasTracks rt im res db ↔ ∀ al ∈ albums, ∀ t ∈ al.tracks,
      Stores db res.dirID (some al.album.groupKey) t.key t.details := by
  have listed : HasTracks rt im res db ↔ ∀ s ∈ res.albums.map (parsedSummary rt im),
      ∀ x ∈ s.2, Stores db res.dirID s.1 x.1 x.2 := by
    simp only [HasTracks, parsedSummary, List.forall_mem_map]
    rfl
  rw [listed, ← built]
  simp only [summary, List.forall_mem_map]

theorem noTwins_iff {albums : List ImportAlbum}
    (built : albums.map summary = res.albums.map (parsedSummary rt im)) :
    NoTwins rt im res ↔ albums.Pairwise fun al later =>
      al.tracks ≠ [] → al.album.groupKey ≠ later.album.groupKey := by
  have listed : NoTwins rt im res ↔ (res.albums.map (parsedSummary rt im)).Pairwise
      fun s later => s.2 ≠ [] → s.1 ≠ later.1 := by
    simp [NoTwins, parsedSummary, List.pairwise_map]
  rw [listed, ← built, List.pairwise_map]
  simp [summary]

theorem keys_of_summaries {albums : List ImportAlbum}
    (built : albums.map summary = res.albums.map (parsedSummary rt im)) :
    (albums.flatMap ImportAlbum.tracks).map Track.key =
      (res.albums.flatMap ParsedAlbum.tracks).map ParsedTrack.key := by
  have listed := congrArg (fun ss => (ss.flatMap Prod.snd).map Prod.fst) built
  simpa [List.flatMap_map, List.map_flatMap, summary, parsedSummary, Function.comp_def] using listed

/-- An import stores all it is given exactly if no two parsed albums have one group key. -/
theorem importResult_storesTracks_iff (h : importResult rt res im = .ok im')
    (distinct : ((res.albums.flatMap ParsedAlbum.tracks).map ParsedTrack.key).Nodup) :
    HasTracks rt im res im'.db ↔ NoTwins rt im res := by
  obtain ⟨albums, mid, loop, replaced⟩ := importResult_steps h
  obtain ⟨built, owned, _⟩ := buildAlbums_spec loop
  rw [← keys_of_summaries built] at distinct
  rw [hasTracks_iff built, noTwins_iff built]
  have ofDir : ∀ al ∈ albums, al.key = (res.dirID, al.album.groupKey) := by
    intro al hal
    rw [ImportAlbum.key, (owned al hal).1]
  -- the group keys decide, all the albums are of one dir
  have twins : (albums.Pairwise fun al later =>
        al.tracks ≠ [] → al.album.groupKey ≠ later.album.groupKey) ↔
      albums.Pairwise fun al later => al.tracks ≠ [] → al.key ≠ later.key := by
    apply List.Pairwise.iff_of_mem
    intro al later hal hlater
    rw [ofDir al hal, ofDir later hlater]
    simp
  rw [twins, ← claimTracks_lists_iff (fun key => mid.db.trackAt key) distinct]
  apply forall₂_congr
  intro al hal
  apply forall₂_congr
  intro t ht
  rw [stores_iff, Database.replaceDirAlbums_trackAt replaced, ← ofDir al hal]
  constructor
  · rintro ⟨view, found, stored⟩
    exact ⟨view, (Option.filter_eq_some_iff.mp found).1, stored⟩
  · rintro ⟨view, claimed, owner, details⟩
    refine ⟨view, Option.filter_eq_some_iff.mpr ⟨claimed, ?_⟩, owner, details⟩
    -- the delete of stale albums spares those of the payload
    have listed : view.owner ∈ albums.map ImportAlbum.key := owner ▸ List.mem_map_of_mem hal
    simp [Database.ownerStays, listed]

/-! ### Two spellings of one artist -/

/-- ASCII names, one artist, and the hashes of the two albums below. -/
def asciiRuntime : Runtime where
  unicode := ⟨id, Char.toLower⟩
  sum64 buf :=
    if buf = "00000000-0000-0000-0000-000000000032\x00Home" then 0x81e57955652fc0ea
    else if buf = "00000000-0000-0000-0000-000000000032\x00Away" then 0xbd0f09237f674674
    else 0
  newArtistID _ := 50
  newAlbumID a := BitVec.ofNat 128 (60 + a)
  newTrackID a i := BitVec.ofNat 128 (70 + 10 * a + i)

/-- IDs from `n` on. -/
def mintedFrom (n : Nat) : Minted where
  newArtistID _ := BitVec.ofNat 128 n
  newAlbumID a := BitVec.ofNat 128 (n + 1 + a)
  newTrackID a i := BitVec.ofNat 128 (n + 4 + 3 * a + i)

def flacTrack (fileID : UUID) : ParsedTrack :=
  ⟨fileID, ⟨1, "", 1, "Song", "", "", false⟩, [], ⟨"flac", 44100, 16, 2, 900⟩, 180000000000, 0⟩

def albumBy (artist title : String) (fileID : UUID) : ParsedAlbum :=
  ⟨⟨.main, title, "", "", false, false, false⟩, [⟨artist, "artist"⟩], [flacTrack fileID]⟩

/-- The importer before it has imported anything. -/
def scanned : Importer :=
  ⟨Database.afterWrites Database.firstScans Database.firstScans_enabled, []⟩

def afterImport (res : ParseResult) (im : Importer)
    (succeeds : (importResult asciiRuntime res im).toOption.isSome) : Importer :=
  (importResult asciiRuntime res im).toOption.get succeeds

def twoAlbums : ParseResult := ⟨10, [albumBy "The Band" "Home" 20, albumBy "the band" "Away" 21], []⟩

def twoSpellings : ParseResult :=
  ⟨10, [albumBy "The Band" "Home" 20, albumBy "the band" "Home" 21], []⟩

theorem twoAlbums_stored :
    HasTracks asciiRuntime scanned twoAlbums (afterImport twoAlbums scanned (by decide)).db := by
  have imported : importResult asciiRuntime twoAlbums scanned =
      .ok (afterImport twoAlbums scanned (by decide)) := by rfl
  exact (importResult_storesTracks_iff imported (by decide)).mpr (by decide)

/-- The track of the first album is deleted while the second is imported. -/
theorem twoSpellings_lost :
    ¬ ∀ (rt : Runtime) (im im' : Importer) (res : ParseResult), im.db.Reachable →
      ((res.albums.flatMap ParsedAlbum.tracks).map ParsedTrack.key).Nodup →
      importResult rt res im = .ok im' → HasTracks rt im res im'.db := by
  intro stored
  have both := stored asciiRuntime scanned (afterImport twoSpellings scanned (by decide)) twoSpellings
    ⟨Database.firstScans, Database.afterWrites_run _ (by decide)⟩ (by decide) (by rfl)
  exact absurd both (by decide)

end Importer

end Byom.Metadata
