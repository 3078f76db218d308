import Byom.Sqlite.PrimaryVersion

/-!
# Listing releases, and deleting a location

`Albums` lists each release by its primary version. A group whose primary goes
with a location is not repaired, so its other versions are no longer listed.
-/

namespace Byom.Library

open Storage

inductive BootlegFilter where
  | bootlegsInclude
  | bootlegsExclude
  | bootlegsOnly
  deriving DecidableEq, Repr

/-- What narrows a listing. The order is not part of it. -/
structure AlbumQuery where
  artistID : UUID := .nil
  includeAllVersions : Bool := false
  types : List AlbumType := []
  bootlegs : BootlegFilter := .bootlegsInclude
  deriving DecidableEq, Repr

end Byom.Library

namespace Byom.Sqlite.Database

open Storage Relational Library Metadata

/-- The conditions on the columns of `albums`. -/
def selects (query : AlbumQuery) (a : AlbumRow) : Bool :=
  (query.includeAllVersions || a.primaryVersion) &&
    (query.types.isEmpty || a.details.type ∈ query.types) &&
    match query.bootlegs with
    | .bootlegsInclude => true
    | .bootlegsExclude => !a.details.bootleg
    | .bootlegsOnly => a.details.bootleg

/-- `albumArtists`, for one album. -/
def albumArtists (albumID : UUID) (db : Database) : List AlbumArtist :=
  ((db.library.albumArtists.filter fun aa => aa.albumID = albumID).insertionSort
    fun a b => a.position ≤ b.position).map fun aa => ⟨aa.artistID, aa.creditedName⟩

/-- `scanAlbum`, and the artists that are read after it. -/
def scanAlbum (db : Database) (a : AlbumRow) (img : Option Image) : Album where
  id := a.id
  dirID := a.dirID
  details := a.details
  artists := db.albumArtists a.id
  images := []
  groupKey := a.groupKey
  coverHash := (img.map Image.contentHash).getD ""
  primaryVersion := a.primaryVersion
  artistSort := a.artistSort

/-- The rows that the query of `Albums` selects, on all pages together. -/
def albumRows (query : AlbumQuery) (db : Database) : List Album :=
  (db.library.albums.filter (selects query)).flatMap fun a =>
    (leftMatches (fun c => c.albumID = a.id && c.setCover) db.library.albumImages).flatMap fun cov =>
      (leftMatches (fun img => cov.any fun c => c.imageID = img.id) db.library.images).flatMap
        fun img =>
          let credits := if query.artistID = .nil then 1 else
            db.library.albumArtists.countP fun aa =>
              aa.albumID = a.id && aa.artistID = query.artistID
          List.replicate credits (scanAlbum db a img)

/-- The listing without filters shows each remaining release once. -/
def ListsEachOnce (db : Database) : Prop :=
  ∀ a ∈ db.library.albums, ((db.albumRows {}).filter fun al => al.groupKey = a.groupKey).length = 1

instance : DecidablePred ListsEachOnce := fun db =>
  inferInstanceAs (Decidable (∀ a ∈ db.library.albums, _ = _))

variable {db db' : Database}

/-- The cover that the joins find for an album. -/
def cover (a : AlbumRow) (db : Database) : Option Image :=
  let cov := db.library.albumImages.find? fun c => c.albumID = a.id && c.setCover
  db.library.images.find? fun img => cov.any fun c => c.imageID = img.id

/-- The album is in the listing. -/
def matchesQuery (query : AlbumQuery) (db : Database) (a : AlbumRow) : Bool :=
  selects query a && (query.artistID = .nil ||
    db.library.albumArtists.any fun aa => aa.albumID = a.id && aa.artistID = query.artistID)

/-- An artist is credited once on an album. -/
theorem countP_credits (query : AlbumQuery) (db : Database) (a : AlbumRow) :
    (db.library.albumArtists.countP fun aa => aa.albumID = a.id && aa.artistID = query.artistID) =
      if db.library.albumArtists.any (fun aa => aa.albumID = a.id && aa.artistID = query.artistID)
      then 1 else 0 := by
  rw [List.countP_eq_length_filter]
  split
  · rename_i credited
    obtain ⟨aa, haa, hit⟩ := List.any_eq_true.mp credited
    have alone : (db.library.albumArtists.filter fun aa =>
        aa.albumID = a.id && aa.artistID = query.artistID) = [aa] := by
      apply db.unique.albumArtists.filter_eq_singleton haa hit
      intro b _ hitB
      simp only [Bool.and_eq_true, decide_eq_true_eq] at hit hitB
      exact Prod.ext (hitB.1.trans hit.1.symm) (hitB.2.trans hit.2.symm)
    rw [alone]
    rfl
  · rename_i absent
    rw [List.length_eq_zero_iff, List.filter_eq_nil_iff]
    exact fun aa haa hit => absent (List.any_eq_true.mpr ⟨aa, haa, hit⟩)

/-- No join repeats an album. -/
theorem albumRows_eq (query : AlbumQuery) (db : Database) : db.albumRows query =
    (db.library.albums.filter (matchesQuery query db)).map fun a => scanAlbum db a (db.cover a) := by
  have linked : ∀ a : AlbumRow,
      leftMatches (fun c => c.albumID = a.id && c.setCover) db.library.albumImages =
        [db.library.albumImages.find? fun c => c.albumID = a.id && c.setCover] := by
    intro a
    apply db.unique.covers.leftMatches_eq
    · simp
    · intro c d hc hd
      simp only [Bool.and_eq_true, decide_eq_true_eq] at hc hd
      exact hc.1.trans hd.1.symm
  have image : ∀ cov : Option AlbumImageRow,
      leftMatches (fun img => cov.any fun c => c.imageID = img.id) db.library.images =
        [db.library.images.find? fun img => cov.any fun c => c.imageID = img.id] := by
    intro cov
    have ids : UniqueOn Image.id (db.library.images.filter fun _ => true) := by
      rw [List.filter_true]
      exact db.unique.imageIDs
    apply ids.leftMatches_eq
    · exact fun _ _ => rfl
    · intro i j hi hj
      cases cov with
      | none => cases hi
      | some c =>
        have first : c.imageID = i.id := by simpa using hi
        have second : c.imageID = j.id := by simpa using hj
        exact first.symm.trans second
  unfold albumRows
  simp only [linked, image, List.flatMap_cons, List.flatMap_nil, List.append_nil, countP_credits]
  induction db.library.albums with
  | nil => rfl
  | cons a rest ih =>
    by_cases selected : selects query a = true
    · rw [List.filter_cons_of_pos selected, List.flatMap_cons, ih]
      by_cases everyone : query.artistID = .nil
      · simp [matchesQuery, selected, everyone, cover]
      · by_cases credited : db.library.albumArtists.any fun aa =>
          aa.albumID = a.id && aa.artistID = query.artistID
        · simp [matchesQuery, selected, everyone, credited, cover]
        · simp [matchesQuery, selected, everyone, credited]
    · rw [List.filter_cons_of_neg selected, ih]
      simp [matchesQuery, selected]

theorem albumRows_groupKeys (db : Database) : (db.albumRows {}).map Album.groupKey =
    (db.library.albums.filter AlbumRow.primaryVersion).map AlbumRow.groupKey := by
  have selected : db.library.albums.filter (matchesQuery {} db) =
      db.library.albums.filter AlbumRow.primaryVersion :=
    List.filter_congr fun a _ => by simp [matchesQuery, selects]
  rw [albumRows_eq, selected, List.map_map]
  rfl

theorem listsEachOnce_of_onePrimary (one : db.OnePrimary) : db.ListsEachOnce := by
  intro a ha
  have count : ∀ rows : List Album, (rows.filter fun al => al.groupKey = a.groupKey).length =
      (rows.map Album.groupKey).count a.groupKey := by
    intro rows
    rw [List.count_eq_countP, List.countP_map, List.countP_eq_length_filter]
    rfl
  rw [count, albumRows_groupKeys, ← one a ha, List.count_eq_countP, List.countP_map,
    List.countP_filter, List.countP_eq_length_filter]
  rfl

/-! ### `LocationStore.Delete` -/

/-- A primary version that goes with the location takes its whole group along. -/
def PrimariesStay (id : UUID) (db : Database) : Prop :=
  ∀ a ∈ db.library.albums, a.primaryVersion = true → a.dirID ∈ db.storage.dirsOf id →
    ∀ b ∈ db.library.albums, b.groupKey = a.groupKey → b.dirID ∈ db.storage.dirsOf id

instance (id : UUID) : DecidablePred (PrimariesStay id) := fun db =>
  inferInstanceAs (Decidable (∀ a ∈ db.library.albums, _ → _ →
    ∀ b ∈ db.library.albums, _ → b.dirID ∈ db.storage.dirsOf id))

theorem mem_albums_deleteLocation {id : UUID} (h : db.deleteLocation id = .ok db') {a : AlbumRow} :
    a ∈ db'.library.albums ↔ a ∈ db.library.albums ∧ a.dirID ∉ db.storage.dirsOf id := by
  rw [(deleteLocation_spec h).2]
  simp

theorem deleteLocation_onePrimary_iff {id : UUID} (h : db.deleteLocation id = .ok db')
    (one : db.OnePrimary) : db'.OnePrimary ↔ db.PrimariesStay id := by
  rw [onePrimary_iff] at one ⊢
  have deleted := @mem_albums_deleteLocation _ _ _ h
  constructor
  · intro all a ha primary gone b hb group
    by_contra stays
    have some : (db'.primary b.groupKey).isSome := all b (deleted.mpr ⟨hb, stays⟩)
    obtain ⟨c, hc, groupC, primaryC⟩ := primary_isSome_iff.mp some
    obtain ⟨hc, staysC⟩ := deleted.mp hc
    -- the unique index: the group has no other primary than `a`
    have same : c = a := db.unique.primaries.eq_of_key (List.mem_filter.mpr ⟨hc, primaryC⟩)
      (List.mem_filter.mpr ⟨ha, primary⟩) (groupC.trans group)
    exact staysC (same ▸ gone)
  · intro whole b hb
    obtain ⟨hb, stays⟩ := deleted.mp hb
    have some : (db.primary b.groupKey).isSome := one b hb
    obtain ⟨a, ha, group, primary⟩ := primary_isSome_iff.mp some
    show (db'.primary b.groupKey).isSome
    refine primary_isSome_iff.mpr ⟨a, deleted.mpr ⟨ha, ?_⟩, group, primary⟩
    exact fun gone => stays (whole a ha primary gone b hb group.symm)

/-- After the delete every release that is left is listed, exactly if no primary version
was deleted that has versions elsewhere. -/
theorem deleteLocation_keeps_listing_iff {id : UUID} (h : db.deleteLocation id = .ok db')
    (one : db.OnePrimary) : db'.OnePrimary ∧ db'.ListsEachOnce ↔ db.PrimariesStay id := by
  rw [← deleteLocation_onePrimary_iff h one]
  exact ⟨And.left, fun after => ⟨after, listsEachOnce_of_onePrimary after⟩⟩

/-- The location of the other version goes, and the primary stays listed. -/
theorem secondLocation_deleted_listed :
    (afterWrites (twoVersions ++ [.deleteLocation 2]) (by decide)).OnePrimary ∧
      (afterWrites (twoVersions ++ [.deleteLocation 2]) (by decide)).ListsEachOnce := by
  have deleted : deleteLocation 2 (afterWrites twoVersions (by decide)) =
      .ok (afterWrites (twoVersions ++ [.deleteLocation 2]) (by decide)) := by rfl
  exact (deleteLocation_keeps_listing_iff deleted (by decide)).mpr (by decide)

/-- With the location of the primary goes the listing of the release. -/
theorem firstLocation_deleted_hidden :
    ¬ ∀ (db db' : Database) (id : UUID), db.Reachable → db.OnePrimary →
      db.deleteLocation id = .ok db' → db'.OnePrimary ∧ db'.ListsEachOnce := by
  intro keeps
  have after := keeps (afterWrites twoVersions (by decide))
    (afterWrites (twoVersions ++ [.deleteLocation 1]) (by decide)) 1
    ⟨twoVersions, afterWrites_run _ _⟩ (by decide) (by rfl)
  exact absurd after.2 (by decide)

end Byom.Sqlite.Database
