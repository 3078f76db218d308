import Mathlib.Data.List.Dedup
import Byom.Sqlite.CoverLinks
import Byom.Sqlite.PayloadRows

/-!
# What one import of a dir writes

The dir ends up with the albums of the payload and their tracks only. Under the albums of
other dirs nothing changes, as no track there has a file of the dir. An album there changes
if it is promoted in place of a primary version that the import deleted.
-/

namespace Byom.Sqlite

open Storage Relational Library Metadata

namespace Database

open LibraryTables

variable {db db' : Database} {dirID : UUID} {albums : List ImportAlbum} {a : AlbumRow}

/-! ### Promotions -/

theorem promote_albums {key : String}
    (h : db.write (fun l => { l with albums := AlbumRow.versions.promote key l.albums }) =
      .ok db') : db'.library.albums = db.library.albums.map fun a =>
        if a.groupKey = key ∧ db.primary a.groupKey = none ∧ db.oldest a.groupKey = some a.id then
          { a with primaryVersion := true } else a := by
  rw [(write_spec h).2]
  apply List.map_congr_left
  intro a ha
  -- the album with the least ID of a group is of the group
  have own : db.oldest key = some a.id → a.groupKey = key := by
    intro oldest
    obtain ⟨⟨b, hb, group, id⟩, _⟩ := Election.oldest_eq_some_iff.mp oldest
    have same : b = a := db.unique.albumIDs.eq_of_key hb ha id
    exact same ▸ group
  have agree : (decide (db.oldest key = some a.id) && (db.primary key).isNone) =
      decide (a.groupKey = key ∧ db.primary a.groupKey = none ∧
        db.oldest a.groupKey = some a.id) := by
    rw [Bool.eq_iff_iff]
    simp only [Bool.and_eq_true, decide_eq_true_eq, Option.isNone_iff_eq_none]
    constructor
    · rintro ⟨oldest, vacant⟩
      obtain rfl := own oldest
      exact ⟨rfl, vacant, oldest⟩
    · rintro ⟨rfl, vacant, oldest⟩
      exact ⟨oldest, vacant⟩
  change (if (decide (db.oldest key = some a.id) && (db.primary key).isNone) = true then _ else _) =
    _
  rw [agree]
  simp only [decide_eq_true_eq]
  rfl

theorem promoteOrphanedPrimaries_albums {keys : List String}
    (h : promoteOrphanedPrimaries keys db = .ok db') :
    db'.library.albums = db.library.albums.map fun a =>
      if a.groupKey ∈ keys ∧ db.primary a.groupKey = none ∧ db.oldest a.groupKey = some a.id then
        { a with primaryVersion := true } else a := by
  induction keys generalizing db with
  | nil =>
    cases h
    simp
  | cons key keys ih =>
    obtain ⟨mid, first, second⟩ := promoteOrphanedPrimaries_cons h
    obtain ⟨primary, oldest, _⟩ := promote_spec first
    rw [ih second, promote_albums first, List.map_map]
    apply List.map_congr_left
    intro a _
    rw [Function.comp_apply]
    by_cases here : a.groupKey = key ∧ db.primary a.groupKey = none ∧
        db.oldest a.groupKey = some a.id
    · -- the group has its primary from here on
      have held : mid.primary a.groupKey = some a.id := by
        rw [primary, here.2.1, here.2.2, if_pos here.1, Option.none_or]
      have listed : a.groupKey ∈ key :: keys := List.mem_cons.mpr (.inl here.1)
      rw [if_pos here]
      simp only [held, listed, here.2, reduceCtorEq, false_and, and_false, if_false, and_self, if_true]
    · rw [if_neg here]
      have agree : (a.groupKey ∈ keys ∧ mid.primary a.groupKey = none ∧
          mid.oldest a.groupKey = some a.id) ↔ a.groupKey ∈ key :: keys ∧
            db.primary a.groupKey = none ∧ db.oldest a.groupKey = some a.id := by
        rw [primary, oldest, Option.or_eq_none_iff, List.mem_cons]
        constructor
        · rintro ⟨listed, ⟨vacant, _⟩, least⟩
          exact ⟨.inr listed, vacant, least⟩
        · rintro ⟨listed, vacant, least⟩
          have other : a.groupKey ≠ key := fun same => here ⟨same, vacant, least⟩
          exact ⟨listed.resolve_left other, ⟨vacant, if_neg other⟩, least⟩
      simp only [agree]

theorem promoteOrphanedPrimaries_keepsRow {keys : List String}
    (h : promoteOrphanedPrimaries keys db = .ok db') (ha : a ∈ db.library.albums) :
    ∃ b ∈ db'.library.albums, b.id = a.id ∧ b.key = a.key ∧ b.details = a.details ∧
      b.artistSort = a.artistSort := by
  rw [promoteOrphanedPrimaries_albums h]
  refine ⟨_, List.mem_map_of_mem ha, ?_⟩
  split <;> exact ⟨rfl, rfl, rfl, rfl⟩

/-- The group has lost its primary version to a delete. -/
def lostPrimary (groupKey : String) (db db' : Database) : Bool :=
  (db.primary groupKey).any fun id => db'.library.albums.all fun a => a.id ≠ id

/-- The oldest album that is left of a group without its primary is promoted. -/
def promoted (db db' : Database) (a : AlbumRow) : AlbumRow :=
  if lostPrimary a.groupKey db db' ∧ db'.oldest a.groupKey = some a.id then
    { a with primaryVersion := true } else a

theorem lostPrimary_iff {groupKey : String} : lostPrimary groupKey db db' ↔
    ∃ id, db.primary groupKey = some id ∧ ∀ a ∈ db'.library.albums, a.id ≠ id := by
  simp [lostPrimary, Option.any_eq_true]

/-! ### The albums of other dirs -/

theorem importAlbums_otherDirs {kept : List UUID} (h : importAlbums albums db = .ok (db', kept))
    (ofDir : ∀ al ∈ albums, al.album.dirID = dirID) :
    db'.library.albums.filter (fun a => a.dirID ≠ dirID) =
      db.library.albums.filter fun a => a.dirID ≠ dirID := by
  induction albums generalizing db kept with
  | nil => cases h; rfl
  | cons al rest ih =>
    obtain ⟨mid, albumID, later, first, second, _⟩ := importAlbums_cons h
    obtain ⟨here, others⟩ := List.forall_mem_cons.mp ofDir
    rw [ih second others, (importAlbum_albums first).2.1]
    apply filter_upsertOn_of_disjoint
    · simp [newAlbum, here]
    · intro r _ key
      have own : r.dirID = dirID := (congrArg Prod.fst key).trans here
      simp [refreshAlbum, own]

/-- An album that the payload does not have comes out of the loop as it was. -/
theorem importAlbums_origin {kept : List UUID} (h : importAlbums albums db = .ok (db', kept))
    (ha : a ∈ db'.library.albums) (absent : a.key ∉ albums.map ImportAlbum.key) :
    a ∈ db.library.albums := by
  induction albums generalizing db kept with
  | nil => cases h; exact ha
  | cons al rest ih =>
    obtain ⟨mid, albumID, later, first, second, _⟩ := importAlbums_cons h
    rw [List.map_cons, List.mem_cons, not_or] at absent
    have hmid := ih second absent.2
    rw [(importAlbum_albums first).2.1] at hmid
    rcases mem_upsertOn hmid with ⟨rfl, _⟩ | ⟨old, _⟩ | ⟨old, _, same, rfl⟩
    · exact absurd rfl absent.1
    · exact old
    · exact absurd same absent.1

/-- A group is without a primary after the delete exactly if the delete took it. -/
theorem orphaned_iff {mid : Database} {kept : List UUID} {groupKey : String}
    (loop : importAlbums albums db = .ok (mid, kept))
    (h : promoteOrphanedPrimaries (mid.dirPrimaryGroups dirID)
      (mid.deleteAlbums (stale AlbumRow.id AlbumRow.dirID dirID kept)) = .ok db') :
    groupKey ∈ mid.dirPrimaryGroups dirID ∧
        (mid.deleteAlbums (stale AlbumRow.id AlbumRow.dirID dirID kept)).primary groupKey = none ↔
      lostPrimary groupKey db db' := by
  have rows := (promoteOrphanedPrimaries_spec h).2.2
  rw [lostPrimary_iff]
  constructor
  · rintro ⟨listed, vacant⟩
    obtain ⟨e, he, group⟩ := List.mem_map.mp listed
    obtain ⟨he, flags⟩ := List.mem_filter.mp he
    obtain ⟨own, flag⟩ := (Bool.and_eq_true _ _).mp flags
    have held : mid.primary groupKey = some e.id :=
      primary_eq_some_iff.mpr ⟨e, he, group, flag, rfl⟩
    rcases delete_primary held rfl with still | ⟨_, _, gone⟩
    · rw [vacant] at still
      cases still
    · -- what is deleted was there before the loop
      have unlisted : e.key ∉ albums.map ImportAlbum.key := by
        rw [← importAlbums_kept loop he]
        intro listed
        have stays : e ∈ deleteWhere (stale AlbumRow.id AlbumRow.dirID dirID kept)
            mid.library.albums := mem_deleteWhere.mpr ⟨he, by simp [stale, listed]⟩
        exact gone e stays rfl
      have before := importAlbums_origin loop he unlisted
      refine ⟨e.id, primary_eq_some_iff.mpr ⟨e, before, group, flag, rfl⟩, ?_⟩
      intro a ha same
      obtain ⟨b, hb, id, _⟩ := exists_album rows ha
      exact gone b hb (id.trans same)
  · rintro ⟨id, held, gone⟩
    rcases delete_primary (importAlbums_primary loop held) rfl with still | ⟨lost, listed, _⟩
    · obtain ⟨b, hb, _, _, same⟩ := primary_eq_some_iff.mp still
      obtain ⟨c, hc, idC, _⟩ := exists_album rows.symm hb
      exact absurd (idC.trans same) (gone c hc)
    · exact ⟨listed, lost⟩

theorem replaceDirAlbums_otherDirs (h : replaceDirAlbums dirID albums db = .ok db')
    (ofDir : ∀ al ∈ albums, al.album.dirID = dirID) :
    db'.library.albums.filter (fun a => a.dirID ≠ dirID) =
      (db.library.albums.filter fun a => a.dirID ≠ dirID).map (promoted db db') := by
  obtain ⟨mid, kept, loop, promotion⟩ := replaceDirAlbums_steps h
  have stays : (mid.deleteAlbums (stale AlbumRow.id AlbumRow.dirID dirID kept)).library.albums.filter
      (fun a => a.dirID ≠ dirID) = mid.library.albums.filter fun a => a.dirID ≠ dirID := by
    apply filter_deleteWhere_of_disjoint
    intro a _ other
    have other : a.dirID ≠ dirID := of_decide_eq_true other
    simp [stale, other]
  have dirs : ∀ (c : Prop) [Decidable c] (a : AlbumRow),
      (if c then { a with primaryVersion := true } else a).dirID = a.dirID := by
    intro c _ a
    split <;> rfl
  rw [promoteOrphanedPrimaries_albums promotion, List.filter_map, Function.comp_def]
  simp only [dirs]
  rw [stays, importAlbums_otherDirs loop ofDir]
  apply List.map_congr_left
  intro a _
  unfold promoted
  have oldest := (promoteOrphanedPrimaries_spec promotion).2.1 a.groupKey
  simp only [← orphaned_iff loop promotion, oldest, and_assoc]

/-! ### Payloads of the importer -/

/-- What the importer sends for a dir: its own albums, files of the dir, and every file and
offset once. -/
structure BuiltFor (dirID : UUID) (storage : ScanTables) (albums : List ImportAlbum) : Prop where
  dirs : ∀ al ∈ albums, al.album.dirID = dirID
  files : ∀ al ∈ albums, ∀ t ∈ al.tracks, storage.HasFile t.fileID dirID
  distinct : ((albums.flatMap ImportAlbum.tracks).map Track.key).Nodup

instance (dirID : UUID) (storage : ScanTables) (albums : List ImportAlbum) :
    Decidable (BuiltFor dirID storage albums) :=
  decidable_of_iff ((∀ al ∈ albums, al.album.dirID = dirID) ∧
    (∀ al ∈ albums, ∀ t ∈ al.tracks, storage.HasFile t.fileID dirID) ∧
    ((albums.flatMap ImportAlbum.tracks).map Track.key).Nodup)
  ⟨fun ⟨a, b, c⟩ => ⟨a, b, c⟩, fun ⟨a, b, c⟩ => ⟨a, b, c⟩⟩

/-- The file of every track is in the dir of its album. -/
def Homed (db : Database) : Prop :=
  ∀ r ∈ db.library.tracks, ∀ a ∈ db.library.albums, a.id = r.albumID →
    db.storage.HasFile r.fileID a.dirID

theorem hasFile_inj {t : ScanTables} (wf : t.WellFormed) {fileID d e : UUID}
    (first : t.HasFile fileID d) (second : t.HasFile fileID e) : d = e := by
  obtain ⟨f, hf, id, rfl⟩ := first
  obtain ⟨g, hg, same, rfl⟩ := second
  rw [wf.fileIDs.eq_of_key hf hg (id.trans same.symm)]

theorem replaceDirAlbums_contents (h : replaceDirAlbums dirID albums db = .ok db')
    (homed : db.Homed) (built : BuiltFor dirID db.storage albums) (ha : a ∈ db.library.albums)
    (other : a.dirID ≠ dirID) : db'.library.contents a.id = db.library.contents a.id := by
  obtain ⟨mid, kept, loop, promotion⟩ := replaceDirAlbums_steps h
  have apart : ∀ al ∈ albums, a.key ≠ al.key := by
    intro al hal same
    exact other ((congrArg Prod.fst same).trans (built.dirs al hal))
  -- a track under the album has a file of another dir
  have clear : ∀ al ∈ albums, ∀ r ∈ db.library.tracksOf a.id, ¬al.Lists r.key := by
    intro al hal r hr lists
    obtain ⟨t, ht, same⟩ := List.mem_map.mp lists
    obtain ⟨hr, owner⟩ := mem_tracksOf.mp hr
    have file : t.fileID = r.fileID := congrArg Prod.fst same
    have inside := file ▸ built.files al hal t ht
    exact other (hasFile_inj db.wellFormed (homed r hr a ha owner.symm) inside)
  obtain ⟨stays, same⟩ := importAlbums_contents loop ha apart clear
  have promotes : Keeps (contents a.id) _ db' :=
    promoteOrphanedPrimaries_keeps (fun _ _ => rfl) promotion
  rw [promotes.2, ← same]
  exact deleteAlbums_contents mid.unique stays (by simp [stale, other])

theorem replaceDirAlbums_carries (h : replaceDirAlbums dirID albums db = .ok db')
    (ha : a ∈ db'.library.albums) {al : ImportAlbum} (last : lastWith a.key albums = some al) :
    Carries al a db' := by
  obtain ⟨mid, kept, loop, promotion⟩ := replaceDirAlbums_steps h
  obtain ⟨b, hb, key, carries⟩ := importAlbums_carries loop last
  have stays : stale AlbumRow.id AlbumRow.dirID dirID kept b = false := by
    have listed : b.id ∈ kept := by
      rw [importAlbums_kept loop hb, key]
      have member := List.mem_of_getLast? last
      obtain ⟨hal, same⟩ := List.mem_filter.mp member
      exact List.mem_map.mpr ⟨al, hal, of_decide_eq_true same⟩
    simp [stale, listed]
  have left : b ∈ (mid.deleteAlbums (stale AlbumRow.id AlbumRow.dirID dirID kept)).library.albums :=
    mem_deleteWhere.mpr ⟨hb, stays⟩
  obtain ⟨c, hc, id, keyC, details, sort⟩ := promoteOrphanedPrimaries_keepsRow promotion left
  obtain rfl := db'.unique.albumKeys.eq_of_key hc ha (keyC.trans key)
  have same : Keeps (fun l => (l.artists, l.contents c.id)) _ db' :=
    promoteOrphanedPrimaries_keeps (fun _ _ => rfl) promotion
  obtain ⟨artists, under⟩ := Prod.mk.inj same.2
  have deleted := deleteAlbums_contents mid.unique hb stays
  refine ⟨details.trans carries.details, ?_, ?_⟩
  · rw [sort, carries.artistSort]
    exact (artistSort_congr artists _).symm
  · rw [← id] at deleted
    have rows : db'.library.artistsOf c.id = mid.library.artistsOf c.id :=
      congrArg AlbumContents.artists (under.trans deleted)
    rw [rows, id]
    exact carries.artists

theorem replaceDirAlbums_holds (h : replaceDirAlbums dirID albums db = .ok db')
    (distinct : ((albums.flatMap ImportAlbum.tracks).map Track.key).Nodup) {al : ImportAlbum}
    (hal : al ∈ albums) {t : Track} (ht : t ∈ al.tracks) : Holds al t db' := by
  obtain ⟨mid, kept, loop, promotion⟩ := replaceDirAlbums_steps h
  have holds := deleteAlbums_holds (p := stale AlbumRow.id AlbumRow.dirID dirID kept)
    (importAlbums_holds loop distinct hal ht)
  have same : Keeps (fun l => (l.tracks, l.trackCredits)) _ db' :=
    promoteOrphanedPrimaries_keeps (fun _ _ => rfl) promotion
  obtain ⟨tracks, credits⟩ := Prod.mk.inj same.2
  intro r hr key
  rw [tracks] at hr
  obtain ⟨details, owned, rows⟩ := holds r hr key
  refine ⟨details, ?_, ?_⟩
  · obtain ⟨b, hb, idB, keyB⟩ := albumKey_eq_some_iff.mp owned
    obtain ⟨c, hc, idC, keyC⟩ := exists_album (promoteOrphanedPrimaries_spec promotion).2.2.symm hb
    exact albumKey_eq_some_iff.mpr ⟨c, hc, idC.trans idB, keyC.trans keyB⟩
  · unfold creditsOf at rows ⊢
    rw [credits]
    exact rows

/-- A track under an album of the dir is one that the payload lists there. -/
theorem replaceDirAlbums_listed_track (h : replaceDirAlbums dirID albums db = .ok db')
    (distinct : ((albums.flatMap ImportAlbum.tracks).map Track.key).Nodup)
    (ha : a ∈ db'.library.albums) (own : a.dirID = dirID) {r : TrackRow}
    (hr : r ∈ db'.library.tracksOf a.id) :
    ∃ al ∈ albums, ∃ t ∈ al.tracks, al.key = a.key ∧ r.key = t.key ∧ r.details = t.details ∧
      db'.library.creditsOf r.id = trackCreditRows r.id t.credits := by
  obtain ⟨hr, owner⟩ := mem_tracksOf.mp hr
  have owned : db'.albumKey r.albumID = some a.key := owner ▸ albumKey_of_mem ha
  have listed : ∃ al ∈ albums, al.Lists r.key := by
    by_contra absent
    have absent : ∀ al ∈ albums, ¬al.Lists r.key := fun al hal lists => absent ⟨al, hal, lists⟩
    have found : db'.trackAt r.key = some ⟨r.id, a.key, r.details⟩ :=
      trackAt_eq_some_iff.mpr ⟨r, hr, rfl, rfl, rfl, owned⟩
    rw [replaceDirAlbums_trackAt h, claimTracks_of_absent absent, Option.filter_eq_some_iff,
      Option.filter_eq_some_iff] at found
    have gone := of_decide_eq_true found.1.2
    have stays := found.2
    have here : a.key.1 = dirID := own
    simp [ownerStays, here] at stays
    exact gone (List.mem_map.mpr stays)
  obtain ⟨al, hal, lists⟩ := listed
  obtain ⟨t, ht, same⟩ := List.mem_map.mp lists
  obtain ⟨details, key, credits⟩ := replaceDirAlbums_holds h distinct hal ht r hr same.symm
  rw [owned] at key
  exact ⟨al, hal, t, ht, (Option.some.inj key).symm, same.symm, details, credits⟩

/-! ### The whole effect -/

/-- The sort name of the first credited artist, empty if there is none. -/
def SortsBy (artists : List AlbumArtist) (sort : String) (db : Database) : Prop :=
  match artists with
  | [] => sort = ""
  | aa :: _ => ∃ artist ∈ db.library.artists, artist.id = aa.artistID ∧ sort = artist.sortName

/-- `db'` is `db` after an import of the dir, with nothing stale and nothing else touched. -/
structure Replaced (dirID : UUID) (albums : List ImportAlbum) (db db' : Database) : Prop where
  /-- The dir has one album for each group key of the payload. -/
  groups : ((db'.library.albums.filter fun a => a.dirID = dirID).map AlbumRow.groupKey).Perm
    (albums.map fun al => al.album.groupKey).dedup
  /-- It carries what the last album of the payload with the key has. -/
  carries : ∀ a ∈ db'.library.albums, a.dirID = dirID → ∃ al, lastWith a.key albums = some al ∧
    Carries al a db' ∧ SortsBy al.album.artists a.artistSort db'
  /-- Every track under it is one of the payload's. -/
  tracks : ∀ a ∈ db'.library.albums, a.dirID = dirID → ∀ r ∈ db'.library.tracksOf a.id,
    ∃ al ∈ albums, ∃ t ∈ al.tracks, al.key = a.key ∧ r.key = t.key ∧ r.details = t.details ∧
      db'.library.creditsOf r.id = trackCreditRows r.id t.credits
  /-- The albums of other dirs stay as they are, but for the flag of one that is promoted. -/
  others : db'.library.albums.filter (fun a => a.dirID ≠ dirID) =
    (db.library.albums.filter fun a => a.dirID ≠ dirID).map (promoted db db')
  /-- What is under them stays. -/
  contents : ∀ a ∈ db.library.albums, a.dirID ≠ dirID →
    db'.library.contents a.id = db.library.contents a.id
  /-- A group that lost its primary has its oldest album in its place. -/
  primaries : ∀ groupKey, lostPrimary groupKey db db' →
    db'.primary groupKey = db'.oldest groupKey

theorem Carries.sortsBy {al : ImportAlbum} (carries : Carries al a db) :
    SortsBy al.album.artists a.artistSort db := by
  have rows := carries.artists
  rw [carries.artistSort]
  unfold SortsBy Database.artistSort
  cases credited : al.album.artists with
  | nil => rfl
  | cons aa rest =>
    rw [credited, albumArtistRows, List.zipIdx_cons, List.eraseDupsBy_cons, List.map_cons] at rows
    have stored : (⟨a.id, aa.artistID, aa.creditedName, 0⟩ : AlbumArtistRow) ∈
        db.library.albumArtists := by
      refine (List.mem_filter.mp (?_ : _ ∈ db.library.artistsOf a.id)).1
      rw [rows]
      exact List.mem_cons_self
    obtain ⟨artist, known, id⟩ := db.referenced.albumArtistArtists.exists_parent stored
    have id : artist.id = aa.artistID := id
    refine ⟨artist, known, id, ?_⟩
    have found := db.unique.artistIDs.lookup_of_mem known
    rw [id] at found
    simp [found]

theorem replaceDirAlbums_groups (h : replaceDirAlbums dirID albums db = .ok db')
    (ofDir : ∀ al ∈ albums, al.album.dirID = dirID) :
    ((db'.library.albums.filter fun a => a.dirID = dirID).map AlbumRow.groupKey).Perm
      (albums.map fun al => al.album.groupKey).dedup := by
  have rows : (db'.library.albums.filter fun a => a.dirID = dirID).Nodup :=
    List.Nodup.of_map AlbumRow.key (db'.unique.albumKeys.filter _)
  have distinct :
      ((db'.library.albums.filter fun a => a.dirID = dirID).map AlbumRow.groupKey).Nodup := by
    apply List.Nodup.map_on ?_ rows
    intro a ha b hb same
    obtain ⟨ha, ownA⟩ := List.mem_filter.mp ha
    obtain ⟨hb, ownB⟩ := List.mem_filter.mp hb
    have dirs : a.dirID = b.dirID := (of_decide_eq_true ownA).trans (of_decide_eq_true ownB).symm
    exact db'.unique.albumKeys.eq_of_key ha hb (Prod.ext dirs same)
  apply (List.perm_ext_iff_of_nodup distinct (List.nodup_dedup _)).mpr
  intro groupKey
  rw [List.mem_dedup, List.mem_map, List.mem_map]
  constructor
  · rintro ⟨a, ha, rfl⟩
    obtain ⟨ha, own⟩ := List.mem_filter.mp ha
    obtain ⟨al, hal, key⟩ :=
      List.mem_map.mp (replaceDirAlbums_listed h ha (of_decide_eq_true own))
    exact ⟨al, hal, congrArg Prod.snd key⟩
  · rintro ⟨al, hal, rfl⟩
    obtain ⟨a, ha, key⟩ := replaceDirAlbums_stores h hal
    have own : a.dirID = dirID := (congrArg Prod.fst key).trans (ofDir al hal)
    exact ⟨a, List.mem_filter.mpr ⟨ha, decide_eq_true own⟩, congrArg Prod.snd key⟩

theorem exists_lastWith {key : UUID × String} (listed : key ∈ albums.map ImportAlbum.key) :
    ∃ al, lastWith key albums = some al := by
  obtain ⟨al, hal, same⟩ := List.mem_map.mp listed
  have member : al ∈ albums.filter fun al => al.key = key :=
    List.mem_filter.mpr ⟨hal, decide_eq_true same⟩
  cases last : lastWith key albums with
  | some al => exact ⟨al, rfl⟩
  | none =>
    have empty := List.getLast?_eq_none_iff.mp last
    rw [empty] at member
    cases member

theorem Homed.replaced (homed : db.Homed) (built : BuiltFor dirID db.storage albums)
    (h : replaceDirAlbums dirID albums db = .ok db') : Replaced dirID albums db db' where
  groups := replaceDirAlbums_groups h built.dirs
  carries := by
    intro a ha own
    obtain ⟨al, last⟩ := exists_lastWith (replaceDirAlbums_listed h ha own)
    have carries := replaceDirAlbums_carries h ha last
    exact ⟨al, last, carries, carries.sortsBy⟩
  tracks := fun _ ha own _ hr => replaceDirAlbums_listed_track h built.distinct ha own hr
  others := replaceDirAlbums_otherDirs h built.dirs
  contents := fun _ ha other => replaceDirAlbums_contents h homed built ha other
  primaries := by
    intro groupKey lost
    obtain ⟨id, held, gone⟩ := lostPrimary_iff.mp lost
    rcases replaceDirAlbums_primary h held with ⟨⟨a, ha, same⟩, _⟩ | ⟨_, passed⟩
    · exact absurd same (gone a ha)
    · exact passed

/-! ### Runs -/

/-- The import of a dir that leaves its files in it. -/
theorem Replaced.homed (replaced : Replaced dirID albums db db') (homed : db.Homed)
    (built : BuiltFor dirID db.storage albums) (storage : db'.storage = db.storage) :
    db'.Homed := by
  intro r hr a ha owner
  have under : r ∈ db'.library.tracksOf a.id := mem_tracksOf.mpr ⟨hr, owner.symm⟩
  rw [storage]
  by_cases own : a.dirID = dirID
  · obtain ⟨al, hal, t, ht, _, key, _⟩ := replaced.tracks a ha own r under
    have file : r.fileID = t.fileID := congrArg Prod.fst key
    rw [file, own]
    exact built.files al hal t ht
  · have listed : a ∈ db'.library.albums.filter fun a => a.dirID ≠ dirID :=
      List.mem_filter.mpr ⟨ha, decide_eq_true own⟩
    rw [replaced.others] at listed
    obtain ⟨b, hb, rfl⟩ := List.mem_map.mp listed
    have same : (promoted db db' b).id = b.id ∧ (promoted db db' b).dirID = b.dirID := by
      unfold promoted
      split <;> exact ⟨rfl, rfl⟩
    obtain ⟨hb, other⟩ := List.mem_filter.mp hb
    rw [same.1, tracksOf_of_contents (replaced.contents b hb (of_decide_eq_true other))] at under
    obtain ⟨before, owner⟩ := mem_tracksOf.mp under
    rw [same.2]
    exact homed r before b hb owner.symm

theorem deleteLocation_homed {id : UUID} (h : db.deleteLocation id = .ok db') (homed : db.Homed) :
    db'.Homed := by
  have library := deleteLocation_library h
  obtain ⟨storage, albums⟩ := deleteLocation_spec h
  intro r hr a ha owner
  obtain ⟨f, hf, file⟩ := db'.referenced.trackFiles.exists_parent hr
  have before : r ∈ db.library.tracks := by
    rw [library] at hr
    exact (mem_deleteWhere.mp (mem_deleteWhere.mp hr).1).1
  rw [albums] at ha
  obtain ⟨g, hg, fileG, dir⟩ := homed r before a (mem_deleteWhere.mp ha).1 owner
  have old : f ∈ db.storage.files := by
    rw [storage] at hf
    exact (mem_cascade.mp hf).1
  obtain rfl := db.wellFormed.fileIDs.eq_of_key old hg (file.trans fileG.symm)
  exact ⟨f, hf, file, dir⟩

/-- A write is one of the importer's, if it imports a dir at all. -/
def FromImporter (db : Database) : Write → Prop
  | .replaceDirAlbums dirID albums => BuiltFor dirID db.storage albums
  | _ => True

instance (db : Database) (w : Write) : Decidable (FromImporter db w) :=
  match w with
  | .replaceDirAlbums dirID albums =>
    inferInstanceAs (Decidable (BuiltFor dirID db.storage albums))
  | .insertLocation .. | .updateLocation .. | .deleteLocation _ | .beginScan .. | .finishScan ..
  | .abortRunningScans _ | .syncDir .. | .sweep .. | .dirtyDirs _ | .releaseDir ..
  | .releaseAndRedirty .. | .upsertImage _ | .insertArtist .. => .isTrue trivial

theorem Homed.of_library (homed : db.Homed)
    (tracks : db'.library.tracks = db.library.tracks) (rows : db'.library.albums = db.library.albums)
    (files : ∀ fileID dirID, db.storage.HasFile fileID dirID → db'.storage.HasFile fileID dirID) :
    db'.Homed := by
  intro r hr a ha owner
  rw [tracks] at hr
  rw [rows] at ha
  exact files _ _ (homed r hr a ha owner)

theorem step_homed {w : Write} (h : step db w = some db') (honest : FromImporter db w)
    (homed : db.Homed) : db'.Homed := by
  rcases step_cases h with ⟨id, _, deleted⟩ | ⟨dirID, albums, rfl, imported⟩ |
    ⟨artist, aliases, _, added⟩ | ⟨img, id, _, stored⟩ | ⟨same, files⟩
  · exact deleteLocation_homed deleted homed
  · exact (homed.replaced honest imported).homed homed honest (replaceDirAlbums_storage imported)
  · have kept : Keeps (fun l => (l.tracks, l.albums)) db db' :=
      insertArtist_keeps (fun _ _ => rfl) (fun _ _ => rfl) added
    obtain ⟨tracks, rows⟩ := Prod.mk.inj kept.2
    exact homed.of_library tracks rows fun _ _ has => kept.1 ▸ has
  · have kept : Keeps (fun l => (l.tracks, l.albums)) db db' :=
      upsertImage_keeps (fun _ _ => rfl) stored
    obtain ⟨tracks, rows⟩ := Prod.mk.inj kept.2
    exact homed.of_library tracks rows fun _ _ has => kept.1 ▸ has
  · exact homed.of_library (by rw [same]) (by rw [same]) files

theorem run_homed {writes : List Write} (h : Transition.run step db writes = some db')
    (honest : Transition.StepsMeet step FromImporter db writes) (homed : db.Homed) :
    db'.Homed := by
  induction writes generalizing db with
  | nil => cases h; exact homed
  | cons w rest ih =>
    obtain ⟨mid, first, second⟩ := Option.bind_eq_some_iff.mp h
    obtain ⟨here, later⟩ := honest mid first
    exact ih second later (step_homed first here homed)

/-- From an empty database, whatever was written before by scans and imports. -/
theorem import_replaces_dir {writes : List Write}
    (run : Transition.run step empty writes = some db)
    (honest : Transition.StepsMeet step FromImporter empty writes)
    (built : BuiltFor dirID db.storage albums) (h : replaceDirAlbums dirID albums db = .ok db') :
    Replaced dirID albums db db' := by
  have none : empty.Homed := by
    intro r hr
    cases hr
  exact (run_homed run honest none).replaced built h

/-- Both dirs hold a version of the release, and two artists are known. -/
def twoArtists : List Write :=
  twoVersions ++ [.insertArtist ⟨50, "Ann", "Ann"⟩ ["ann"], .insertArtist ⟨51, "Bob", "Bob"⟩ ["bob"]]

/-- The release of dir 10 is retagged. Two albums have one key, with artists and credits
that repeat. -/
def regrouped : List ImportAlbum :=
  [albumIn 32 10 "other" [wholeFile 42 20],
    { album := { (albumIn 33 10 "other" []).album with
        artists := [⟨51, "Bob"⟩, ⟨50, "Ann"⟩, ⟨51, "Bobby"⟩] }
      tracks := [{ wholeFile 43 21 with
        credits := [⟨50, "Ann", "main"⟩, ⟨50, "Annie", "main"⟩] }] }]

theorem regrouped_replaced : Replaced 10 regrouped (afterWrites twoArtists (by decide))
    (afterWrites (twoArtists ++ [.replaceDirAlbums 10 regrouped]) (by decide)) :=
  import_replaces_dir (afterWrites_run _ _) (by decide) (by decide) (by rfl)

end Database

end Byom.Sqlite
