import Byom.Sqlite.TrackView

/-!
# The image links of an album

`links` reads the tables as a map from the images of an album to their `set_cover`
flags. On that map the import of an album is `syncLinks`, and to sync against the
same images again changes nothing.
-/

namespace Byom.Sqlite

open Storage Relational Library Metadata

section Sync

variable {images : List AlbumImage} {old : UUID → Option Bool} {image : UUID}

/-- A cover is left once the links to images that are not listed are gone. -/
def coverSurvives (images : List AlbumImage) (old : UUID → Option Bool) : Bool :=
  images.any fun img => old img.imageID = some true

/-- A flag that is stored stays. The default of a new link counts if no cover survives. -/
def syncLinks (images : List AlbumImage) (old : UUID → Option Bool) (image : UUID) : Option Bool :=
  (lookup AlbumImage.imageID image images).map fun img =>
    (old image).getD (img.setCover && !coverSurvives images old)

@[simp] theorem syncLinks_syncLinks (images : List AlbumImage) (old : UUID → Option Bool) :
    syncLinks images (syncLinks images old) = syncLinks images old := by
  funext image
  unfold syncLinks
  cases lookup AlbumImage.imageID image images <;> rfl

theorem syncLinks_keepsCover (listed : image ∈ images.map AlbumImage.imageID)
    (cover : old image = some true) : syncLinks images old image = some true := by
  unfold syncLinks
  cases found : lookup AlbumImage.imageID image images with
  | none =>
    obtain ⟨img, himg, same⟩ := List.mem_map.mp listed
    exact absurd same (lookup_eq_none_iff.mp found img himg)
  | some img => simp [cover]

/-- An album has a cover after the sync if it keeps one, or if the default is a new link. -/
theorem exists_cover_iff (distinct : UniqueOn AlbumImage.imageID images) :
    (∃ image, syncLinks images old image = some true) ↔
      (∃ image ∈ images.map AlbumImage.imageID, old image = some true) ∨
        ∃ img ∈ images, img.setCover = true ∧ old img.imageID = none := by
  constructor
  · rintro ⟨image, synced⟩
    obtain ⟨img, found, flag⟩ := Option.map_eq_some_iff.mp synced
    obtain rfl := key_of_lookup found
    have himg := mem_of_lookup found
    cases stored : old img.imageID with
    | some cover =>
      rw [stored, Option.getD_some] at flag
      exact .inl ⟨img.imageID, List.mem_map_of_mem himg, flag ▸ stored⟩
    | none =>
      rw [stored, Option.getD_none, Bool.and_eq_true] at flag
      exact .inr ⟨img, himg, flag.1, stored⟩
  · rintro (⟨image, listed, cover⟩ | ⟨img, himg, default, new⟩)
    · exact ⟨image, syncLinks_keepsCover listed cover⟩
    · cases survives : coverSurvives images old with
      | true =>
        obtain ⟨kept, hkept, cover⟩ := List.any_eq_true.mp survives
        exact ⟨kept.imageID,
          syncLinks_keepsCover (List.mem_map_of_mem hkept) (by simpa using cover)⟩
      | false =>
        refine ⟨img.imageID, ?_⟩
        simp [syncLinks, distinct.lookup_of_mem himg, new, default, survives]

end Sync

namespace Database

variable {db db' : Database} {albumID id image : UUID} {k : UUID × String}

/-- The `set_cover` flag of the link between an album and an image. -/
def coverFlag (albumID image : UUID) (db : Database) : Option Bool :=
  (lookup AlbumImageRow.key (albumID, image) db.library.albumImages).map AlbumImageRow.setCover

/-- The links of the album with a key. -/
def links (k : UUID × String) (db : Database) (image : UUID) : Option Bool :=
  (lookup AlbumRow.key k db.library.albums).bind fun a => db.coverFlag a.id image

theorem coverFlag_eq_some_iff {cover : Bool} : db.coverFlag albumID image = some cover ↔
    ∃ i ∈ db.library.albumImages, i.key = (albumID, image) ∧ i.setCover = cover := by
  unfold coverFlag
  rw [Option.map_eq_some_iff]
  simp [db.unique.albumImages.lookup_eq_some_iff, and_assoc]

theorem coverFlag_eq_none_iff : db.coverFlag albumID image = none ↔
    ∀ i ∈ db.library.albumImages, i.key ≠ (albumID, image) := by
  unfold coverFlag
  rw [Option.map_eq_none_iff, lookup_eq_none_iff]

theorem coverFlag_congr (same : db'.library.albumImages = db.library.albumImages)
    (albumID image : UUID) : db'.coverFlag albumID image = db.coverFlag albumID image := by
  unfold coverFlag
  rw [same]

theorem links_of_mem {a : AlbumRow} (ha : a ∈ db.library.albums) :
    db.links a.key = fun image => db.coverFlag a.id image := by
  funext image
  unfold links
  rw [db.unique.albumKeys.lookup_of_mem ha, Option.bind_some]

theorem hasCover_iff : db.hasCover albumID = true ↔
    ∃ image, db.coverFlag albumID image = some true := by
  unfold hasCover
  rw [List.any_eq_true]
  constructor
  · rintro ⟨i, hi, own⟩
    obtain ⟨rfl, cover⟩ : i.albumID = albumID ∧ i.setCover = true := by simpa using own
    exact ⟨i.imageID, coverFlag_eq_some_iff.mpr ⟨i, hi, rfl, cover⟩⟩
  · rintro ⟨image, flag⟩
    obtain ⟨i, hi, key, cover⟩ := coverFlag_eq_some_iff.mp flag
    have own : i.albumID = albumID := congrArg Prod.fst key
    exact ⟨i, hi, by simp [own, cover]⟩

/-- The partial index: an album has one cover row if it has any. -/
theorem coverRows_length_iff :
    (db.library.albumImages.filter fun i => i.albumID = albumID && i.setCover).length = 1 ↔
      ∃ image, db.coverFlag albumID image = some true := by
  rw [← hasCover_iff, hasCover, List.any_eq_true]
  constructor
  · intro one
    obtain ⟨i, single⟩ := List.length_eq_one_iff.mp one
    have found : i ∈ db.library.albumImages.filter fun i => i.albumID = albumID && i.setCover := by
      simp [single]
    exact ⟨i, List.mem_filter.mp found⟩
  · rintro ⟨i, hi, own⟩
    have own' : i.albumID = albumID ∧ i.setCover = true := by simpa using own
    have indexed : (db.library.albumImages.filter fun i => i.albumID = albumID && i.setCover) =
        (db.library.albumImages.filter AlbumImageRow.setCover).filter fun i =>
          i.albumID = albumID := by
      rw [List.filter_filter]
    have single := db.unique.covers.filter_eq_singleton
      (p := fun i => i.albumID = albumID) (r := i) (List.mem_filter.mpr ⟨hi, own'.2⟩)
      (by simpa using own'.1) fun j _ other => (by simpa using other : j.albumID = albumID).trans
        own'.1.symm
    rw [indexed, single]
    rfl

/-! ### The links of one album -/

theorem upsertAlbumImage_coverFlag {img : AlbumImage} {cover : Bool}
    (h : db.write (fun l =>
      { l with
        albumImages := upsertOn AlbumImageRow.key (refreshAlbumImage img)
          (newAlbumImage albumID cover img) l.albumImages }) = .ok db')
    (id image : UUID) : db'.coverFlag id image =
      if (id, image) = (albumID, img.imageID) then
        some ((db.coverFlag id image).getD (img.setCover && !cover))
      else db.coverFlag id image := by
  have keeps : ∀ r : AlbumImageRow, (refreshAlbumImage img r).key = r.key := fun _ => rfl
  unfold coverFlag
  rw [(write_spec h).2]
  split
  · rename_i same
    rw [same]
    change (lookup AlbumImageRow.key (newAlbumImage albumID cover img).key _).map _ = _
    rw [lookup_upsertOn_self _ _ keeps, upserted]
    change _ = some ((Option.map _ (lookup AlbumImageRow.key (newAlbumImage albumID cover img).key
      db.library.albumImages)).getD _)
    cases lookup AlbumImageRow.key (newAlbumImage albumID cover img).key db.library.albumImages <;>
      rfl
  · rename_i other
    rw [lookup_upsertOn_ne keeps other]

theorem upsertAlbumImages_coverFlag {images : List AlbumImage} {cover : Bool}
    (h : upsertAlbumImages albumID cover images db = .ok db') (image : UUID) :
    db'.coverFlag albumID image = ((lookup AlbumImage.imageID image images).map fun img =>
      (db.coverFlag albumID image).getD (img.setCover && !cover)).or
        (db.coverFlag albumID image) := by
  induction images generalizing db with
  | nil => cases h; rfl
  | cons img rest ih =>
    obtain ⟨mid, first, second⟩ := bind_ok h
    rw [ih second, upsertAlbumImage_coverFlag first]
    by_cases same : image = img.imageID
    · -- later entries for the image find the link
      subst same
      have found : lookup AlbumImage.imageID img.imageID (img :: rest) = some img := by
        simp [lookup]
      rw [found]
      cases lookup AlbumImage.imageID img.imageID rest <;> simp
    · have later : lookup AlbumImage.imageID image (img :: rest) =
          lookup AlbumImage.imageID image rest := by
        simp [lookup, Ne.symm same]
      simp [later, same]

theorem upsertAlbumImages_other {images : List AlbumImage} {cover : Bool}
    (h : upsertAlbumImages albumID cover images db = .ok db') (other : id ≠ albumID)
    (image : UUID) : db'.coverFlag id image = db.coverFlag id image := by
  induction images generalizing db with
  | nil => cases h; rfl
  | cons img rest ih =>
    obtain ⟨mid, first, second⟩ := bind_ok h
    rw [ih second, upsertAlbumImage_coverFlag first]
    simp [other]

/-- The delete of the links to images that are not listed. -/
theorem deleteLinks_coverFlag {keep : List UUID}
    (h : db.write (fun l =>
      { l with
        albumImages := deleteWhere (stale AlbumImageRow.imageID AlbumImageRow.albumID albumID keep)
          l.albumImages }) = .ok db')
    (id image : UUID) : db'.coverFlag id image =
      if id = albumID ∧ image ∉ keep then none else db.coverFlag id image := by
  unfold coverFlag
  rw [(write_spec h).2]
  change (lookup _ _ (deleteWhere _ db.library.albumImages)).map _ = _
  rw [db.unique.albumImages.lookup_deleteWhere]
  cases found : lookup AlbumImageRow.key (id, image) db.library.albumImages with
  | none => simp
  | some i =>
    have own : i.albumID = id := congrArg Prod.fst (key_of_lookup found)
    have shown : i.imageID = image := congrArg Prod.snd (key_of_lookup found)
    by_cases owned : id = albumID <;> by_cases listed : image ∈ keep <;>
      simp [Option.filter, stale, own, shown, owned, listed]

theorem replaceAlbumImages_coverFlag {images : List AlbumImage}
    (h : replaceAlbumImages albumID images db = .ok db') (id : UUID) :
    (fun image => db'.coverFlag id image) =
      if id = albumID then syncLinks images fun image => db.coverFlag id image
      else fun image => db.coverFlag id image := by
  obtain ⟨mid, first, second⟩ := bind_ok h
  funext image
  split
  · rename_i own
    subst own
    have kept : ∀ image, mid.coverFlag id image =
        if image ∈ images.map AlbumImage.imageID then db.coverFlag id image else none := by
      intro image
      rw [deleteLinks_coverFlag first]
      split <;> simp_all
    have survives : mid.hasCover id = coverSurvives images fun image => db.coverFlag id image := by
      rw [Bool.eq_iff_iff, hasCover_iff]
      simp [coverSurvives, kept]
    rw [upsertAlbumImages_coverFlag second, survives, kept, syncLinks]
    cases found : lookup AlbumImage.imageID image images with
    | none =>
      have absent : image ∉ images.map AlbumImage.imageID := by
        simpa using lookup_eq_none_iff.mp found
      rw [if_neg absent]
      rfl
    | some img =>
      have listed : image ∈ images.map AlbumImage.imageID :=
        List.mem_map.mpr ⟨img, mem_of_lookup found, key_of_lookup found⟩
      rw [if_pos listed]
      rfl
  · rename_i other
    rw [upsertAlbumImages_other second other, deleteLinks_coverFlag first]
    simp [other]

/-! ### One album, and the whole payload -/

theorem links_eq_none (absent : lookup AlbumRow.key k db.library.albums = none) (image : UUID) :
    db.links k image = none := by
  unfold links
  rw [absent, Option.bind_none]

/-- An ID that no album has is in no link. -/
theorem coverFlag_of_new (new : ∀ a ∈ db.library.albums, a.id ≠ id) (image : UUID) :
    db.coverFlag id image = none := by
  rw [coverFlag_eq_none_iff]
  intro i hi key
  obtain ⟨a, ha, own⟩ := db.referenced.albumImageAlbums.exists_parent hi
  exact new a ha (own.trans (congrArg Prod.fst key))

section Imports

variable {al : ImportAlbum} {albums : List ImportAlbum} {images : List AlbumImage}
  {kept : List UUID}

/-- The upsert finds the links of the album that was there, or a new album without links. -/
theorem upsertAlbum_links {a : Album} (h : upsertAlbum a db = .ok (db', albumID)) (image : UUID) :
    db'.coverFlag albumID image = db.links (a.dirID, a.groupKey) image := by
  obtain ⟨albums, id⟩ := upsertAlbum_spec h
  have keeps : Keeps LibraryTables.albumImages db db' := upsertAlbum_keeps (fun _ _ => rfl) h
  rw [coverFlag_congr keeps.2, id, upserted]
  cases found : lookup AlbumRow.key (newAlbum a db).key db.library.albums with
  | some old =>
    rw [links, show lookup AlbumRow.key (a.dirID, a.groupKey) _ = some old from found]
    rfl
  | none =>
    rw [links_eq_none (k := (a.dirID, a.groupKey)) found]
    apply coverFlag_of_new
    -- the row is appended, and album IDs are unique after that too
    have unique := db'.unique.albumIDs
    rw [albums, upsertOn_of_absent _ found, UniqueOn, List.map_append, List.nodup_append] at unique
    exact fun b hb => unique.2.2 b.id (List.mem_map_of_mem hb) _ (by simp)

theorem importAlbum_links (h : importAlbum al db = .ok (db', albumID)) (k : UUID × String) :
    db'.links k = if k = al.key then syncLinks al.album.images (db.links k) else db.links k := by
  obtain ⟨stored, credited, linked, listed, keptTracks, first, second, third, fourth, rfl⟩ :=
    importAlbum_steps h
  have before : Keeps (fun l => (l.albums, l.albumImages)) stored credited :=
    replaceAlbumArtists_keeps (fun _ _ => rfl) second
  have sync : Keeps LibraryTables.albums credited linked :=
    replaceAlbumImages_keeps (fun _ _ => rfl) third
  have after : Keeps (fun l => (l.albums, l.albumImages)) linked listed :=
    importTracks_keeps (fun _ _ _ => rfl) fourth
  obtain ⟨beforeAlbums, beforeLinks⟩ := Prod.mk.inj before.2
  obtain ⟨afterAlbums, afterLinks⟩ := Prod.mk.inj after.2
  have albums := afterAlbums.trans (sync.2.trans beforeAlbums)
  have flags : ∀ id, (fun image => listed.coverFlag id image) =
      if id = albumID then syncLinks al.album.images fun image => stored.coverFlag albumID image
      else fun image => stored.coverFlag id image := by
    intro id
    have synced := replaceAlbumImages_coverFlag third id
    simp only [coverFlag_congr beforeLinks] at synced
    simp only [coverFlag_congr afterLinks, synced]
    split
    · rename_i own
      rw [own]
    · rfl
  funext image
  change (lookup AlbumRow.key k listed.library.albums).bind
    (fun a => listed.coverFlag a.id image) = _
  rw [albums, (upsertAlbum_spec first).1]
  split
  · rename_i own
    subst own
    change (lookup AlbumRow.key (newAlbum al.album db).key _).bind _ = _
    rw [lookup_upsertOn_self _ _ (refreshAlbum_key al.album db), Option.bind_some,
      ← (upsertAlbum_spec first).2]
    rw [congrFun (flags albumID) image, if_pos rfl]
    congr 1
    funext image
    exact upsertAlbum_links first image
  · rename_i other
    rw [lookup_upsertOn_ne (refreshAlbum_key al.album db) other]
    unfold links
    cases found : lookup AlbumRow.key k db.library.albums with
    | none => rfl
    | some a =>
      -- another key, so another ID
      have apart : a.id ≠ albumID := by
        intro same
        have keyA : stored.albumKey a.id = some k := by
          obtain ⟨b, hb, idB, keyB⟩ : ∃ b ∈ stored.library.albums, b.id = a.id ∧ b.key = a.key := by
            refine ⟨_, (upsertAlbum_spec first).1 ▸ upsertOn_keeps (mem_of_lookup found), ?_⟩
            split <;> exact ⟨rfl, rfl⟩
          exact albumKey_eq_some_iff.mpr ⟨b, hb, idB, keyB.trans (key_of_lookup found)⟩
        have keyAl := importAlbum_key h
        have same' : listed.albumKey albumID = stored.albumKey albumID := by
          unfold albumKey
          rw [albums]
        change listed.albumKey albumID = _ at keyAl
        rw [same', ← same, keyA] at keyAl
        exact other (Option.some.inj keyAl)
      rw [Option.bind_some, Option.bind_some, congrFun (flags a.id) image, if_neg apart]
      exact coverFlag_congr (upsertAlbum_keeps (f := LibraryTables.albumImages) (fun _ _ => rfl)
        first).2 a.id image

/-- Albums of the payload with one key sync against the same images, once is enough. -/
theorem importAlbums_links (h : importAlbums albums db = .ok (db', kept))
    (uniform : ∀ al ∈ albums, al.album.images = images) (k : UUID × String) :
    db'.links k =
      if k ∈ albums.map ImportAlbum.key then syncLinks images (db.links k) else db.links k := by
  induction albums generalizing db kept with
  | nil => cases h; simp
  | cons al rest ih =>
    obtain ⟨mid, albumID, later, first, second, _⟩ := importAlbums_cons h
    obtain ⟨own, others⟩ := List.forall_mem_cons.mp uniform
    rw [ih second others, importAlbum_links first, own]
    by_cases here : k = al.key <;> by_cases again : k ∈ rest.map ImportAlbum.key <;>
      simp [here, again]

theorem importAlbums_stores (h : importAlbums albums db = .ok (db', kept))
    (hal : al ∈ albums) : ∃ a ∈ db'.library.albums, a.key = al.key := by
  induction albums generalizing db kept with
  | nil => cases hal
  | cons first rest ih =>
    obtain ⟨mid, albumID, later, one, others, _⟩ := importAlbums_cons h
    rcases List.mem_cons.mp hal with rfl | hal
    · obtain ⟨b, hb, _, keyB⟩ := albumKey_eq_some_iff.mp (importAlbum_key one)
      obtain ⟨c, hc, _, keyC, _⟩ := importAlbums_keepsAlbum others hb
      exact ⟨c, hc, keyC.trans keyB⟩
    · exact ih others hal

end Imports

/-! ### The delete and the promotion -/

section Replace

variable {dirID : UUID} {albums : List ImportAlbum} {images : List AlbumImage} {a : AlbumRow}

/-- The delete of other albums leaves the links of an album alone. -/
theorem deleteAlbums_coverFlag {p : AlbumRow → Bool} (ha : a ∈ db.library.albums)
    (stays : p a = false) (image : UUID) :
    (db.deleteAlbums p).coverFlag a.id image = db.coverFlag a.id image := by
  have kept : a.id ∉ deletedKeys AlbumRow.id p db.library.albums := by
    rw [db.unique.albumIDs.key_deleted ha, stays]
    simp
  unfold coverFlag
  change (lookup _ _ (deleteWhere _ db.library.albumImages)).map _ = _
  rw [db.unique.albumImages.lookup_deleteWhere]
  cases found : lookup AlbumImageRow.key (a.id, image) db.library.albumImages with
  | none => rfl
  | some i =>
    have own : i.albumID = a.id := congrArg Prod.fst (key_of_lookup found)
    simp [Option.filter, own, kept]

/-- An album that is there after an import comes out of the loop with its links. -/
theorem replaceDirAlbums_origin (h : replaceDirAlbums dirID albums db = .ok db')
    (ha : a ∈ db'.library.albums) :
    ∃ mid keptAlbums, importAlbums albums db = .ok (mid, keptAlbums) ∧
      ∃ b ∈ mid.library.albums, b.id = a.id ∧ b.key = a.key ∧
        stale AlbumRow.id AlbumRow.dirID dirID keptAlbums b = false ∧
          ∀ image, db'.coverFlag a.id image = mid.coverFlag b.id image := by
  obtain ⟨mid, keptAlbums, loop, promoted⟩ := replaceDirAlbums_steps h
  have links : Keeps LibraryTables.albumImages _ db' :=
    promoteOrphanedPrimaries_keeps (fun _ _ => rfl) promoted
  obtain ⟨b, hb, id, key⟩ := exists_album (promoteOrphanedPrimaries_spec promoted).2.2 ha
  obtain ⟨hb, fresh⟩ := mem_deleteWhere.mp hb
  refine ⟨mid, keptAlbums, loop, b, hb, id, key, fresh, fun image => ?_⟩
  rw [coverFlag_congr links.2, ← id, deleteAlbums_coverFlag hb fresh]

theorem replaceDirAlbums_listed (h : replaceDirAlbums dirID albums db = .ok db')
    (ha : a ∈ db'.library.albums) (own : a.dirID = dirID) :
    a.key ∈ albums.map ImportAlbum.key := by
  obtain ⟨mid, keptAlbums, loop, b, hb, _, key, fresh, _⟩ := replaceDirAlbums_origin h ha
  have ownB : b.dirID = dirID := (congrArg Prod.fst key).trans own
  rw [← key, ← importAlbums_kept loop hb]
  simpa [stale, ownB] using fresh

theorem replaceDirAlbums_links (h : replaceDirAlbums dirID albums db = .ok db')
    (uniform : ∀ al ∈ albums, al.album.images = images) (ha : a ∈ db'.library.albums)
    (own : a.dirID = dirID) :
    (fun image => db'.coverFlag a.id image) = syncLinks images (db.links a.key) := by
  have listed := replaceDirAlbums_listed h ha own
  obtain ⟨mid, keptAlbums, loop, b, hb, _, key, _, flags⟩ := replaceDirAlbums_origin h ha
  have synced := importAlbums_links loop uniform b.key
  rw [key, if_pos listed, ← key, links_of_mem hb, key] at synced
  rw [← synced]
  exact funext flags

/-- An album that was there under the ID had the key. -/
theorem replaceDirAlbums_sameKey (h : replaceDirAlbums dirID albums db = .ok db')
    (ha : a ∈ db'.library.albums) {old : AlbumRow} (hold : old ∈ db.library.albums)
    (id : old.id = a.id) : old.key = a.key := by
  obtain ⟨mid, keptAlbums, loop, b, hb, idB, keyB, _⟩ := replaceDirAlbums_origin h ha
  obtain ⟨c, hc, idC, keyC, _⟩ := importAlbums_keepsAlbum loop hold
  rw [← keyC, ← keyB, mid.unique.albumIDs.eq_of_key hc hb (idC.trans (id.trans idB.symm))]

theorem replaceDirAlbums_stores (h : replaceDirAlbums dirID albums db = .ok db')
    {al : ImportAlbum} (hal : al ∈ albums) : ∃ a ∈ db'.library.albums, a.key = al.key := by
  obtain ⟨mid, _, loop, stays⟩ := replaceDirAlbums_keepsStored h
  obtain ⟨b, hb, keyB⟩ := importAlbums_stores loop hal
  obtain ⟨c, hc, keyC, _⟩ := stays al hal b hb keyB
  exact ⟨c, hc, keyC.trans keyB⟩

end Replace

end Database

end Byom.Sqlite
