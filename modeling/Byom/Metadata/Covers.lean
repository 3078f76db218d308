import Byom.Metadata.ImportedTracks
import Byom.Sqlite.CoverLinks

/-!
# Which albums have a cover

The default cover of a result is its first image that is first listed as a cover. An
album takes it only as a new link: if its cover goes and the default is linked
already, the album is left without one.
-/

namespace Byom.Metadata.Importer

open Storage Relational Library Sqlite

/-! ### The default -/

section Default

variable {imgs : List ParsedImage} {seen : List UUID} {haveCover : Bool} {id : UUID}

/-- The kind an image is first listed with. -/
def firstKind (id : UUID) (imgs : List ParsedImage) : Option ImageKind :=
  (lookup ParsedImage.imageID id imgs).map ParsedImage.kind

/-- The first image not among `seen` that is first listed as a cover. -/
def coverBeside (seen : List UUID) (imgs : List ParsedImage) : Option UUID :=
  (imgs.find? fun pi => pi.imageID ∉ seen && firstKind pi.imageID imgs = some .cover).map
    ParsedImage.imageID

def defaultCover (imgs : List ParsedImage) : Option UUID := coverBeside [] imgs

theorem linkImages_imageIDs : id ∈ (linkImages imgs seen haveCover).map AlbumImage.imageID ↔
    id ∈ imgs.map ParsedImage.imageID ∧ id ∉ seen := by
  induction imgs generalizing seen haveCover with
  | nil => simp [linkImages]
  | cons pi rest ih =>
    unfold linkImages
    by_cases known : pi.imageID ∈ seen
    · rw [if_pos known, ih, List.map_cons, List.mem_cons]
      constructor
      · exact fun ⟨listed, new⟩ => ⟨.inr listed, new⟩
      · rintro ⟨rfl | listed, new⟩
        · exact absurd known new
        · exact ⟨listed, new⟩
    · simp only [if_neg known, List.map_cons, List.mem_cons, ih]
      by_cases here : id = pi.imageID
      · simp [here, known]
      · simp [here]

theorem linkImages_distinct : UniqueOn AlbumImage.imageID (linkImages imgs seen haveCover) := by
  induction imgs generalizing seen haveCover with
  | nil => exact uniqueOn_nil _
  | cons pi rest ih =>
    unfold linkImages
    split
    · exact ih
    · refine List.nodup_cons.mpr ⟨fun again => ?_, ih⟩
      exact (linkImages_imageIDs.mp again).2 List.mem_cons_self

theorem albumImages_distinct (imgs : List ParsedImage) :
    UniqueOn AlbumImage.imageID (albumImages imgs) := linkImages_distinct

theorem linkImages_noDefault (imgs : List ParsedImage) (seen : List UUID) :
    (linkImages imgs seen true).filter AlbumImage.setCover = [] := by
  induction imgs generalizing seen with
  | nil => rfl
  | cons pi rest ih =>
    unfold linkImages
    split
    · exact ih seen
    · simpa using ih (pi.imageID :: seen)

/-- The link that is marked as the cover. -/
theorem linkImages_default (imgs : List ParsedImage) (seen : List UUID) :
    ((linkImages imgs seen false).filter AlbumImage.setCover).map AlbumImage.imageID =
      (coverBeside seen imgs).toList := by
  induction imgs generalizing seen with
  | nil => rfl
  | cons pi rest ih =>
    have later : ∀ pj : ParsedImage, pj.imageID ≠ pi.imageID →
        firstKind pj.imageID (pi :: rest) = firstKind pj.imageID rest := by
      intro pj other
      simp [firstKind, lookup, Ne.symm other]
    have first : firstKind pi.imageID (pi :: rest) = some pi.kind := by simp [firstKind, lookup]
    unfold linkImages
    by_cases known : pi.imageID ∈ seen
    · have same : coverBeside seen (pi :: rest) = coverBeside seen rest := by
        unfold coverBeside
        rw [List.find?_cons_of_neg (by simp [known])]
        congr 2
        funext pj
        by_cases here : pj.imageID = pi.imageID
        · simp [here, known]
        · rw [later pj here]
      rw [if_pos known, ih, same]
    · rw [if_neg known]
      by_cases cover : pi.kind = .cover
      · have found : coverBeside seen (pi :: rest) = some pi.imageID := by
          unfold coverBeside
          rw [List.find?_cons_of_pos (by simp [known, first, cover])]
          rfl
        simp [cover, found, linkImages_noDefault]
      · have same : coverBeside seen (pi :: rest) = coverBeside (pi.imageID :: seen) rest := by
          unfold coverBeside
          rw [List.find?_cons_of_neg (by simp [first, cover])]
          congr 2
          funext pj
          by_cases here : pj.imageID = pi.imageID
          · simp [here, first, cover]
          · simp [here, later pj here]
        simp [cover, ih, same]

theorem albumImages_imageIDs (imgs : List ParsedImage) (id : UUID) :
    id ∈ (albumImages imgs).map AlbumImage.imageID ↔ id ∈ imgs.map ParsedImage.imageID := by
  unfold albumImages
  rw [linkImages_imageIDs]
  simp

theorem mem_default {p : UUID → Prop} : (∃ img ∈ albumImages imgs, img.setCover = true ∧
    p img.imageID) ↔ ∃ id ∈ defaultCover imgs, p id := by
  have marked : ∀ id, id ∈ ((albumImages imgs).filter AlbumImage.setCover).map AlbumImage.imageID ↔
      id ∈ defaultCover imgs := by
    intro id
    rw [albumImages, linkImages_default, Option.mem_toList]
    rfl
  simp only [← marked, List.mem_map, List.mem_filter]
  constructor
  · rintro ⟨img, himg, cover, holds⟩
    exact ⟨img.imageID, ⟨img, ⟨himg, cover⟩, rfl⟩, holds⟩
  · rintro ⟨_, ⟨img, ⟨himg, cover⟩, rfl⟩, holds⟩
    exact ⟨img, himg, cover, holds⟩

end Default

/-! ### Covers after an import -/

variable {rt : Runtime} {im im' : Importer} {res : ParseResult}

/-- Every album of the dir has one cover, the one it had if that image is still there. -/
def HasCovers (res : ParseResult) (db db' : Database) : Prop :=
  ∀ a ∈ db'.library.albums, a.dirID = res.dirID →
    (db'.library.albumImages.filter fun i => i.albumID = a.id && i.setCover).length = 1 ∧
    ∀ i ∈ db.library.albumImages, i.albumID = a.id → i.setCover = true →
      i.imageID ∈ res.images.map ParsedImage.imageID →
        ∃ i' ∈ db'.library.albumImages, i'.key = i.key ∧ i'.setCover = true

/-- The album has a cover that is still there, or has yet to be linked to the default. -/
def YieldsCover (res : ParseResult) (db : Database) (key : UUID × String) : Prop :=
  (∃ a ∈ db.library.albums, a.key = key ∧ ∃ i ∈ db.library.albumImages, i.albumID = a.id ∧
    i.setCover = true ∧ i.imageID ∈ res.images.map ParsedImage.imageID) ∨
  ∃ id ∈ defaultCover res.images, ∀ a ∈ db.library.albums, a.key = key →
    ∀ i ∈ db.library.albumImages, i.albumID = a.id → i.imageID ≠ id

instance (res : ParseResult) (db db' : Database) : Decidable (HasCovers res db db') :=
  inferInstanceAs (Decidable (∀ a ∈ db'.library.albums, _ → _ ∧
    ∀ i ∈ db.library.albumImages, _ → _ → _ → ∃ i' ∈ db'.library.albumImages, _))

theorem yieldsCover_iff {db : Database} {key : UUID × String} : YieldsCover res db key ↔
    (∃ image ∈ res.images.map ParsedImage.imageID, db.links key image = some true) ∨
      ∃ id ∈ defaultCover res.images, db.links key id = none := by
  cases found : lookup AlbumRow.key key db.library.albums with
  | none =>
    have none : ∀ a ∈ db.library.albums, a.key ≠ key := lookup_eq_none_iff.mp found
    have links : ∀ image, db.links key image = Option.none := Database.links_eq_none found
    simp only [links, YieldsCover]
    constructor
    · rintro (⟨a, ha, same, _⟩ | ⟨id, default, _⟩)
      · exact absurd same (none a ha)
      · exact .inr ⟨id, default, trivial⟩
    · rintro (⟨_, _, absent⟩ | ⟨id, default, _⟩)
      · cases absent
      · exact .inr ⟨id, default, fun a ha same => absurd same (none a ha)⟩
  | some a =>
    have ha := mem_of_lookup found
    obtain rfl := key_of_lookup found
    have only : ∀ b ∈ db.library.albums, b.key = a.key → b = a :=
      fun b hb same => db.unique.albumKeys.eq_of_key hb ha same
    simp only [Database.links_of_mem ha, YieldsCover]
    apply or_congr
    · constructor
      · rintro ⟨b, hb, same, i, hi, own, cover, listed⟩
        obtain rfl := only b hb same
        exact ⟨i.imageID, listed,
          Database.coverFlag_eq_some_iff.mpr ⟨i, hi, Prod.ext own rfl, cover⟩⟩
      · rintro ⟨image, listed, flag⟩
        obtain ⟨i, hi, same, cover⟩ := Database.coverFlag_eq_some_iff.mp flag
        obtain ⟨own, rfl⟩ := Prod.mk.inj same
        exact ⟨a, ha, rfl, i, hi, own, cover, listed⟩
    · apply exists_congr
      intro id
      apply and_congr_right
      intro _
      rw [Database.coverFlag_eq_none_iff]
      constructor
      · intro new i hi same
        exact new a ha rfl i hi (congrArg Prod.fst same) (congrArg Prod.snd same)
      · intro new b hb same i hi own shown
        obtain rfl := only b hb same
        exact new i hi (Prod.ext own shown)

/-- An album of the dir has a cover after the import exactly if it yields one before. -/
theorem importResult_hasCovers_iff (h : importResult rt res im = .ok im') :
    HasCovers res im.db im'.db ↔ ∀ pa ∈ res.albums, ∀ k ∈ groupKey rt im pa,
      YieldsCover res im.db (res.dirID, k) := by
  obtain ⟨albums, mid, loop, replaced⟩ := importResult_steps h
  obtain ⟨built, owned, interned⟩ := buildAlbums_spec loop
  have uniform : ∀ al ∈ albums, al.album.images = albumImages res.images :=
    fun al hal => (owned al hal).2
  -- interning artists changes no links
  have links : ∀ k, mid.db.links k = im.db.links k := by
    intro k
    obtain ⟨sameAlbums, sameTracks, sameLinks⟩ : mid.db.library.albums = im.db.library.albums ∧
        mid.db.library.tracks = im.db.library.tracks ∧
        mid.db.library.albumImages = im.db.library.albumImages := by
      simpa [rows] using interned.keeps.2
    funext image
    unfold Database.links Database.coverFlag
    rw [sameAlbums, sameLinks]
  have cover : ∀ a ∈ im'.db.library.albums, a.dirID = res.dirID →
      ((∃ image, im'.db.coverFlag a.id image = some true) ↔ YieldsCover res im.db a.key) := by
    intro a ha own
    have synced := Database.replaceDirAlbums_links replaced uniform ha own
    have flags : (∃ image, im'.db.coverFlag a.id image = some true) ↔
        ∃ image, syncLinks (albumImages res.images) (im.db.links a.key) image = some true := by
      rw [← links, ← synced]
    rw [flags, exists_cover_iff (albumImages_distinct _), yieldsCover_iff,
      mem_default (p := fun id => im.db.links a.key id = none)]
    simp only [albumImages_imageIDs]
  have parsed : (∀ pa ∈ res.albums, ∀ k ∈ groupKey rt im pa, YieldsCover res im.db (res.dirID, k)) ↔
      ∀ al ∈ albums, YieldsCover res im.db al.key := by
    have listed : (∀ pa ∈ res.albums, ∀ k ∈ groupKey rt im pa,
        YieldsCover res im.db (res.dirID, k)) ↔ ∀ s ∈ res.albums.map (parsedSummary rt im),
          ∀ k ∈ s.1, YieldsCover res im.db (res.dirID, k) := by
      simp only [List.forall_mem_map, parsedSummary]
    rw [listed, ← built]
    simp only [List.forall_mem_map, summary, Option.mem_some_iff, forall_eq']
    refine forall₂_congr fun al hal => ?_
    rw [ImportAlbum.key, (owned al hal).1]
  rw [parsed]
  constructor
  · intro covers al hal
    obtain ⟨a, ha, same⟩ := Database.replaceDirAlbums_stores replaced hal
    have own : a.dirID = res.dirID := by
      rw [show a.dirID = al.album.dirID from congrArg Prod.fst same, (owned al hal).1]
    rw [← same, ← cover a ha own]
    exact Database.coverRows_length_iff.mp (covers a ha own).1
  · intro yields a ha own
    obtain ⟨al, hal, same⟩ :=
      List.mem_map.mp (Database.replaceDirAlbums_listed replaced ha own)
    refine ⟨Database.coverRows_length_iff.mpr ((cover a ha own).mpr (same ▸ yields al hal)), ?_⟩
    -- a cover row whose image is listed is still the cover
    intro i hi owner flag listed
    obtain ⟨old, hold, idOld⟩ := im.db.referenced.albumImageAlbums.exists_parent hi
    have before : im.db.links a.key i.imageID = some true := by
      have hold' : old ∈ mid.db.library.albums := by
        rwa [show mid.db.library.albums = im.db.library.albums from
          congrArg Prod.fst interned.keeps.2]
      rw [← Database.replaceDirAlbums_sameKey replaced ha hold' (idOld.trans owner),
        Database.links_of_mem hold, idOld]
      exact Database.coverFlag_eq_some_iff.mpr ⟨i, hi, rfl, flag⟩
    have after : im'.db.coverFlag a.id i.imageID = some true := by
      rw [congrFun (Database.replaceDirAlbums_links replaced uniform ha own) i.imageID, links]
      exact syncLinks_keepsCover ((albumImages_imageIDs _ _).mpr listed) before
    obtain ⟨i', hi', key, flag'⟩ := Database.coverFlag_eq_some_iff.mp after
    exact ⟨i', hi', key.trans (Prod.ext owner.symm rfl), flag'⟩

/-! ### A cover that goes -/

def twoImages : List Write :=
  Database.firstScans ++ [.upsertImage ⟨90, "9f86d081", "image/jpeg", 600, 600⟩,
    .upsertImage ⟨91, "60303ae2", "image/jpeg", 500, 500⟩]

def withImages : Importer := ⟨Database.afterWrites twoImages (by decide), []⟩

def homeWith (images : List ParsedImage) : ParseResult :=
  ⟨10, [albumBy "The Band" "Home" 20], images⟩

/-- `cover.jpg` and `folder.jpg` are both covers, the first is the default. -/
def coverAndFolder : ParseResult := homeWith [⟨90, .cover⟩, ⟨91, .cover⟩]

def bothCovers : Importer := afterImport coverAndFolder withImages (by decide)

theorem bothCovers_imported : importResult asciiRuntime coverAndFolder withImages =
    .ok bothCovers := by rfl

theorem bothCovers_hasCover : HasCovers coverAndFolder withImages.db bothCovers.db := by
  refine (importResult_hasCovers_iff bothCovers_imported).mpr fun pa _ k _ => .inr ⟨90, rfl, ?_⟩
  have empty : withImages.db.library.albums = [] := rfl
  simp [empty]

/-- Without the first, no cover is left: the link to the second keeps its flag. -/
theorem firstCoverGone_none :
    ¬ ∀ (rt : Runtime) (im im' : Importer) (res : ParseResult), im.db.Reachable →
      (∃ pi ∈ res.images, pi.kind = .cover) → importResult rt res im = .ok im' →
        HasCovers res im.db im'.db := by
  intro covers
  have stored : withImages.db.Reachable :=
    ⟨twoImages, Database.afterWrites_run twoImages (by decide)⟩
  have reachable : bothCovers.db.Reachable := importResult_reachable stored bothCovers_imported
  have after := covers asciiRuntime bothCovers (afterImport (homeWith [⟨91, .cover⟩]) bothCovers
    (by decide)) (homeWith [⟨91, .cover⟩]) reachable (by decide) (by rfl)
  exact absurd after (by decide)

end Byom.Metadata.Importer
