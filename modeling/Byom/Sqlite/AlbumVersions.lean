import Mathlib.Data.List.Pairwise
import Byom.Sqlite.AlbumPages

/-!
# The versions of a release

`AlbumVersions` sorts by the date column as it is, and `Albums` by an expression that puts a
blank date last.
-/

namespace Byom.Sqlite

open Storage Library Metadata Relational

/-- `release_date, id`. -/
def dateKey (al : Album) : String ×ₗ Nat := toLex (al.details.releaseDate, al.id.toNat)

/-- `primary_version DESC, release_date, id`. -/
def versionKey (al : Album) : Bool ×ₗ String ×ₗ Nat := toLex (!al.primaryVersion, dateKey al)

/-- The release date that `Albums` sorts by, and the album ID. -/
def listedKey (al : Album) : String ×ₗ Nat :=
  toLex (SortExpr.column al .releaseDate, al.id.toNat)

/-- Primary versions come first, and the others in the order of `Albums`. -/
def InDateOrder (got : List Album) : Prop :=
  got = (got.filter fun al => al.primaryVersion) ++ (got.filter fun al => !al.primaryVersion) ∧
    (got.filter fun al => !al.primaryVersion).Pairwise fun a b => listedKey a ≤ listedKey b

instance : DecidablePred InDateOrder := fun _ =>
  inferInstanceAs (Decidable (_ ∧ (List.Pairwise _ _)))

namespace Database

/-- The rows that the query of `AlbumVersions` selects. Without an album the key is null. -/
def versionRows (id : UUID) (db : Database) : List Album :=
  match lookup AlbumRow.id id db.library.albums with
  | none => []
  | some own =>
    (db.library.albums.filter fun a => a.groupKey = own.groupKey).flatMap fun a =>
      (leftMatches (fun c => c.albumID = a.id && c.setCover) db.library.albumImages).flatMap fun cov =>
        (leftMatches (fun img => cov.any fun c => c.imageID = img.id) db.library.images).map
          fun img => scanAlbum db a img

/-- `LibraryStore.AlbumVersions`, with none for `library.ErrNotFound`. -/
def albumVersions (id : UUID) (db : Database) : Option (List Album) :=
  let albums := Paging.ordered (· < ·) versionKey (db.versionRows id)
  if albums = [] then none else some albums

/-- A version other than the primary one in the group of the album. -/
def OtherVersion (id : UUID) (db : Database) (a : AlbumRow) : Prop :=
  a ∈ db.library.albums ∧ a.primaryVersion = false ∧
    ∃ own, lookup AlbumRow.id id db.library.albums = some own ∧ a.groupKey = own.groupKey

variable {id : UUID} {db : Database} {al : Album}

theorem exists_leftMatches {Row : Type} (on : Row → Bool) (rows : List Row) :
    ∃ m, m ∈ leftMatches on rows := by
  apply List.exists_mem_of_ne_nil
  unfold leftMatches
  split
  · exact List.cons_ne_nil _ _
  · rename_i some_
    simpa using some_

theorem version_of_row {a : AlbumRow} (other : OtherVersion id db a) :
    ∃ al ∈ db.versionRows id,
      al.primaryVersion = false ∧ al.id = a.id ∧ al.details = a.details := by
  obtain ⟨stored, second, own, found, group⟩ := other
  obtain ⟨cov, covers⟩ := exists_leftMatches (fun c => c.albumID = a.id && c.setCover)
    db.library.albumImages
  obtain ⟨img, images⟩ := exists_leftMatches (fun img => cov.any fun c => c.imageID = img.id)
    db.library.images
  refine ⟨scanAlbum db a img, ?_, second, rfl, rfl⟩
  unfold versionRows
  rw [found]
  apply List.mem_flatMap.mpr
  refine ⟨a, List.mem_filter.mpr ⟨stored, decide_eq_true group⟩, ?_⟩
  exact List.mem_flatMap.mpr ⟨cov, covers, List.mem_map_of_mem images⟩

theorem row_of_version (selected : al ∈ db.versionRows id) (second : al.primaryVersion = false) :
    ∃ a, OtherVersion id db a ∧ al.id = a.id ∧ al.details = a.details := by
  unfold versionRows at selected
  cases found : lookup AlbumRow.id id db.library.albums with
  | none => simp [found] at selected
  | some own =>
    rw [found] at selected
    obtain ⟨a, member, joined⟩ := List.mem_flatMap.mp selected
    obtain ⟨cov, _, shown⟩ := List.mem_flatMap.mp joined
    obtain ⟨img, _, rfl⟩ := List.mem_map.mp shown
    obtain ⟨stored, group⟩ := List.mem_filter.mp member
    exact ⟨a, ⟨stored, second, own, found, of_decide_eq_true group⟩, rfl, rfl⟩

end Database

/-! ### Two orders of dates -/

theorem blank_lt {date : String} (known : date ≠ "") : "" < date := by
  rw [String.lt_iff_toList_lt]
  cases chars : date.toList with
  | nil => exact absurd (String.toList_eq_nil_iff.mp chars) known
  | cons c cs => exact List.nil_lt_cons c cs

/-- A version with a blank date that is listed before one with a known date. -/
def BlankBefore (blank known : Album) : Prop :=
  unknownDate < known.details.releaseDate ∨
    unknownDate = known.details.releaseDate ∧ blank.id.toNat ≤ known.id.toNat

theorem listedKey_le_iff {blank known : Album} (empty : blank.details.releaseDate = "")
    (dated : known.details.releaseDate ≠ "") :
    listedKey blank ≤ listedKey known ↔ BlankBefore blank known := by
  simp [listedKey, SortExpr.column, dateExpr, empty, dated, Prod.Lex.toLex_le_toLex, BlankBefore]

theorem listedKey_le_of_dateKey {a b : Album}
    (alike : a.details.releaseDate = "" ↔ b.details.releaseDate = "")
    (le : dateKey a ≤ dateKey b) : listedKey a ≤ listedKey b := by
  by_cases empty : b.details.releaseDate = ""
  · have both := alike.mpr empty
    simpa [listedKey, SortExpr.column, dateExpr, both, empty, dateKey, Prod.Lex.toLex_le_toLex]
      using le
  · have neither := mt alike.mp empty
    simpa [listedKey, SortExpr.column, dateExpr, neither, empty, dateKey] using le

/-- The first has the later date. -/
theorem dateKey_lt {blank known : Album} (empty : blank.details.releaseDate = "")
    (dated : known.details.releaseDate ≠ "") : dateKey blank < dateKey known := by
  rw [dateKey, dateKey, Prod.Lex.toLex_lt_toLex]
  left
  simpa [empty] using blank_lt dated

/-- Sorted by date, albums are sorted for `Albums` too if no blank date is before a known one. -/
theorem pairwise_listedKey_iff {got : List Album}
    (sorted : got.Pairwise fun a b => dateKey a ≤ dateKey b) :
    (got.Pairwise fun a b => listedKey a ≤ listedKey b) ↔
      ∀ blank ∈ got, ∀ known ∈ got, blank.details.releaseDate = "" →
        known.details.releaseDate ≠ "" → BlankBefore blank known := by
  constructor
  · intro listed blank hb known hk empty dated
    have either : ∀ a ∈ got, ∀ b ∈ got, (dateKey a ≤ dateKey b ∧ listedKey a ≤ listedKey b) ∨
        dateKey b ≤ dateKey a ∧ listedKey b ≤ listedKey a := by
      have : Std.Symm fun a b : Album => (dateKey a ≤ dateKey b ∧ listedKey a ≤ listedKey b) ∨
          dateKey b ≤ dateKey a ∧ listedKey b ≤ listedKey a := ⟨fun _ _ => Or.symm⟩
      apply List.Pairwise.forall_of_forall
      · exact fun a _ => .inl ⟨le_refl _, le_refl _⟩
      · exact (sorted.and listed).imp .inl
    rw [← listedKey_le_iff empty dated]
    rcases either blank hb known hk with forward | backward
    · exact forward.2
    · exact absurd backward.1 (not_le_of_gt (dateKey_lt empty dated))
  · intro before
    apply List.Pairwise.imp_of_mem ?_ sorted
    intro a b ha hb le
    by_cases empty : a.details.releaseDate = "" <;> by_cases other : b.details.releaseDate = ""
    · exact listedKey_le_of_dateKey (iff_of_true empty other) le
    · exact (listedKey_le_iff empty other).mpr (before a ha b hb empty other)
    · exact absurd le (not_le_of_gt (dateKey_lt other empty))
    · exact listedKey_le_of_dateKey (iff_of_false empty other) le

/-! ### The listing of the versions -/

namespace Database

variable {id : UUID} {db : Database}

theorem albumVersions_iff {P : List Album → Prop} (nothing : P []) :
    (∀ got ∈ db.albumVersions id, P got) ↔
      P (Paging.ordered (· < ·) versionKey (db.versionRows id)) := by
  unfold albumVersions
  simp only
  split
  · rename_i empty
    rw [empty]
    refine iff_of_true ?_ nothing
    intro got found
    cases found
  · exact ⟨fun every => every _ rfl, fun holds _ same => Option.some.inj same ▸ holds⟩

/-- The other versions are in the order of `Albums` exactly if a blank date is nowhere with a
known one, unless that is past `unknownDate`. -/
theorem albumVersions_inDateOrder_iff (id : UUID) (db : Database) :
    (∀ got ∈ db.albumVersions id, InDateOrder got) ↔
      ∀ blank known, OtherVersion id db blank → OtherVersion id db known →
        blank.details.releaseDate = "" → known.details.releaseDate ≠ "" →
          unknownDate < known.details.releaseDate ∨
            unknownDate = known.details.releaseDate ∧ blank.id.toNat ≤ known.id.toNat := by
  rw [albumVersions_iff ⟨rfl, List.Pairwise.nil⟩]
  have weak : (Paging.ordered (· < ·) versionKey (db.versionRows id)).Pairwise
      fun a b => versionKey a ≤ versionKey b :=
    (Paging.ordered_weak (db.versionRows id)).imp not_lt.mp
  have leads : (Paging.ordered (· < ·) versionKey (db.versionRows id)).Pairwise
      fun a b => b.primaryVersion = true → a.primaryVersion = true := by
    refine weak.imp ?_
    intro a b le primary
    rcases Prod.Lex.toLex_le_toLex.mp le with less | ⟨same, _⟩
    · cases own : a.primaryVersion with
      | true => rfl
      | false =>
        rw [own, primary] at less
        exact absurd (show true < false from less) (by decide)
    · rw [primary] at same
      simpa using same
  have sorted : ((Paging.ordered (· < ·) versionKey (db.versionRows id)).filter
      fun al => !al.primaryVersion).Pairwise fun a b => dateKey a ≤ dateKey b := by
    have within := weak.filter fun al => !al.primaryVersion
    refine List.Pairwise.imp_of_mem ?_ within
    intro a b ha hb le
    have second : (!a.primaryVersion) = !b.primaryVersion :=
      (List.mem_filter.mp ha).2.trans (List.mem_filter.mp hb).2.symm
    rcases Prod.Lex.toLex_le_toLex.mp le with less | ⟨_, le⟩
    · exact absurd second (ne_of_lt less)
    · exact le
  have members : ∀ al, al ∈ (Paging.ordered (· < ·) versionKey (db.versionRows id)).filter
      (fun al => !al.primaryVersion) ↔ al ∈ db.versionRows id ∧ al.primaryVersion = false := by
    intro al
    simp
  unfold InDateOrder
  rw [and_iff_right (Paging.leading_append leads), pairwise_listedKey_iff sorted]
  simp only [members]
  constructor
  · intro before blank known hb hk empty dated
    obtain ⟨a, ha, second, ida, detailsa⟩ := version_of_row hb
    obtain ⟨b, hb, second', idb, detailsb⟩ := version_of_row hk
    have placed := before a ⟨ha, second⟩ b ⟨hb, second'⟩ (detailsa ▸ empty) (detailsb ▸ dated)
    rwa [BlankBefore, ida, idb, detailsb] at placed
  · rintro before a ⟨ha, second⟩ b ⟨hb, second'⟩ empty dated
    obtain ⟨blank, hblank, ida, detailsa⟩ := row_of_version ha second
    obtain ⟨known, hknown, idb, detailsb⟩ := row_of_version hb second'
    rw [detailsa] at empty
    rw [detailsb] at dated
    rw [BlankBefore, ida, idb, detailsb]
    exact before blank known hblank hknown empty dated

def versionFrom (date : String) (id dirID : UUID) (t : Track) : ImportAlbum where
  album :=
    { id, dirID, groupKey := "release", artists := [], images := [],
      details := ⟨.main, "Album", date, "", "", false, false, false, ""⟩ }
  tracks := [t]

/-- A second dir in location 2, and a version of one release in each of the three. -/
def threeVersions : List Write :=
  firstScans ++ [.beginScan 20 5 2,
    .syncDir 12 (fun _ => 23) ⟨2, ["c"], 2, [audioFile "01.flac"], [], true⟩,
    .replaceDirAlbums 10 [versionFrom "2001" 30 10 (wholeFile 40 20)],
    .replaceDirAlbums 11 [versionFrom "" 31 11 (wholeFile 41 22)],
    .replaceDirAlbums 12 [versionFrom "1999" 32 12 (wholeFile 42 23)]]

/-- The version without a date comes before the one of 1999. -/
theorem unknownDate_leads : ¬∀ (db : Database) (id : UUID), db.Reachable →
    ∀ got ∈ db.albumVersions id, InDateOrder got := by
  intro ordered
  have listed := ordered (afterWrites threeVersions (by decide)) 30
    ⟨threeVersions, afterWrites_run _ _⟩
  exact absurd listed (by decide)

end Database

end Byom.Sqlite
