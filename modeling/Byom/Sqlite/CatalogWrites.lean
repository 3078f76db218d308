import Byom.Sqlite.LibraryStore

/-!
# What the catalog writes leave alone

A function is a chain of statements; `bind_ok` takes a successful chain apart.
What a statement does not write, it keeps: `Keeps f` says so for whatever `f`
reads, so each function has one such lemma.
-/

namespace Byom.Sqlite.Database

open Storage Relational Library Metadata

universe u

theorem bind_ok {ε α β : Type u} {x : Except ε α} {f : α → Except ε β} {b : β}
    (h : (x >>= f) = .ok b) : ∃ a, x = .ok a ∧ f a = .ok b := by
  cases x with
  | error e => cases h
  | ok a => exact ⟨a, rfl, h⟩

/-- The storage tables and what `f` reads of the library are the same. -/
def Keeps {α : Type} (f : LibraryTables → α) (db db' : Database) : Prop :=
  db'.storage = db.storage ∧ f db'.library = f db.library

variable {α : Type} {f : LibraryTables → α} {db db' db'' : Database}

theorem Keeps.refl (f : LibraryTables → α) (db : Database) : Keeps f db db := ⟨rfl, rfl⟩

theorem Keeps.trans (first : Keeps f db db') (second : Keeps f db' db'') : Keeps f db db'' :=
  ⟨second.1.trans first.1, second.2.trans first.2⟩

theorem write_keeps {statement : LibraryTables → LibraryTables}
    (blind : ∀ l, f (statement l) = f l) (h : db.write statement = .ok db') : Keeps f db db' := by
  obtain ⟨storage, library⟩ := write_spec h
  exact ⟨storage, by rw [library, blind]⟩

theorem insertAliases_keeps (blind : ∀ l rows, f { l with artistAliases := rows } = f l)
    {artistID : UUID} {names : List String}
    (h : insertAliases artistID names db = .ok db') : Keeps f db db' := by
  induction names generalizing db with
  | nil => cases h; exact .refl f _
  | cons name names ih =>
    obtain ⟨mid, first, second⟩ := bind_ok h
    exact (write_keeps (fun l => blind l _) first).trans (ih second)

theorem insertArtist_keeps (artists : ∀ l rows, f { l with artists := rows } = f l)
    (aliases : ∀ l rows, f { l with artistAliases := rows } = f l) {artist : Artist}
    {names : List String} (h : insertArtist artist names db = .ok db') : Keeps f db db' := by
  obtain ⟨mid, first, second⟩ := bind_ok h
  exact (write_keeps (fun l => artists l _) first).trans (insertAliases_keeps aliases second)

theorem upsertImage_keeps (blind : ∀ l rows, f { l with images := rows } = f l) {img : Image}
    {id : UUID} (h : upsertImage img db = .ok (db', id)) : Keeps f db db' := by
  obtain ⟨mid, first, second⟩ := bind_ok h
  cases second
  exact write_keeps (fun l => blind l _) first

section Chains

variable {albumID trackID : UUID}

theorem insertAlbumArtists_keeps (blind : ∀ l rows, f { l with albumArtists := rows } = f l)
    {artists : List (AlbumArtist × Nat)}
    (h : insertAlbumArtists albumID artists db = .ok db') : Keeps f db db' := by
  induction artists generalizing db with
  | nil => cases h; exact .refl f _
  | cons aa rest ih =>
    obtain ⟨mid, first, second⟩ := bind_ok h
    exact (write_keeps (fun l => blind l _) first).trans (ih second)

theorem replaceAlbumArtists_keeps (blind : ∀ l rows, f { l with albumArtists := rows } = f l)
    {artists : List AlbumArtist}
    (h : replaceAlbumArtists albumID artists db = .ok db') : Keeps f db db' := by
  obtain ⟨mid, first, second⟩ := bind_ok h
  exact (write_keeps (fun l => blind l _) first).trans (insertAlbumArtists_keeps blind second)

theorem upsertAlbumImages_keeps (blind : ∀ l rows, f { l with albumImages := rows } = f l)
    {cover : Bool} {images : List AlbumImage}
    (h : upsertAlbumImages albumID cover images db = .ok db') : Keeps f db db' := by
  induction images generalizing db with
  | nil => cases h; exact .refl f _
  | cons img rest ih =>
    obtain ⟨mid, first, second⟩ := bind_ok h
    exact (write_keeps (fun l => blind l _) first).trans (ih second)

theorem replaceAlbumImages_keeps (blind : ∀ l rows, f { l with albumImages := rows } = f l)
    {images : List AlbumImage}
    (h : replaceAlbumImages albumID images db = .ok db') : Keeps f db db' := by
  obtain ⟨mid, first, second⟩ := bind_ok h
  exact (write_keeps (fun l => blind l _) first).trans (upsertAlbumImages_keeps blind second)

theorem insertTrackCredits_keeps (blind : ∀ l rows, f { l with trackCredits := rows } = f l)
    {credits : List TrackCredit}
    (h : insertTrackCredits trackID credits db = .ok db') : Keeps f db db' := by
  induction credits generalizing db with
  | nil => cases h; exact .refl f _
  | cons c rest ih =>
    obtain ⟨mid, first, second⟩ := bind_ok h
    exact (write_keeps (fun l => blind l _) first).trans (ih second)

theorem replaceTrackCredits_keeps (blind : ∀ l rows, f { l with trackCredits := rows } = f l)
    {credits : List TrackCredit}
    (h : replaceTrackCredits trackID credits db = .ok db') : Keeps f db db' := by
  obtain ⟨mid, first, second⟩ := bind_ok h
  exact (write_keeps (fun l => blind l _) first).trans (insertTrackCredits_keeps blind second)

end Chains

section Imports

variable {al : ImportAlbum} {albumID : UUID} {kept : List UUID}

theorem refreshAlbum_key (a : Album) (db : Database) (r : AlbumRow) :
    (refreshAlbum a db r).key = r.key := rfl

theorem upsertAlbum_spec {a : Album} (h : upsertAlbum a db = .ok (db', albumID)) :
    db'.library.albums =
        upsertOn AlbumRow.key (refreshAlbum a db) (newAlbum a db) db.library.albums ∧
      albumID =
        (upserted AlbumRow.key (refreshAlbum a db) (newAlbum a db) db.library.albums).id := by
  obtain ⟨mid, first, second⟩ := bind_ok h
  cases second
  exact ⟨by rw [(write_spec first).2], rfl⟩

theorem upsertAlbum_keeps (blind : ∀ l rows, f { l with albums := rows } = f l) {a : Album}
    (h : upsertAlbum a db = .ok (db', albumID)) : Keeps f db db' := by
  obtain ⟨mid, first, second⟩ := bind_ok h
  cases second
  exact write_keeps (fun l => blind l _) first

theorem upsertTrack_spec {t : Track} {trackID : UUID}
    (h : upsertTrack t db = .ok (db', trackID)) :
    db'.library.tracks =
        upsertOn TrackRow.key (refreshTrack t) (newTrack t) db.library.tracks ∧
      trackID = (upserted TrackRow.key (refreshTrack t) (newTrack t) db.library.tracks).id := by
  obtain ⟨mid, first, second⟩ := bind_ok h
  cases second
  exact ⟨by rw [(write_spec first).2], rfl⟩

theorem upsertTrack_keeps (blind : ∀ l rows, f { l with tracks := rows } = f l) {t : Track}
    {trackID : UUID} (h : upsertTrack t db = .ok (db', trackID)) : Keeps f db db' := by
  obtain ⟨mid, first, second⟩ := bind_ok h
  cases second
  exact write_keeps (fun l => blind l _) first

/-- The first track of the loop, and the rest of it. -/
theorem importTracks_cons {t : Track} {rest : List Track}
    (h : importTracks albumID (t :: rest) db = .ok (db', kept)) :
    ∃ stored credited trackID later, upsertTrack { t with albumID } db = .ok (stored, trackID) ∧
      replaceTrackCredits trackID t.credits stored = .ok credited ∧
      importTracks albumID rest credited = .ok (db', later) ∧ kept = trackID :: later := by
  obtain ⟨⟨stored, trackID⟩, first, h⟩ := bind_ok h
  obtain ⟨credited, second, h⟩ := bind_ok h
  obtain ⟨⟨last, later⟩, third, h⟩ := bind_ok h
  cases h
  exact ⟨stored, credited, trackID, later, first, second, third, rfl⟩

theorem importTracks_keeps
    (blind : ∀ l tracks credits, f { l with tracks := tracks, trackCredits := credits } = f l)
    {ts : List Track} (h : importTracks albumID ts db = .ok (db', kept)) : Keeps f db db' := by
  have tracks : ∀ l rows, f { l with tracks := rows } = f l := fun l rows => blind l rows _
  have credits : ∀ l rows, f { l with trackCredits := rows } = f l := fun l rows => blind l _ rows
  induction ts generalizing db kept with
  | nil => cases h; exact .refl f _
  | cons t rest ih =>
    obtain ⟨stored, credited, trackID, later, first, second, third, _⟩ := importTracks_cons h
    have one := (upsertTrack_keeps tracks first).trans (replaceTrackCredits_keeps credits second)
    exact one.trans (ih third)

/-- The statements that import one album, one after the other. -/
theorem importAlbum_steps (h : importAlbum al db = .ok (db', albumID)) :
    ∃ stored credited linked listed keptTracks,
      upsertAlbum al.album db = .ok (stored, albumID) ∧
      replaceAlbumArtists albumID al.album.artists stored = .ok credited ∧
      replaceAlbumImages albumID al.album.images credited = .ok linked ∧
      importTracks albumID al.tracks linked = .ok (listed, keptTracks) ∧
      db' = listed.deleteTracks (stale TrackRow.id TrackRow.albumID albumID keptTracks) := by
  obtain ⟨⟨stored, id⟩, first, h⟩ := bind_ok h
  obtain ⟨credited, second, h⟩ := bind_ok h
  obtain ⟨linked, third, h⟩ := bind_ok h
  obtain ⟨⟨listed, keptTracks⟩, fourth, h⟩ := bind_ok h
  cases h
  exact ⟨stored, credited, linked, listed, keptTracks, first, second, third, fourth, rfl⟩

theorem importAlbum_albums (h : importAlbum al db = .ok (db', albumID)) :
    db'.storage = db.storage ∧
      db'.library.albums = upsertOn AlbumRow.key (refreshAlbum al.album db) (newAlbum al.album db)
        db.library.albums ∧
      albumID = (upserted AlbumRow.key (refreshAlbum al.album db) (newAlbum al.album db)
        db.library.albums).id := by
  obtain ⟨stored, credited, linked, listed, keptTracks, first, second, third, fourth, rfl⟩ :=
    importAlbum_steps h
  obtain ⟨albums, id⟩ := upsertAlbum_spec first
  have before : Keeps (fun _ => ()) db stored := upsertAlbum_keeps (fun _ _ => rfl) first
  have after : Keeps LibraryTables.albums stored listed :=
    ((replaceAlbumArtists_keeps (fun _ _ => rfl) second).trans
      (replaceAlbumImages_keeps (fun _ _ => rfl) third)).trans
        (importTracks_keeps (fun _ _ _ => rfl) fourth)
  exact ⟨after.1.trans before.1, after.2.trans albums, id⟩

/-- The first album of the loop, and the rest of it. -/
theorem importAlbums_cons {rest : List ImportAlbum}
    (h : importAlbums (al :: rest) db = .ok (db', kept)) :
    ∃ mid albumID later, importAlbum al db = .ok (mid, albumID) ∧
      importAlbums rest mid = .ok (db', later) ∧ kept = albumID :: later := by
  obtain ⟨⟨mid, albumID⟩, first, h⟩ := bind_ok h
  obtain ⟨⟨last, later⟩, second, h⟩ := bind_ok h
  cases h
  exact ⟨mid, albumID, later, first, second, rfl⟩

theorem promoteOrphanedPrimaries_cons {key : String} {keys : List String}
    (h : promoteOrphanedPrimaries (key :: keys) db = .ok db') :
    ∃ mid,
      db.write (fun l => { l with albums := AlbumRow.versions.promote key l.albums }) = .ok mid ∧
        promoteOrphanedPrimaries keys mid = .ok db' := bind_ok h

theorem promoteOrphanedPrimaries_keeps (blind : ∀ l rows, f { l with albums := rows } = f l)
    {keys : List String} (h : promoteOrphanedPrimaries keys db = .ok db') : Keeps f db db' := by
  induction keys generalizing db with
  | nil => cases h; exact .refl f _
  | cons key keys ih =>
    obtain ⟨mid, first, second⟩ := promoteOrphanedPrimaries_cons h
    exact (write_keeps (fun l => blind l _) first).trans (ih second)

/-- The loop, the delete and the promotion. -/
theorem replaceDirAlbums_steps {dirID : UUID} {albums : List ImportAlbum}
    (h : replaceDirAlbums dirID albums db = .ok db') :
    ∃ imported keptAlbums, importAlbums albums db = .ok (imported, keptAlbums) ∧
      promoteOrphanedPrimaries (imported.dirPrimaryGroups dirID)
        (imported.deleteAlbums (stale AlbumRow.id AlbumRow.dirID dirID keptAlbums)) = .ok db' := by
  obtain ⟨⟨imported, keptAlbums⟩, first, second⟩ := bind_ok h
  exact ⟨imported, keptAlbums, first, second⟩

section

variable (blind : ∀ l albums artists images tracks credits,
  f { l with
    albums := albums, albumArtists := artists, albumImages := images, tracks := tracks
    trackCredits := credits } = f l)

include blind

theorem importAlbum_keeps (h : importAlbum al db = .ok (db', albumID)) : Keeps f db db' := by
  obtain ⟨stored, credited, linked, listed, keptTracks, first, second, third, fourth, rfl⟩ :=
    importAlbum_steps h
  have albums : Keeps f db stored := upsertAlbum_keeps (fun l rows => blind l rows _ _ _ _) first
  have artists : Keeps f stored credited :=
    replaceAlbumArtists_keeps (fun l rows => blind l _ rows _ _ _) second
  have images : Keeps f credited linked :=
    replaceAlbumImages_keeps (fun l rows => blind l _ _ rows _ _) third
  have tracks : Keeps f linked listed :=
    importTracks_keeps (fun l rows credits => blind l _ _ _ rows credits) fourth
  have listed' : Keeps f db listed := ((albums.trans artists).trans images).trans tracks
  exact ⟨listed'.1, (blind listed.library _ _ _ _ _).trans listed'.2⟩

theorem importAlbums_keeps {als : List ImportAlbum} (h : importAlbums als db = .ok (db', kept)) :
    Keeps f db db' := by
  induction als generalizing db kept with
  | nil => cases h; exact .refl f _
  | cons al rest ih =>
    obtain ⟨mid, albumID, later, first, second, _⟩ := importAlbums_cons h
    exact (importAlbum_keeps blind first).trans (ih second)

/-- What an import of a dir does not write at all. -/
theorem replaceDirAlbums_keeps {dirID : UUID} {als : List ImportAlbum}
    (h : replaceDirAlbums dirID als db = .ok db') : Keeps f db db' := by
  obtain ⟨imported, keptAlbums, first, second⟩ := replaceDirAlbums_steps h
  have loop : Keeps f db imported := importAlbums_keeps blind first
  have swept : Keeps f imported
      (imported.deleteAlbums (stale AlbumRow.id AlbumRow.dirID dirID keptAlbums)) :=
    ⟨rfl, blind imported.library _ _ _ _ _⟩
  have promoted := promoteOrphanedPrimaries_keeps (f := f) (fun l rows => blind l rows _ _ _ _) second
  exact (loop.trans swept).trans promoted

end

theorem replaceDirAlbums_storage {dirID : UUID} {als : List ImportAlbum}
    (h : replaceDirAlbums dirID als db = .ok db') : db'.storage = db.storage := by
  have kept : Keeps (fun _ => ()) db db' := replaceDirAlbums_keeps (fun _ _ _ _ _ _ => rfl) h
  exact kept.1

end Imports

end Byom.Sqlite.Database
