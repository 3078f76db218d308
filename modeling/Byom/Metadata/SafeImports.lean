import Byom.Metadata.Covers
import Byom.Metadata.Interning
import Byom.Sqlite.ImportConstraints

/-!
# Imports never trip a constraint

What `Import` hands to the store refers to the dir, the files and the images of the result, and
to artists that were interned. Artists stay for good, so they are still there when the
transaction begins, whatever is written in between.
-/

namespace Byom.Metadata

open Storage Relational Library Sqlite Transition

namespace Importer

variable {rt : Runtime} {im im' im'' : Importer} {id : UUID}

/-! ### Artists -/

/-- The artists of the cache are in the store. -/
def CacheKnown (im : Importer) : Prop := ∀ norm id, (norm, id) ∈ im.artists → im.db.HasArtist id

/-- Artists are interned: none is lost, and the cache stays right. -/
structure Learns (im im' : Importer) : Prop where
  kept : ∀ id, im.db.HasArtist id → im'.db.HasArtist id
  known : im.CacheKnown → im'.CacheKnown

theorem Learns.refl (im : Importer) : Learns im im := ⟨fun _ has => has, fun known => known⟩

theorem Learns.trans (first : Learns im im') (second : Learns im' im'') : Learns im im'' :=
  ⟨fun id has => second.kept id (first.kept id has), second.known ∘ first.known⟩

theorem hasArtist_insertArtist {db db' : Database} {artist : Artist} {aliases : List String}
    (h : db.insertArtist artist aliases = .ok db') :
    db'.HasArtist id ↔ db.HasArtist id ∨ id = artist.id := by
  obtain ⟨mid, first, second⟩ := Database.bind_ok h
  have kept : Database.Keeps LibraryTables.artists mid db' :=
    Database.insertAliases_keeps (fun _ _ => rfl) second
  unfold Database.HasArtist
  rw [kept.2, (Database.write_spec first).2, List.map_append, List.mem_append]
  simp

/-- Every artist that is interned is in the store. -/
theorem internArtist_learns {name : String} (known : im.CacheKnown)
    (h : internArtist rt name im = .ok (id, im')) :
    Learns im im' ∧ (id ≠ .nil → im'.db.HasArtist id) := by
  unfold internArtist at h
  simp only at h
  split at h
  · cases h
    exact ⟨.refl im, fun named => absurd rfl named⟩
  · split at h
    · rename_i norm x found
      cases h
      exact ⟨.refl im, fun _ => known _ _ (mem_of_lookup found)⟩
    · split at h
      · rename_i oldest others matches_
        cases h
        obtain ⟨artist, listed, own⟩ := (Database.oldest_of_head matches_).exists_
        have has : im.db.HasArtist oldest.id := List.mem_map.mpr ⟨artist, listed, own⟩
        refine ⟨⟨fun _ has => has, fun _ norm x cached => ?_⟩, fun _ => has⟩
        rcases List.mem_append.mp cached with old | new
        · exact known norm x old
        · cases List.mem_singleton.mp new
          exact has
      · split at h
        · rename_i db inserted
          cases h
          have has : ∀ x, db.HasArtist x ↔ im.db.HasArtist x ∨ x = rt.newArtistID _ :=
            fun _ => hasArtist_insertArtist inserted
          refine ⟨⟨fun x old => (has x).mpr (.inl old), fun _ norm x cached => ?_⟩,
            fun _ => (has _).mpr (.inr rfl)⟩
          rcases List.mem_append.mp cached with old | new
          · exact (has x).mpr (.inl (known norm x old))
          · cases List.mem_singleton.mp new
            exact (has _).mpr (.inr rfl)
        · cases h

/-- What holds of the listed artists and of a new one holds of all. -/
theorem forall_mem_addArtist {P : UUID → Prop} {c : Credit} {artists : List AlbumArtist}
    (listed : ∀ aa ∈ artists, P aa.artistID) (has : id ≠ .nil → P id) :
    ∀ aa ∈ addArtist id c artists, P aa.artistID := by
  intro aa haa
  unfold addArtist at haa
  split at haa
  · exact listed aa haa
  · rename_i new
    rcases List.mem_append.mp haa with old | last
    · exact listed aa old
    · cases List.mem_singleton.mp last
      apply has
      rintro rfl
      simp at new

theorem forall_mem_addCredit {P : UUID → Prop} {c : Credit} {credits : List TrackCredit}
    (listed : ∀ x ∈ credits, P x.artistID) (has : id ≠ .nil → P id) :
    ∀ x ∈ addCredit id c credits, P x.artistID := by
  intro x hx
  unfold addCredit at hx
  split at hx
  · exact listed x hx
  · rename_i new
    rcases List.mem_append.mp hx with old | last
    · exact listed x old
    · cases List.mem_singleton.mp last
      apply has
      rintro rfl
      simp at new

theorem internAlbumArtists_learns {cs : List Credit} {artists artists' : List AlbumArtist}
    (known : im.CacheKnown) (listed : ∀ aa ∈ artists, im.db.HasArtist aa.artistID)
    (h : internAlbumArtists rt cs artists im = .ok (artists', im')) :
    Learns im im' ∧ ∀ aa ∈ artists', im'.db.HasArtist aa.artistID := by
  induction cs generalizing artists im with
  | nil => cases h; exact ⟨.refl _, listed⟩
  | cons c rest ih =>
    obtain ⟨⟨id, mid⟩, first, second⟩ := Database.bind_ok h
    obtain ⟨learns, has⟩ := internArtist_learns known first
    have more := forall_mem_addArtist (c := c) (fun aa haa => learns.kept _ (listed aa haa)) has
    obtain ⟨others, all⟩ := ih (learns.known known) more second
    exact ⟨learns.trans others, all⟩

theorem internTrackCredits_learns {cs : List Credit} {credits credits' : List TrackCredit}
    (known : im.CacheKnown) (listed : ∀ c ∈ credits, im.db.HasArtist c.artistID)
    (h : internTrackCredits rt cs credits im = .ok (credits', im')) :
    Learns im im' ∧ ∀ c ∈ credits', im'.db.HasArtist c.artistID := by
  induction cs generalizing credits im with
  | nil => cases h; exact ⟨.refl _, listed⟩
  | cons c rest ih =>
    obtain ⟨⟨id, mid⟩, first, second⟩ := Database.bind_ok h
    obtain ⟨learns, has⟩ := internArtist_learns known first
    have more := forall_mem_addCredit (c := c) (fun x hx => learns.kept _ (listed x hx)) has
    obtain ⟨others, all⟩ := ih (learns.known known) more second
    exact ⟨learns.trans others, all⟩

/-- The credits of all tracks are in the store. -/
def CreditsKnown (db : Database) (tracks : List Track) : Prop :=
  ∀ t ∈ tracks, ∀ c ∈ t.credits, db.HasArtist c.artistID

theorem buildTracks_learns {albumID : UUID} {a i : Nat} {pts : List ParsedTrack}
    {tracks : List Track} (known : im.CacheKnown)
    (h : buildTracks rt albumID a i pts im = .ok (tracks, im')) :
    Learns im im' ∧ CreditsKnown im'.db tracks := by
  induction pts generalizing i tracks im with
  | nil => cases h; exact ⟨.refl _, List.forall_mem_nil _⟩
  | cons pt rest ih =>
    obtain ⟨⟨credits, credited⟩, first, h⟩ := Database.bind_ok h
    obtain ⟨⟨later, last⟩, second, h⟩ := Database.bind_ok h
    cases h
    obtain ⟨learns, has⟩ := internTrackCredits_learns known (by simp) first
    obtain ⟨others, all⟩ := ih (learns.known known) second
    refine ⟨learns.trans others, List.forall_mem_cons.mpr ⟨?_, all⟩⟩
    exact fun c hc => others.kept _ (has c hc)

/-- The artists of an album and of its tracks are in the store. -/
structure ArtistsKnown (db : Database) (al : ImportAlbum) : Prop where
  artists : ∀ aa ∈ al.album.artists, db.HasArtist aa.artistID
  credits : CreditsKnown db al.tracks

theorem ArtistsKnown.mono {db db' : Database} {al : ImportAlbum} (known : ArtistsKnown db al)
    (kept : ∀ id, db.HasArtist id → db'.HasArtist id) : ArtistsKnown db' al :=
  ⟨fun aa haa => kept _ (known.artists aa haa),
    fun t ht c hc => kept _ (known.credits t ht c hc)⟩

theorem buildAlbum_learns {dirID : UUID} {a : Nat} {pa : ParsedAlbum} {al : ImportAlbum}
    (known : im.CacheKnown) (h : buildAlbum rt dirID a pa im = .ok (al, im')) :
    Learns im im' ∧ ArtistsKnown im'.db al := by
  obtain ⟨⟨artists, credited⟩, first, h⟩ := Database.bind_ok h
  obtain ⟨key, _, h⟩ := Database.bind_ok h
  obtain ⟨⟨tracks, last⟩, second, h⟩ := Database.bind_ok h
  cases h
  obtain ⟨learns, has⟩ := internAlbumArtists_learns known (by simp) first
  obtain ⟨others, credits⟩ := buildTracks_learns (learns.known known) second
  exact ⟨learns.trans others, fun aa haa => others.kept _ (has aa haa), credits⟩

theorem buildAlbums_learns {dirID : UUID} {images : List AlbumImage} {a : Nat}
    {pas : List ParsedAlbum} {albums : List ImportAlbum} (known : im.CacheKnown)
    (h : buildAlbums rt dirID images a pas im = .ok (albums, im')) :
    Learns im im' ∧ ∀ al ∈ albums, ArtistsKnown im'.db al := by
  induction pas generalizing a albums im with
  | nil => cases h; exact ⟨.refl _, List.forall_mem_nil _⟩
  | cons pa rest ih =>
    obtain ⟨⟨al, mid⟩, first, h⟩ := Database.bind_ok h
    obtain ⟨⟨later, last⟩, second, h⟩ := Database.bind_ok h
    cases h
    obtain ⟨learns, has⟩ := buildAlbum_learns known first
    obtain ⟨others, all⟩ := ih (learns.known known) second
    refine ⟨learns.trans others, List.forall_mem_cons.mpr ⟨?_, all⟩⟩
    exact ⟨fun aa haa => others.kept _ (has.artists aa haa),
      fun t ht c hc => others.kept _ (has.credits t ht c hc)⟩

/-! ### Artists stay -/

theorem step_hasArtist {db db' : Database} {w : Write} (h : db.step w = some db')
    (has : db.HasArtist id) : db'.HasArtist id := by
  rcases Database.step_keeps (f := LibraryTables.artists) (fun _ _ _ _ _ _ => rfl) h with
    same | ⟨artist, aliases, _, inserted⟩ | ⟨img, x, _, stored⟩
  · unfold Database.HasArtist
    rw [same]
    exact has
  · exact (hasArtist_insertArtist inserted).mpr (.inl has)
  · have kept : Database.Keeps LibraryTables.artists db db' :=
      Database.upsertImage_keeps (fun _ _ => rfl) stored
    exact has.of_keeps kept

theorem run_hasArtist {db db' : Database} {writes : List Write}
    (h : run Database.step db writes = some db') (has : db.HasArtist id) : db'.HasArtist id :=
  invariant_of_run (I := Database.HasArtist id) (fun _ _ _ has h => step_hasArtist h has) has h

/-! ### The payload -/

theorem albumImages_oneDefault (imgs : List ParsedImage) :
    Database.OneDefault (albumImages imgs) := by
  have marked := linkImages_default imgs []
  have short : ((albumImages imgs).filter AlbumImage.setCover).Pairwise fun _ _ => False := by
    have few : ((albumImages imgs).filter AlbumImage.setCover).length ≤ 1 := by
      unfold albumImages
      rw [← List.length_map AlbumImage.imageID, marked]
      exact Option.length_toList_le
    match (albumImages imgs).filter AlbumImage.setCover, few with
    | [], _ => exact .nil
    | [_], _ => exact List.pairwise_singleton _ _
  rw [List.pairwise_filter] at short
  exact short.imp fun apart both => apart both.1 both.2

/-- The dir, the files and the images of a result are in the database. -/
structure Listed (res : ParseResult) (db : Database) : Prop where
  dir : res.dirID ∈ db.storage.dirs.map DirRow.id
  files : ∀ pa ∈ res.albums, ∀ pt ∈ pa.tracks, pt.fileID ∈ db.storage.files.map FileRow.id
  images : ∀ pi ∈ res.images, db.HasImageID pi.imageID

theorem albumKnown_of_built {res : ParseResult} {albums : List ImportAlbum} {db : Database}
    (built : buildAlbums rt res.dirID (albumImages res.images) 0 res.albums im = .ok (albums, im'))
    (listed : Listed res db) {al : ImportAlbum} (hal : al ∈ albums) (artists : ArtistsKnown db al) :
    db.AlbumKnown al := by
  obtain ⟨summaries, owned, _⟩ := buildAlbums_spec built
  obtain ⟨dir, images⟩ := owned al hal
  refine ⟨?_, artists.artists, ?_, ?_, ?_⟩
  · rw [dir]
    exact listed.dir
  · intro img himg
    rw [images] at himg
    obtain ⟨pi, hpi, same⟩ := List.mem_map.mp
      ((albumImages_imageIDs res.images img.imageID).mp (List.mem_map_of_mem himg))
    exact same ▸ listed.images pi hpi
  · rw [images]
    exact albumImages_oneDefault res.images
  · intro t ht
    refine ⟨?_, artists.credits t ht⟩
    -- the track is of a parsed album
    have summarized : summary al ∈ res.albums.map (parsedSummary rt im) := by
      rw [← summaries]
      exact List.mem_map_of_mem hal
    obtain ⟨pa, hpa, same⟩ := List.mem_map.mp summarized
    have entry : (t.key, t.details) ∈ pa.tracks.map fun pt => (pt.key, trackDetails pt) := by
      rw [show pa.tracks.map _ = al.tracks.map _ from congrArg Prod.snd same]
      exact List.mem_map.mpr ⟨t, ht, rfl⟩
    obtain ⟨pt, hpt, key⟩ := List.mem_map.mp entry
    have file : pt.fileID = t.fileID := congrArg (fun x => x.1.1) key
    exact file ▸ listed.files pa hpa pt hpt

/-- Whatever was interned and written before, and whatever is written between the building of the
payload and its transaction: `ReplaceDirAlbums` violates no constraint, and succeeds. -/
theorem import_meets_constraints {db₀ db : Database} {as : List InternAction} {s : Interning}
    {res : ParseResult} {albums : List ImportAlbum} {writes : List Write}
    (reached : run (Interning.step rt.unicode) (.start db₀) as = some s)
    (built : buildAlbums rt res.dirID (albumImages res.images) 0 res.albums s.im =
      .ok (albums, im'))
    (later : run Database.step im'.db writes = some db) (listed : Listed res db)
    (minted : Database.Minted albums db) :
    ∃ db', db.replaceDirAlbums res.dirID albums = .ok db' := by
  have inv : s.Inv rt.unicode db₀ := invariant_of_run (I := Interning.Inv rt.unicode db₀)
    (fun _ _ _ inv h => Interning.step_inv inv h) (Interning.start_inv db₀) reached
  have known : s.im.CacheKnown := by
    intro norm id cached
    obtain ⟨artist, there, own⟩ := (inv.catalog.oldest norm id cached).2.exists_
    exact List.mem_map.mpr ⟨artist, there, own⟩
  obtain ⟨_, artists⟩ := buildAlbums_learns known built
  apply Database.replaceDirAlbums_ok res.dirID _ minted
  intro al hal
  apply albumKnown_of_built built listed hal
  exact (artists al hal).mono fun _ has => run_hasArtist later has

/-! ### Two spellings, and an image that is listed twice -/

def twinCovers : ParseResult :=
  { twoSpellings with images := [⟨90, .cover⟩, ⟨91, .cover⟩, ⟨90, .cover⟩] }

def twinPayload : List ImportAlbum × Importer :=
  (buildAlbums asciiRuntime 10 (albumImages twinCovers.images) 0 twinCovers.albums
    withImages).toOption.get (by decide)

/-- Another dir is imported in between. -/
def otherDir : List Write :=
  [.replaceDirAlbums 11 [Database.albumIn 31 11 "release" [Database.wholeFile 41 22]]]

def afterOtherDir : Database :=
  (run Database.step twinPayload.2.db otherDir).get (by decide)

theorem twinCovers_imports : ∃ db', afterOtherDir.replaceDirAlbums 10 twinPayload.1 = .ok db' := by
  have reached : run (Interning.step asciiRuntime.unicode) (.start withImages.db) [] =
      some (.start withImages.db) := rfl
  have built : buildAlbums asciiRuntime twinCovers.dirID (albumImages twinCovers.images) 0
      twinCovers.albums withImages = .ok (twinPayload.1, twinPayload.2) := by rfl
  have listed : Listed twinCovers afterOtherDir := ⟨by decide, by decide, by decide⟩
  have minted : Database.Minted twinPayload.1 afterOtherDir :=
    ⟨by decide, by decide, by decide, by decide⟩
  exact import_meets_constraints reached built (Option.some_get _).symm listed minted

end Importer

end Byom.Metadata
