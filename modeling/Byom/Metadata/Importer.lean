import Byom.Sqlite.TrackView

/-!
# Importing a parse result

`Importer.Import` turns credited names into artists, albums into rows with a group
key, and hands them to `ReplaceDirAlbums`. What an artist name resolves to is known
before the import: `resolve` reads it off the cache and the database, and no
interning of the import changes it.
-/

namespace Byom.Metadata

open Storage Relational Library Sqlite

structure AlbumMetadata where
  type : AlbumType
  title : String
  releaseDate : String
  originalReleaseDate : String
  bootleg : Bool
  compilation : Bool
  live : Bool
  deriving DecidableEq, Repr

structure Credit where
  creditedName : String
  role : String
  deriving DecidableEq, Repr

structure TrackMetadata where
  discNumber : Int
  discSubtitle : String
  trackNumber : Int
  title : String
  releaseDate : String
  originalReleaseDate : String
  live : Bool
  deriving DecidableEq, Repr

structure ParsedTrack where
  fileID : UUID
  metadata : TrackMetadata
  credits : List Credit
  audio : AudioProperties
  duration : Int
  startOffset : Int
  deriving DecidableEq, Repr

/-- The file and offset of a parsed track. -/
def ParsedTrack.key (pt : ParsedTrack) : UUID × Int := (pt.fileID, pt.startOffset)

structure ParsedAlbum where
  metadata : AlbumMetadata
  artists : List Credit
  tracks : List ParsedTrack
  deriving DecidableEq, Repr

structure ParsedImage where
  imageID : UUID
  kind : ImageKind
  deriving DecidableEq, Repr

structure ParseResult where
  dirID : UUID
  albums : List ParsedAlbum
  images : List ParsedImage
  deriving DecidableEq, Repr

/-- The Unicode tables and the hash `xxhash.Sum64`, the same for every import. -/
structure Libraries where
  unicode : Unicode
  sum64 : String → UInt64

/-- The IDs that `uuid.NewV7` mints during one import: for the artist of a normalized name, and
for the albums of the result and their tracks by position. -/
structure Minted where
  newArtistID : String → UUID
  newAlbumID : Nat → UUID
  newTrackID : Nat → Nat → UUID

/-- What comes from outside during one import. -/
structure Runtime extends Libraries, Minted

/-- The importer's cache, from normalized names to artist IDs, beside its store. -/
structure Importer where
  db : Database
  artists : List (String × UUID)

inductive ImportError where
  | store (err : SqlError)
  | groupKey (text : String)
  deriving DecidableEq, Repr

namespace Importer

/-- `internArtist`. -/
def internArtist (rt : Runtime) (name : String) (im : Importer) :
    Except ImportError (UUID × Importer) :=
  let norm := normalizeArtistName rt.unicode name
  if norm = "" then .ok (.nil, im)
  else
    match lookup Prod.fst norm im.artists with
    | some (_, id) => .ok (id, im)
    | none =>
      match im.db.artistsByAlias norm with
      | oldest :: _ => .ok (oldest.id, { im with artists := im.artists ++ [(norm, oldest.id)] })
      | [] =>
        let id := rt.newArtistID norm
        let trimmed := trimSpace name
        match im.db.insertArtist ⟨id, trimmed, trimmed⟩ [norm] with
        | .ok db => .ok (id, ⟨db, im.artists ++ [(norm, id)]⟩)
        | .error err => .error (.store err)

/-- One album credit: nil and repeated artists are skipped. -/
def addArtist (artistID : UUID) (c : Credit) (artists : List AlbumArtist) : List AlbumArtist :=
  if artistID = .nil || artists.any fun a => a.artistID = artistID then artists
  else artists ++ [⟨artistID, c.creditedName⟩]

def internAlbumArtists (rt : Runtime) : List Credit → List AlbumArtist → Importer →
    Except ImportError (List AlbumArtist × Importer)
  | [], artists, im => .ok (artists, im)
  | c :: rest, artists, im => do
    let (artistID, im) ← internArtist rt c.creditedName im
    internAlbumArtists rt rest (addArtist artistID c artists) im

/-- One track credit: nil artists and repeated pairs of artist and role are skipped. -/
def addCredit (artistID : UUID) (c : Credit) (credits : List TrackCredit) : List TrackCredit :=
  if artistID = .nil || credits.any fun t => t.artistID = artistID && t.role = c.role then credits
  else credits ++ [⟨artistID, c.creditedName, c.role⟩]

def internTrackCredits (rt : Runtime) : List Credit → List TrackCredit → Importer →
    Except ImportError (List TrackCredit × Importer)
  | [], credits, im => .ok (credits, im)
  | c :: rest, credits, im => do
    let (artistID, im) ← internArtist rt c.creditedName im
    internTrackCredits rt rest (addCredit artistID c credits) im

def trackDetails (pt : ParsedTrack) : TrackDetails where
  discNumber := pt.metadata.discNumber
  discSubtitle := pt.metadata.discSubtitle
  trackNumber := pt.metadata.trackNumber
  title := pt.metadata.title
  releaseDate := pt.metadata.releaseDate
  originalReleaseDate := pt.metadata.originalReleaseDate
  audio := pt.audio
  duration := pt.duration

def albumDetails (md : AlbumMetadata) : AlbumDetails where
  type := md.type
  title := md.title
  releaseDate := md.releaseDate
  originalReleaseDate := md.originalReleaseDate
  releaseCountry := ""
  bootleg := md.bootleg
  compilation := md.compilation
  live := md.live
  version := ""

/-- The loop of `buildAlbum` over the tracks, from position `i` of album `a`. -/
def buildTracks (rt : Runtime) (albumID : UUID) (a : Nat) : Nat → List ParsedTrack → Importer →
    Except ImportError (List Track × Importer)
  | _, [], im => .ok ([], im)
  | i, pt :: rest, im => do
    let (credits, im) ← internTrackCredits rt pt.credits [] im
    let (tracks, im) ← buildTracks rt albumID a (i + 1) rest im
    let track : Track := ⟨rt.newTrackID a i, albumID, trackDetails pt, credits, pt.fileID,
      pt.startOffset⟩
    return (track :: tracks, im)

/-- The album before it has its group key. -/
def newAlbum (albumID dirID : UUID) (pa : ParsedAlbum) (artists : List AlbumArtist) : Album where
  id := albumID
  dirID := dirID
  details := albumDetails pa.metadata
  artists := artists
  images := []
  groupKey := ""

def buildAlbum (rt : Runtime) (dirID : UUID) (a : Nat) (pa : ParsedAlbum) (im : Importer) :
    Except ImportError (ImportAlbum × Importer) := do
  let albumID := rt.newAlbumID a
  let (artists, im) ← internAlbumArtists rt pa.artists [] im
  let album := newAlbum albumID dirID pa artists
  let groupKey ← (albumGroupKey rt.sum64 album).mapError .groupKey
  let (tracks, im) ← buildTracks rt albumID a 0 pa.tracks im
  return (⟨{ album with groupKey }, tracks⟩, im)

/-- The loop of `Import` over the parsed albums, from position `a`. -/
def buildAlbums (rt : Runtime) (dirID : UUID) (images : List AlbumImage) :
    Nat → List ParsedAlbum → Importer → Except ImportError (List ImportAlbum × Importer)
  | _, [], im => .ok ([], im)
  | a, pa :: rest, im => do
    let (al, im) ← buildAlbum rt dirID a pa im
    let (albums, im) ← buildAlbums rt dirID images (a + 1) rest im
    return ({ al with album := { al.album with images } } :: albums, im)

/-- The loop of `albumImages`, with the images it has seen. -/
def linkImages : List ParsedImage → List UUID → Bool → List AlbumImage
  | [], _, _ => []
  | pi :: rest, seen, haveCover =>
    if pi.imageID ∈ seen then linkImages rest seen haveCover
    else
      let setCover := !haveCover && pi.kind = .cover
      ⟨pi.imageID, pi.kind, setCover⟩ ::
        linkImages rest (pi.imageID :: seen) (haveCover || setCover)

def albumImages (imgs : List ParsedImage) : List AlbumImage := linkImages imgs [] false

/-- `Importer.Import`. -/
def importResult (rt : Runtime) (res : ParseResult) (im : Importer) :
    Except ImportError Importer := do
  let (albums, im) ← buildAlbums rt res.dirID (albumImages res.images) 0 res.albums im
  let db ← (im.db.replaceDirAlbums res.dirID albums).mapError .store
  return { im with db }

/-! ### What names resolve to -/

/-- The artist ID of a credited name, before the import. -/
def resolve (rt : Runtime) (im : Importer) (name : String) : UUID :=
  let norm := normalizeArtistName rt.unicode name
  if norm = "" then .nil
  else
    ((lookup Prod.fst norm im.artists).map Prod.snd).getD
      (((im.db.artistsByAlias norm).head?.map Artist.id).getD (rt.newArtistID norm))

def resolveArtists (rt : Runtime) (im : Importer) :
    List Credit → List AlbumArtist → List AlbumArtist
  | [], artists => artists
  | c :: rest, artists =>
    resolveArtists rt im rest (addArtist (resolve rt im c.creditedName) c artists)

/-- The `AlbumGroupKey` of a parsed album. -/
def groupKey (rt : Runtime) (im : Importer) (pa : ParsedAlbum) : Option String :=
  (albumGroupKey rt.sum64 (newAlbum .nil .nil pa (resolveArtists rt im pa.artists []))).toOption

/-- The rows that interning artists leaves alone. -/
def rows (l : LibraryTables) : List AlbumRow × List TrackRow × List AlbumImageRow :=
  (l.albums, l.tracks, l.albumImages)

/-- What interning does for the rest of the import: names resolve as before. -/
structure Interned (rt : Runtime) (im im' : Importer) : Prop where
  names : ∀ name, resolve rt im' name = resolve rt im name
  keeps : Database.Keeps rows im.db im'.db
  reaches : im.db.Reachable → im'.db.Reachable

variable {rt : Runtime} {im im' im'' : Importer}

theorem Interned.refl (rt : Runtime) (im : Importer) : Interned rt im im :=
  ⟨fun _ => rfl, .refl rows im.db, id⟩

theorem Interned.trans (first : Interned rt im im') (second : Interned rt im' im'') :
    Interned rt im im'' :=
  ⟨fun name => (second.names name).trans (first.names name), first.keeps.trans second.keeps,
    second.reaches ∘ first.reaches⟩

/-- Aliases of other names still lead to the same artists. -/
theorem artistsByAlias_insertArtist {db db' : Database} {artist : Artist} {norm other : String}
    (h : db.insertArtist artist [norm] = .ok db') (ne : norm ≠ other) :
    db'.artistsByAlias other = db.artistsByAlias other := by
  obtain ⟨mid, first, second⟩ := Database.bind_ok h
  obtain ⟨last, second, done⟩ := Database.bind_ok second
  cases done
  have artists : db'.library.artists = db.library.artists ++ [artist] := by
    rw [(Database.write_spec second).2, (Database.write_spec first).2]
  have aliases : db'.library.artistAliases = db.library.artistAliases ++ [⟨norm, artist.id⟩] := by
    rw [(Database.write_spec second).2, (Database.write_spec first).2]
  have found : ∀ a ∈ db.library.artistAliases, lookup Artist.id a.artistID db'.library.artists =
      lookup Artist.id a.artistID db.library.artists := by
    intro a ha
    obtain ⟨b, hb, same⟩ := db.referenced.aliasArtists.exists_parent ha
    have old := db.unique.artistIDs.lookup_of_mem hb
    rw [same] at old
    rw [old, artists]
    simp [lookup, List.find?_append] at old ⊢
    simp [old]
  have matching : db'.library.artistAliases.filter (fun a => a.normName = other) =
      db.library.artistAliases.filter fun a => a.normName = other := by
    rw [aliases, List.filter_append]
    simp [ne]
  have joined : (db'.library.artistAliases.filter fun a => a.normName = other).filterMap
        (fun a => lookup Artist.id a.artistID db'.library.artists) =
      (db.library.artistAliases.filter fun a => a.normName = other).filterMap
        fun a => lookup Artist.id a.artistID db.library.artists := by
    rw [matching]
    apply List.filterMap_congr
    exact fun a ha => found a (List.mem_filter.mp ha).1
  simp only [Database.artistsByAlias, joined]

theorem lookup_cached {cache : List (String × UUID)} {norm : String} (id : UUID)
    (absent : lookup Prod.fst norm cache = none) (other : String) :
    lookup Prod.fst other (cache ++ [(norm, id)]) =
      if other = norm then some (norm, id) else lookup Prod.fst other cache := by
  by_cases same : other = norm
  · subst same
    rw [if_pos rfl]
    have new : lookup Prod.fst (Prod.fst (other, id)) cache = none := absent
    exact lookup_append_self new
  · rw [if_neg same]
    exact lookup_append_ne fun h => same h.symm

/-- A name that is not in the cache is put there with what it resolves to. -/
theorem Interned.cache {name : String} {db : Database}
    (named : normalizeArtistName rt.unicode name ≠ "")
    (absent : lookup Prod.fst (normalizeArtistName rt.unicode name) im.artists = none)
    (keeps : Database.Keeps rows im.db db) (reaches : im.db.Reachable → db.Reachable)
    (aliases : ∀ other, normalizeArtistName rt.unicode name ≠ other →
      db.artistsByAlias other = im.db.artistsByAlias other) :
    Interned rt im
      ⟨db, im.artists ++ [(normalizeArtistName rt.unicode name, resolve rt im name)]⟩ := by
  refine ⟨fun other => ?_, keeps, reaches⟩
  by_cases empty : normalizeArtistName rt.unicode other = ""
  · simp [Importer.resolve, empty]
  · by_cases same : normalizeArtistName rt.unicode other = normalizeArtistName rt.unicode name
    · simp [Importer.resolve, lookup_cached _ absent, same, named, absent]
    · simp [Importer.resolve, lookup_cached _ absent, same, empty, aliases _ (Ne.symm same)]

/-- Interning returns what the name resolves to. -/
theorem internArtist_spec {name : String} {id : UUID}
    (h : internArtist rt name im = .ok (id, im')) :
    id = resolve rt im name ∧ Interned rt im im' := by
  unfold internArtist at h
  simp only at h
  split at h
  · rename_i empty
    cases h
    exact ⟨by simp [resolve, empty], .refl rt _⟩
  · rename_i named
    cases cached : lookup Prod.fst (normalizeArtistName rt.unicode name) im.artists with
    | some entry =>
      rw [cached] at h
      cases h
      exact ⟨by simp [resolve, named, cached], .refl rt _⟩
    | none =>
      rw [cached] at h
      simp only at h
      cases known : im.db.artistsByAlias (normalizeArtistName rt.unicode name) with
      | cons oldest others =>
        rw [known] at h
        cases h
        have id : resolve rt im name = oldest.id := by simp [resolve, named, cached, known]
        exact ⟨id.symm, id ▸ .cache named cached (.refl rows im.db) (fun h => h) fun _ _ => rfl⟩
      | nil =>
        rw [known] at h
        simp only at h
        have id : resolve rt im name = rt.newArtistID (normalizeArtistName rt.unicode name) := by
          simp [resolve, named, cached, known]
        split at h
        · rename_i db inserted
          cases h
          refine ⟨id.symm, id ▸ .cache named cached ?_ ?_ fun other ne => ?_⟩
          · exact Database.insertArtist_keeps (fun _ _ => rfl) (fun _ _ => rfl) inserted
          · exact fun reachable => reachable.step (w := .insertArtist _ _) (by
              rw [Database.step, inserted]
              rfl)
          · exact artistsByAlias_insertArtist inserted ne
        · cases h

theorem resolveArtists_congr (same : ∀ name, resolve rt im' name = resolve rt im name)
    (cs : List Credit) (artists : List AlbumArtist) :
    resolveArtists rt im' cs artists = resolveArtists rt im cs artists := by
  induction cs generalizing artists with
  | nil => rfl
  | cons c rest ih => simp only [resolveArtists, same, ih]

theorem Interned.groupKey (interned : Interned rt im im') (pa : ParsedAlbum) :
    groupKey rt im' pa = groupKey rt im pa := by
  unfold Importer.groupKey
  rw [resolveArtists_congr interned.names]

theorem internAlbumArtists_spec {cs : List Credit} {artists artists' : List AlbumArtist}
    (h : internAlbumArtists rt cs artists im = .ok (artists', im')) :
    artists' = resolveArtists rt im cs artists ∧ Interned rt im im' := by
  induction cs generalizing artists im with
  | nil => cases h; exact ⟨rfl, .refl rt _⟩
  | cons c rest ih =>
    obtain ⟨⟨id, mid⟩, first, second⟩ := Database.bind_ok h
    obtain ⟨rfl, one⟩ := internArtist_spec first
    obtain ⟨rfl, others⟩ := ih second
    exact ⟨resolveArtists_congr one.names _ _, one.trans others⟩

theorem internTrackCredits_interned {cs : List Credit} {credits credits' : List TrackCredit}
    (h : internTrackCredits rt cs credits im = .ok (credits', im')) : Interned rt im im' := by
  induction cs generalizing credits im with
  | nil => cases h; exact .refl rt _
  | cons c rest ih =>
    obtain ⟨⟨id, mid⟩, first, second⟩ := Database.bind_ok h
    exact (internArtist_spec first).2.trans (ih second)

theorem buildTracks_spec {albumID : UUID} {a i : Nat} {pts : List ParsedTrack} {tracks : List Track}
    (h : buildTracks rt albumID a i pts im = .ok (tracks, im')) :
    tracks.map (fun t => (t.key, t.details)) = pts.map (fun pt => (pt.key, trackDetails pt)) ∧
      Interned rt im im' := by
  induction pts generalizing i tracks im with
  | nil => cases h; exact ⟨rfl, .refl rt _⟩
  | cons pt rest ih =>
    obtain ⟨⟨credits, credited⟩, first, h⟩ := Database.bind_ok h
    obtain ⟨⟨later, last⟩, second, h⟩ := Database.bind_ok h
    cases h
    obtain ⟨tail, others⟩ := ih second
    refine ⟨?_, (internTrackCredits_interned first).trans others⟩
    rw [List.map_cons, List.map_cons, tail]
    rfl

theorem mapError_ok {ε ε' α : Type} {x : Except ε α} {f : ε → ε'} {a : α}
    (h : x.mapError f = .ok a) : x = .ok a := by
  cases x with
  | error e => cases h
  | ok b => cases h; rfl

/-- What an import takes from a parsed album for the album and its tracks. -/
def parsedSummary (rt : Runtime) (im : Importer) (pa : ParsedAlbum) :
    Option String × List ((UUID × Int) × TrackDetails) :=
  (groupKey rt im pa, pa.tracks.map fun pt => (pt.key, trackDetails pt))

/-- The same, of an album that is handed to the store. -/
def summary (al : ImportAlbum) : Option String × List ((UUID × Int) × TrackDetails) :=
  (some al.album.groupKey, al.tracks.map fun t => (t.key, t.details))

theorem buildAlbum_spec {dirID : UUID} {a : Nat} {pa : ParsedAlbum} {al : ImportAlbum}
    (h : buildAlbum rt dirID a pa im = .ok (al, im')) :
    summary al = parsedSummary rt im pa ∧ al.album.dirID = dirID ∧ Interned rt im im' := by
  obtain ⟨⟨artists, credited⟩, first, h⟩ := Database.bind_ok h
  obtain ⟨key, keyed, h⟩ := Database.bind_ok h
  obtain ⟨⟨tracks, last⟩, second, h⟩ := Database.bind_ok h
  cases h
  obtain ⟨rfl, one⟩ := internAlbumArtists_spec first
  obtain ⟨listed, others⟩ := buildTracks_spec second
  refine ⟨?_, rfl, one.trans others⟩
  have same : groupKey rt im pa = some key := by
    -- the key reads the artists and the title only
    change (albumGroupKey rt.sum64 (newAlbum (rt.newAlbumID a) dirID pa _)).toOption = _
    rw [mapError_ok keyed]
    rfl
  unfold summary parsedSummary
  rw [same, listed]

theorem buildAlbums_spec {dirID : UUID} {images : List AlbumImage} {a : Nat}
    {pas : List ParsedAlbum} {albums : List ImportAlbum}
    (h : buildAlbums rt dirID images a pas im = .ok (albums, im')) :
    albums.map summary = pas.map (parsedSummary rt im) ∧
      (∀ al ∈ albums, al.album.dirID = dirID ∧ al.album.images = images) ∧
      Interned rt im im' := by
  induction pas generalizing a albums im with
  | nil => cases h; exact ⟨rfl, by simp, .refl rt _⟩
  | cons pa rest ih =>
    obtain ⟨⟨al, mid⟩, first, h⟩ := Database.bind_ok h
    obtain ⟨⟨later, last⟩, second, h⟩ := Database.bind_ok h
    cases h
    obtain ⟨head, owned, one⟩ := buildAlbum_spec first
    obtain ⟨tail, all, others⟩ := ih second
    refine ⟨?_, ?_, one.trans others⟩
    · have keys : parsedSummary rt mid = parsedSummary rt im := by
        funext pa
        unfold parsedSummary
        rw [one.groupKey]
      rw [keys] at tail
      rw [List.map_cons, List.map_cons, tail, ← head]
      rfl
    · exact List.forall_mem_cons.mpr ⟨⟨owned, rfl⟩, all⟩

/-- A successful import is one `ReplaceDirAlbums` with what was built. -/
theorem importResult_steps {res : ParseResult} (h : importResult rt res im = .ok im') :
    ∃ albums mid, buildAlbums rt res.dirID (albumImages res.images) 0 res.albums im =
        .ok (albums, mid) ∧ Database.replaceDirAlbums res.dirID albums mid.db = .ok im'.db := by
  obtain ⟨⟨albums, mid⟩, first, h⟩ := Database.bind_ok h
  obtain ⟨db, second, h⟩ := Database.bind_ok h
  cases h
  exact ⟨albums, mid, first, mapError_ok second⟩

/-- An import is a run of writes of the stores. -/
theorem importResult_reachable {res : ParseResult} (reachable : im.db.Reachable)
    (h : importResult rt res im = .ok im') : im'.db.Reachable := by
  obtain ⟨albums, mid, loop, replaced⟩ := importResult_steps h
  have interned : mid.db.Reachable := (buildAlbums_spec loop).2.2.reaches reachable
  have stored : Database.step mid.db (.replaceDirAlbums res.dirID albums) = some im'.db := by
    rw [Database.step, replaced]
    rfl
  exact interned.step stored

end Importer

end Byom.Metadata
