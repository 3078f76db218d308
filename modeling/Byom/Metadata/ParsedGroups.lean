import Byom.Metadata.Parser
import Byom.Relational.Grouping

/-!
# The albums of a dir

What `parseDir` makes of the files of a dir: the errors and images are those of the files
that have one, and the albums are the groups of the audio files by a joined key. The names
in the key may contain the slash that joins them.
-/

namespace Byom.Metadata

open Storage Library Relational

/-- An audio file that reads successfully, with what is read. -/
def audioRead : File × Reading → Option (File × AudioFile)
  | (f, r) =>
    match f.kind, r.readAudio with
    | .audio, .ok read => some (f, read)
    | _, _ => none

def readable (files : List (File × Reading)) : List (File × AudioFile) :=
  files.filterMap audioRead

/-- The album artists of a file and the title of its album: the ALBUM value, or else the base
name of the dir that the file is in. -/
def ident (u : CaseTables) (dir : Path) : File × AudioFile → List Credit × String
  | (f, read) =>
    let tags := readTags (normTags u.toUpper read.tags)
    let title := firstValue tags ["ALBUM"]
    (mapAlbumArtists tags, if title = "" then absBase (dir ++ f.name).dir else title)

def trackOf (u : CaseTables) (dir : Path) : File × AudioFile → ParsedTrack
  | (f, read) => (parseAudio u dir f read).track

/-- The key of an identity in the map of albums. -/
def identKey (ident : List Credit × String) : String :=
  "\x00".intercalate [joinNames ident.1, ident.2]

/-- The file fails or has an unknown kind. -/
def fails (u : CaseTables) : File × Reading → Bool
  | (f, r) =>
    match f.kind with
    | .audio => !r.readAudio.isOk
    | .image => eagerImageKind (classifyImage u f.name) && !(r.opened.isOk && r.added.isOk)
    | .other _ => true

/-- An eager image that the store accepts. -/
def accepted (u : CaseTables) : File × Reading → Option ParsedImage
  | (f, r) =>
    match f.kind, r.opened, r.added with
    | .image, .ok _, .ok imageID =>
      let kind := classifyImage u f.name
      if eagerImageKind kind then some ⟨imageID, kind⟩ else none
    | _, _, _ => none

/-- Each audio file that reads is one track of one album, in file order, and files share an
album exactly if artists and title are equal; each file that fails is one error, and each
accepted image is one image, in file order. -/
structure Partitions (u : CaseTables) (dir : Path) (files : List (File × Reading))
    (res : ParsedDir) : Prop where
  albums : ∃ groups, GroupedBy (ident u dir) (readable files) groups ∧
    List.Forall₂ (fun al g => al.tracks = g.map (trackOf u dir)) res.albums groups
  errors : res.errors.map ParseError.fileID = (files.filter (fails u)).map fun file => file.1.id
  images : res.images = files.filterMap (accepted u)

/-- Among files with one title, the joined names tell the album artists apart. -/
def NamesTellApart (u : CaseTables) (dir : Path) (files : List (File × Reading)) : Prop :=
  ∀ p ∈ readable files, ∀ q ∈ readable files, (ident u dir p).2 = (ident u dir q).2 →
    joinNames (ident u dir p).1 = joinNames (ident u dir q).1 →
      (ident u dir p).1 = (ident u dir q).1

instance (u : CaseTables) (dir : Path) (files : List (File × Reading)) :
    Decidable (NamesTellApart u dir files) :=
  inferInstanceAs (Decidable (∀ p ∈ readable files, ∀ q ∈ readable files, _ → _ → _))

variable {u : CaseTables} {dir : Path} {files : List (File × Reading)} {file : File × Reading}
  {st : ParseState}

/-- The album that a file is parsed into has its identity. -/
theorem parseAudio_ident (u : CaseTables) (dir : Path) (f : File) (read : AudioFile) :
    ((parseAudio u dir f read).artists, (parseAudio u dir f read).album.title) =
      ident u dir (f, read) := by
  refine Prod.ext rfl ?_
  rw [parseAudio, ident]
  exact apply_ite AlbumMetadata.title _ _ _

/-- The map of albums with the track of a file. -/
def addAudio (u : CaseTables) (dir : Path) (albums : List (String × ParsedAlbum))
    (x : File × AudioFile) : List (String × ParsedAlbum) :=
  addTrack (parseAudio u dir x.1 x.2) albums

/-- What one file adds to the state. -/
theorem parseFile_spec (u : CaseTables) (dir : Path) (st : ParseState) (file : File × Reading) :
    (parseFile u dir st file).albums =
        (audioRead file).elim st.albums (addAudio u dir st.albums) ∧
      (parseFile u dir st file).errors.map ParseError.fileID =
        st.errors.map ParseError.fileID ++ (if fails u file then [file.1.id] else []) ∧
      (parseFile u dir st file).images = st.images ++ (accepted u file).toList := by
  obtain ⟨f, r⟩ := file
  cases kind : f.kind with
  | audio =>
    cases read : r.readAudio <;>
      simp [parseFile, audioRead, addAudio, fails, accepted, ParseState.fail, kind, read,
        Except.isOk, Except.toBool]
  | image =>
    cases eager : eagerImageKind (classifyImage u f.name) <;> cases opened : r.opened <;>
      cases added : r.added <;>
        simp [parseFile, audioRead, fails, accepted, ParseState.fail, kind, eager, opened, added,
          Except.isOk, Except.toBool]
  | other text =>
    simp [parseFile, audioRead, fails, accepted, ParseState.fail, kind]

/-- What all files add. -/
theorem parseFiles_spec (u : CaseTables) (dir : Path) (files : List (File × Reading))
    (st : ParseState) :
    (files.foldl (parseFile u dir) st).albums =
        (readable files).foldl (addAudio u dir) st.albums ∧
      (files.foldl (parseFile u dir) st).errors.map ParseError.fileID =
        st.errors.map ParseError.fileID ++
          (files.filter (fails u)).map (fun file => file.1.id) ∧
      (files.foldl (parseFile u dir) st).images = st.images ++ files.filterMap (accepted u) := by
  induction files generalizing st with
  | nil => simp [readable]
  | cons file rest ih =>
    obtain ⟨albums, errors, images⟩ := parseFile_spec u dir st file
    obtain ⟨restAlbums, restErrors, restImages⟩ := ih (parseFile u dir st file)
    rw [albums] at restAlbums
    rw [errors] at restErrors
    rw [images] at restImages
    refine ⟨restAlbums.trans ?_, restErrors.trans ?_, restImages.trans ?_⟩
    · rw [readable, readable, List.filterMap_cons]
      cases audioRead file <;> rfl
    · rw [List.append_assoc, List.filter_cons]
      cases fails u file <;> rfl
    · rw [List.append_assoc, List.filterMap_cons]
      cases accepted u file <;> rfl

/-! ### Albums are groups -/

/-- The tracks under each key of the map. -/
def tracksByKey (albums : List (String × ParsedAlbum)) : List (String × List ParsedTrack) :=
  albums.map fun (key, al) => (key, al.tracks)

theorem tracksByKey_addAudio (x : File × AudioFile) (albums : List (String × ParsedAlbum)) :
    tracksByKey (addAudio u dir albums x) =
      upsertOn Prod.fst (fun (key, ts) => (key, ts ++ [trackOf u dir x]))
        (identKey (ident u dir x), [trackOf u dir x]) (tracksByKey albums) := by
  rw [← parseAudio_ident]
  exact map_upsertOn (fun _ => rfl) (fun _ => rfl)

/-- The map of albums is the grouping by the key. -/
theorem tracksByKey_addAudios (u : CaseTables) (dir : Path) (xs : List (File × AudioFile)) :
    tracksByKey (xs.foldl (addAudio u dir) []) =
      (groupOn (fun x => identKey (ident u dir x)) xs).map
        fun (key, g) => (key, g.map (trackOf u dir)) := by
  induction xs using List.reverseRecOn with
  | nil => rfl
  | append_singleton xs x ih =>
    rw [List.foldl_append, groupOn_concat]
    refine (tracksByKey_addAudio x _).trans ?_
    rw [ih]
    symm
    apply map_upsertOn
    · intro e
      rfl
    · rintro ⟨key, g⟩
      simp

theorem forall₂_tracks_iff {albums : List ParsedAlbum} {groups : List (List (File × AudioFile))} :
    List.Forall₂ (fun al g => al.tracks = g.map (trackOf u dir)) albums groups ↔
      albums.map ParsedAlbum.tracks = groups.map fun g => g.map (trackOf u dir) := by
  have seen : List.Forall₂ Eq (albums.map ParsedAlbum.tracks)
      (groups.map fun g => g.map (trackOf u dir)) ↔
        List.Forall₂ (fun al g => al.tracks = g.map (trackOf u dir)) albums groups := by
    rw [List.forall₂_map_left_iff, List.forall₂_map_right_iff]
  rw [← seen, List.forall₂_eq_eq_eq]

theorem parseDir_tracks (u : CaseTables) (dir : Path) (dirID : UUID)
    (files : List (File × Reading)) :
    List.Forall₂ (fun al g => al.tracks = g.map (trackOf u dir))
      (parseDir u dir dirID files).albums
      ((groupOn (fun x => identKey (ident u dir x)) (readable files)).map Prod.snd) := by
  have albums := (parseFiles_spec u dir files ⟨[], [], []⟩).1
  have groups := tracksByKey_addAudios u dir (readable files)
  rw [← albums] at groups
  have tracks := congrArg (List.map Prod.snd) groups
  rw [forall₂_tracks_iff]
  simpa [tracksByKey, parseDir, Function.comp_def] using tracks

/-! ### The key -/

/-- Without NUL in the names the key has both of its parts. -/
theorem identKey_eq_iff {a b : List Credit × String}
    (cleanA : ∀ c ∈ a.1, '\x00' ∉ c.creditedName.toList)
    (cleanB : ∀ c ∈ b.1, '\x00' ∉ c.creditedName.toList) :
    identKey a = identKey b ↔ joinNames a.1 = joinNames b.1 ∧ a.2 = b.2 := by
  have noNull : ∀ {artists : List Credit}, (∀ c ∈ artists, '\x00' ∉ c.creditedName.toList) →
      '\x00' ∉ (joinNames artists).toList := by
    intro artists clean
    have slash : "/".toList = ['/'] := by decide
    rw [joinNames, String.toList_intercalate, slash]
    intro null
    refine Text.forall_mem_intercalate (P := fun r => r ≠ '\x00') ?_ ?_ _ null rfl
    · exact List.forall_mem_singleton.mpr (by decide)
    · intro s hs r hr
      obtain ⟨name, hname, rfl⟩ := List.mem_map.mp hs
      obtain ⟨c, hc, rfl⟩ := List.mem_map.mp hname
      exact fun same => clean c hc (same ▸ hr)
  have read : ∀ ident : List Credit × String,
      (identKey ident).toList = (joinNames ident.1).toList ++ '\x00' :: ident.2.toList := by
    intro ident
    simp [identKey]
  rw [← String.toList_inj, read, read, Text.append_separator_inj (noNull cleanA) (noNull cleanB),
    String.toList_inj, String.toList_inj]

theorem ident_noNull (x : File × AudioFile) :
    ∀ c ∈ (ident u dir x).1, '\x00' ∉ c.creditedName.toList := by
  intro c hc null
  exact (mapAlbumArtists_clean c hc).noNull (contains_null_iff.mpr null)

/-- The key tells the files apart as artists and title do. -/
theorem identKey_iff_of_tellApart (apart : NamesTellApart u dir files) :
    ∀ p ∈ readable files, ∀ q ∈ readable files,
      ident u dir p = ident u dir q ↔ identKey (ident u dir p) = identKey (ident u dir q) := by
  intro p hp q hq
  refine ⟨congrArg identKey, fun same => ?_⟩
  obtain ⟨names, title⟩ := (identKey_eq_iff (ident_noNull p) (ident_noNull q)).mp same
  exact Prod.ext (apart p hp q hq title names) title

theorem groups_ne_nil (xs : List (File × AudioFile)) :
    ∀ g ∈ (groupOn (fun x => identKey (ident u dir x)) xs).map Prod.snd, g ≠ [] := by
  intro g hg
  obtain ⟨e, he, rfl⟩ := List.mem_map.mp hg
  exact (groupOn_collected _ xs).some_ e he

/-- Merged files would leave fewer albums than groups. -/
theorem tellApart_of_partitions {dirID : UUID}
    (partitions : ∀ albums, albums.Perm (parseDir u dir dirID files).albums →
      Partitions u dir files { parseDir u dir dirID files with albums }) :
    NamesTellApart u dir files := by
  obtain ⟨groups, grouped, tracks⟩ := (partitions _ (List.Perm.refl _)).albums
  have keyed := (groupOn_collected (fun x => identKey (ident u dir x)) (readable files)).groupedBy
  have own := parseDir_tracks u dir dirID files
  have length := tracks.length_eq.symm.trans own.length_eq
  have some_ : ∀ g ∈ groups, g ≠ [] := by
    rintro g hg rfl
    have listed := List.mem_map_of_mem (f := fun g => g.map (trackOf u dir)) hg
    rw [← forall₂_tracks_iff.mp tracks, forall₂_tracks_iff.mp own] at listed
    obtain ⟨g', hg', empty⟩ := List.mem_map.mp listed
    exact groups_ne_nil _ g' hg' (List.map_eq_nil_iff.mp empty)
  have inj := grouped.injOn some_ keyed (groups_ne_nil _) length
  intro p hp q hq title names
  have same : identKey (ident u dir p) = identKey (ident u dir q) := by
    simp only [identKey, title, names]
  exact congrArg Prod.fst (inj p hp q hq same)

/-- `parseDir` parts the files of a dir exactly if the joined names tell the artists of one
title apart, in whatever order the albums come from the map. -/
theorem parseDir_partitions_iff (u : CaseTables) (dir : Path) (dirID : UUID)
    (files : List (File × Reading)) :
    (∀ albums, albums.Perm (parseDir u dir dirID files).albums →
        Partitions u dir files { parseDir u dir dirID files with albums }) ↔
      NamesTellApart u dir files := by
  constructor
  · exact tellApart_of_partitions
  · intro apart albums perm
    have keyed :=
      (groupOn_collected (fun x => identKey (ident u dir x)) (readable files)).groupedBy
    obtain ⟨groups, each, same⟩ :=
      List.perm_comp_forall₂ perm (parseDir_tracks u dir dirID files)
    obtain ⟨_, errors, images⟩ := parseFiles_spec u dir files ⟨[], [], []⟩
    refine ⟨⟨groups, ?_, each⟩, errors, images⟩
    exact (keyed.congr (identKey_iff_of_tellApart apart)).perm same

/-! ### One artist and two -/

def asciiTables : CaseTables where
  toLower := Char.toLower
  toUpper := Char.toUpper
  folds a b := a.toLower = b.toLower
  quote s := "\"" ++ s ++ "\""

def taggedFile (id : UUID) (name albumArtist : String) : File × Reading :=
  (⟨id, [name], .audio, ⟨1000, 5⟩, false⟩,
    { readAudio := .ok ⟨⟨"flac", 44100, 16, 2, 900⟩, 180000000000,
        [("ALBUMARTIST", [albumArtist]), ("ALBUM", ["Live"])]⟩
      opened := .ok ()
      added := .ok .nil })

def slashFiles : List (File × Reading) :=
  [taggedFile 1 "01.flac" "AC/DC", taggedFile 2 "02.flac" "AC; DC"]

/-- The names of two artists are joined to that of one. -/
theorem slashFiles_merged : ¬∀ albums, albums.Perm (parseDir asciiTables ["a"] 10 slashFiles).albums →
    Partitions asciiTables ["a"] slashFiles
      { parseDir asciiTables ["a"] 10 slashFiles with albums } := by
  intro all
  exact absurd (tellApart_of_partitions all) (by decide +kernel)

end Byom.Metadata
