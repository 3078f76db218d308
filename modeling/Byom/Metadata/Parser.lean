import Byom.Metadata.Credits
import Byom.Scan.Walk

/-!
# Parsing a dir

`parseDir` reads the files of a dir one by one: the audio files become tracks of albums,
kept in a map by title and album artists, and the images with a kind of interest go to the
image store.
-/

namespace Byom.Metadata

open Storage Library

/-- What comes from the Unicode tables: `unicode.ToLower`, `unicode.ToUpper`, the characters
that `unicode.SimpleFold` leads between, and `strconv.Quote`. -/
structure CaseTables where
  toLower : Char → Char
  toUpper : Char → Char
  folds : Char → Char → Bool
  quote : String → String

/-- `strings.ToLower`. -/
def lowerCase (u : CaseTables) (s : String) : String := String.ofList (s.toList.map u.toLower)

def foldEqual (u : CaseTables) : List Char → List Char → Bool
  | [], [] => true
  | a :: s, b :: t => (a = b || u.folds a b) && foldEqual u s t
  | _, _ => false

/-- `strings.EqualFold`. -/
def equalFold (u : CaseTables) (s t : String) : Bool := foldEqual u s.toList t.toList

/-! ### Albums -/

/-- `containsFold`. -/
def containsFold (u : CaseTables) (tags : Tags) (key v : String) : Bool :=
  (firstMatching tags [key]).any fun s => equalFold u s v

/-- The loop of `mapAlbumType`: the first definitive match, or the fallback. -/
def releaseType (u : CaseTables) : List String → AlbumType → AlbumType
  | [], albumType => albumType
  | s :: rest, albumType =>
    let lowered := lowerCase u s
    if lowered = "album" then .main
    else if lowered = "single" then .single
    else if lowered = "ep" ∨ lowered = "extendedplay" then .ep
    else if lowered = "other" then .other
    else if lowered = "live" ∨ lowered = "compilation" then releaseType u rest .main
    else releaseType u rest albumType

def mapAlbumType (u : CaseTables) (tags : Tags) : AlbumType :=
  let albumType := releaseType u (firstMatching tags ["RELEASETYPE"]) .unknown
  if albumType = .unknown ∧ truthy (firstValue tags ["COMPILATION"]) = true then .main
  else albumType

def mapAlbum (u : CaseTables) (tags : Tags) : AlbumMetadata where
  type := mapAlbumType u tags
  title := firstValue tags ["ALBUM"]
  releaseDate := firstValue tags ["DATE", "YEAR"]
  originalReleaseDate := firstValue tags ["ORIGINALDATE", "ORIGINALYEAR"]
  bootleg := equalFold u (firstValue tags ["RELEASESTATUS"]) "bootleg"
  compilation := truthy (firstValue tags ["COMPILATION"]) ||
    containsFold u tags "RELEASETYPE" "compilation"
  live := containsFold u tags "RELEASETYPE" "live"

def joinNames (artists : List Credit) : String :=
  "/".intercalate (artists.map Credit.creditedName)

def albumMetaKey (album : AlbumMetadata) (artists : List Credit) : String :=
  "\x00".intercalate [joinNames artists, album.title]

/-! ### Images -/

/-- `path.Ext`. -/
def extension (name : String) : String := String.ofList (Scan.ext name)

/-- `strings.TrimSuffix`. -/
def trimSuffix (s suffix : String) : String :=
  if suffix.toList.isSuffixOf s.toList then
    String.ofList (s.toList.take (s.toList.length - suffix.toList.length))
  else s

def classifyImage (u : CaseTables) (name : Path) : ImageKind :=
  let base := lowerCase u name.base
  let base := trimSuffix base (extension base)
  if base ∈ ["cover", "front", "folder", "album", "albumart"] then .cover
  else if base = "back" then .back
  else if base ∈ ["disc", "cd", "media", "label"] then .disc
  else if base = "artist" then .artist
  else .other

def eagerImageKind (kind : ImageKind) : Bool := kind = .cover || kind = .artist

/-! ### Files -/

/-- What `readAudio` returns, the tags in the order in which a loop visits them. -/
structure AudioFile where
  audio : AudioProperties
  duration : Int
  tags : List (String × List String)

/-- What reading a file comes to: as audio, or opened and added to the image store. -/
structure Reading where
  readAudio : Except String AudioFile
  opened : Except String Unit
  added : Except String UUID

structure ParseError where
  fileID : UUID
  message : String
  deriving DecidableEq, Repr

/-- `ParseResult`, with the files that failed. -/
structure ParsedDir extends ParseResult where
  errors : List ParseError

/-- The state of the loop: the map of albums, and the result. -/
structure ParseState where
  albums : List (String × ParsedAlbum)
  images : List ParsedImage
  errors : List ParseError

/-- `filepath.Base`, of an absolute path. -/
def absBase (p : Path) : String := p.getLast?.getD "/"

/-- What an audio file is parsed into: its album, the album's artists and the track. -/
structure ParsedFile where
  album : AlbumMetadata
  artists : List Credit
  track : ParsedTrack
  deriving DecidableEq

def parseAudio (u : CaseTables) (dir : Path) (f : File) (read : AudioFile) : ParsedFile :=
  let fp := dir ++ f.name
  let tags := readTags (normTags u.toUpper read.tags)
  let album := mapAlbum u tags
  let metadata := mapTrack tags
  { album := if album.title = "" then { album with title := absBase fp.dir } else album
    artists := mapAlbumArtists tags
    track :=
      { fileID := f.id
        metadata :=
          if metadata.title = "" then
            { metadata with title := trimSuffix (absBase fp) (extension (absBase fp)) }
          else metadata
        credits := mapCredits tags
        audio := read.audio
        duration := read.duration
        startOffset := 0 } }

/-- A track goes to the album with its key, or to a new one. -/
def addTrack (pf : ParsedFile) (albums : List (String × ParsedAlbum)) :
    List (String × ParsedAlbum) :=
  Relational.upsertOn Prod.fst
    (fun (key, al) => (key, { al with tracks := al.tracks ++ [pf.track] }))
    (albumMetaKey pf.album pf.artists, ⟨pf.album, pf.artists, [pf.track]⟩) albums

def ParseState.fail (st : ParseState) (f : File) (message : String) : ParseState :=
  { st with errors := st.errors ++ [⟨f.id, message⟩] }

/-- One round of the loop of `parseDir`. -/
def parseFile (u : CaseTables) (dir : Path) (st : ParseState) : File × Reading → ParseState
  | (f, r) =>
    match f.kind with
    | .audio =>
      match r.readAudio with
      | .error message => st.fail f message
      | .ok read => { st with albums := addTrack (parseAudio u dir f read) st.albums }
    | .image =>
      let kind := classifyImage u f.name
      if !eagerImageKind kind then st
      else
        match r.opened with
        | .error message => st.fail f message
        | .ok _ =>
          match r.added with
          | .error message => st.fail f message
          | .ok imageID => { st with images := st.images ++ [⟨imageID, kind⟩] }
    | .other text => st.fail f ("unknown file kind " ++ u.quote text)

/-- `parseDir`, with the albums in the order of their first tracks. The source collects them
from a map, in any order. -/
def parseDir (u : CaseTables) (dir : Path) (dirID : UUID) (files : List (File × Reading)) :
    ParsedDir :=
  let st := files.foldl (parseFile u dir) ⟨[], [], []⟩
  ⟨⟨dirID, st.albums.map Prod.snd, st.images⟩, st.errors⟩

end Byom.Metadata
