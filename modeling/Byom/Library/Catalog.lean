import Byom.Storage.File

/-!
# Artists, albums, tracks and images

The types of the `library` package. The fields of an album or a track that come
from the tags are grouped in its `details`.
-/

namespace Byom.Storage.UUID

def hexDigit (u : UUID) (i : Nat) : Char := Nat.digitChar (u.toNat / 16 ^ (31 - i) % 16)

/-- `UUID.String`. -/
def string (u : UUID) : String :=
  let digits := (List.range 32).map (hexDigit u)
  String.ofList (['-'].intercalate
    [digits.take 8, (digits.drop 8).take 4, (digits.drop 12).take 4, (digits.drop 16).take 4,
      digits.drop 20])

end Byom.Storage.UUID

namespace Byom.Library

open Storage

structure Artist where
  id : UUID
  name : String
  sortName : String
  deriving DecidableEq, Repr

structure Image where
  id : UUID
  contentHash : String
  mimeType : String
  width : Int
  height : Int
  deriving DecidableEq, Repr

inductive ImageKind where
  | cover
  | back
  | disc
  | artist
  | other
  deriving DecidableEq, Repr

structure AlbumImage where
  imageID : UUID
  kind : ImageKind
  setCover : Bool
  deriving DecidableEq, Repr

structure AlbumArtist where
  artistID : UUID
  creditedName : String
  deriving DecidableEq, Repr

inductive AlbumType where
  | unknown
  | main
  | single
  | ep
  | other
  deriving DecidableEq, Repr

structure AlbumDetails where
  type : AlbumType
  title : String
  releaseDate : String
  originalReleaseDate : String
  releaseCountry : String
  bootleg : Bool
  compilation : Bool
  live : Bool
  version : String
  deriving DecidableEq, Repr

/-- The last three fields are set by the store on reads. -/
structure Album where
  id : UUID
  dirID : UUID
  details : AlbumDetails
  artists : List AlbumArtist
  images : List AlbumImage
  groupKey : String
  coverHash : String := ""
  primaryVersion : Bool := false
  artistSort : String := ""
  deriving DecidableEq, Repr

structure AudioProperties where
  codec : String
  sampleRate : Int
  bitDepth : Int
  channels : Int
  bitrate : Int
  deriving DecidableEq, Repr

structure TrackCredit where
  artistID : UUID
  creditedName : String
  role : String
  deriving DecidableEq, Repr

structure TrackDetails where
  discNumber : Int
  discSubtitle : String
  trackNumber : Int
  title : String
  releaseDate : String
  originalReleaseDate : String
  audio : AudioProperties
  duration : Int
  deriving DecidableEq, Repr

structure Track where
  id : UUID
  albumID : UUID
  details : TrackDetails
  credits : List TrackCredit
  fileID : UUID
  startOffset : Int
  deriving DecidableEq, Repr

/-! ### Matching names and releases -/

/-- `library.AlbumGroupKey`, for a hash `sum64` of the buffer it fills. -/
def albumGroupKey (sum64 : String → UInt64) (al : Album) : Except String String :=
  if al.artists.any fun a => a.artistID = .nil then
    .error "album contains nil artist ID"
  else
    let ids := "/".intercalate (al.artists.map fun a => a.artistID.string)
    let title := if al.details.title ≠ "" then al.details.title else "[Unknown Album]"
    let sum := sum64 (ids ++ "\x00" ++ title)
    .ok (String.ofList (Nat.toDigits 16 sum.toNat))

/-- What `NormalizeArtistName` takes from the Unicode tables: the transform that
strips combining marks, and `unicode.ToLower`. -/
structure Unicode where
  stripDiacritics : String → String
  toLower : Char → Char

/-- `unicode.IsSpace`. -/
def isSpace (r : Char) : Bool :=
  r ∈ ['\t', '\n', '\x0b', '\x0c', '\r', ' ', '\u0085', '\u00a0', '\u1680', '\u2028', '\u2029',
    '\u202f', '\u205f', '\u3000'] || '\u2000' ≤ r && r ≤ '\u200a'

/-- In the range table `unicode.Pd`. -/
def isDash (r : Char) : Bool :=
  r ∈ ['-', '\u058a', '\u05be', '\u1400', '\u1806', '\u2e17', '\u2e1a', '\u2e3a', '\u2e3b',
    '\u2e40', '\u2e5d', '\u301c', '\u3030', '\u30a0', '\ufe31', '\ufe32', '\ufe58', '\ufe63',
    '\uff0d', Char.ofNat 0x10ead] || '\u2010' ≤ r && r ≤ '\u2015'

/-- The punctuation that is dropped: comma, straight and curly quotes, backtick. -/
def isIgnored (r : Char) : Bool :=
  r ∈ [',', '\x27', '\x22', '\x60', '\u2018', '\u2019', '\u201c', '\u201d']

def isSeparator (r : Char) : Bool := r = '.' || r = '/' || isSpace r || isDash r

/-- Transliterations and expansions. -/
def spell (u : Unicode) (r : Char) : List Char :=
  if r = '&' then ['a', 'n', 'd']
  else if r = '\u00d8' ∨ r = '\u00f8' then ['o']
  else [u.toLower r]

/-- The loop of `NormalizeArtistName` over the runes left, with what is written so far. -/
def normalizeRunes (u : Unicode) : List Char → List Char → Bool → List Char
  | [], written, _ => written
  | r :: rs, written, inSpace =>
    if isIgnored r then normalizeRunes u rs written inSpace
    else if isSeparator r then normalizeRunes u rs written (inSpace || !written.isEmpty)
    else
      let hyphened := if inSpace then written ++ ['-'] else written
      normalizeRunes u rs (hyphened ++ spell u r) false

/-- `library.NormalizeArtistName`. -/
def normalizeArtistName (u : Unicode) (name : String) : String :=
  String.ofList (normalizeRunes u (u.stripDiacritics name).toList [] false)

/-- `strings.TrimSpace`. -/
def trimSpace (s : String) : String :=
  String.ofList (((s.toList.dropWhile isSpace).reverse.dropWhile isSpace).reverse)

end Byom.Library
