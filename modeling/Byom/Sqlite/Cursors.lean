import Byom.Library.UUIDText
import Byom.Page.Token
import Byom.Sqlite.AlbumListing

/-!
# The cursors of the listings

Each cursor with its document and with the fields it is decoded into. A text in a
document that is no known value of its type is an error here; where it is not one in the
source, it differs from the parameter it is compared with, which is the same error.
-/

namespace Byom.Library

open Storage

inductive AlbumOrder where
  | title
  | artist
  | releaseDate
  | originalDate
  | recentlyAdded
  | unrecognized (text : String)
  deriving DecidableEq, Repr

/-- `AlbumQuery` with the order it lists in. -/
structure SortedQuery extends AlbumQuery where
  order : AlbumOrder := .title
  descending : Bool := false
  deriving DecidableEq, Repr

def AlbumOrder.text : AlbumOrder → String
  | .title => ""
  | .artist => "artist"
  | .releaseDate => "release_date"
  | .originalDate => "original_date"
  | .recentlyAdded => "recently_added"
  | .unrecognized text => text

def AlbumOrder.ofText (text : String) : AlbumOrder :=
  if text = "" then .title
  else if text = "artist" then .artist
  else if text = "release_date" then .releaseDate
  else if text = "original_date" then .originalDate
  else if text = "recently_added" then .recentlyAdded
  else .unrecognized text

/-- One of the constants of the source. -/
def AlbumOrder.Recognized (order : AlbumOrder) : Prop := ∀ text, order ≠ .unrecognized text

def AlbumType.text : AlbumType → String
  | .unknown => ""
  | .main => "main"
  | .single => "single"
  | .ep => "ep"
  | .other => "other"

def AlbumType.ofText (text : String) : Option AlbumType :=
  [AlbumType.unknown, .main, .single, .ep, .other].find? fun type => type.text = text

def BootlegFilter.text : BootlegFilter → String
  | .bootlegsInclude => ""
  | .bootlegsExclude => "exclude"
  | .bootlegsOnly => "only"

def BootlegFilter.ofText (text : String) : Option BootlegFilter :=
  [BootlegFilter.bootlegsInclude, .bootlegsExclude, .bootlegsOnly].find? fun b => b.text = text

theorem AlbumOrder.ofText_text {order : AlbumOrder} (known : order.Recognized) :
    AlbumOrder.ofText order.text = order := by
  cases order with
  | unrecognized text => exact absurd rfl (known text)
  | _ => decide

theorem AlbumType.ofText_text (type : AlbumType) : AlbumType.ofText type.text = some type := by
  cases type <;> decide

theorem BootlegFilter.ofText_text (b : BootlegFilter) : BootlegFilter.ofText b.text = some b := by
  cases b <;> decide

end Byom.Library

namespace Byom.Scan.State

/-- The text of a state, or of no state. -/
def text : Option State → String
  | none => ""
  | some .running => "running"
  | some .cancelling => "cancelling"
  | some .done => "done"
  | some .failed => "failed"
  | some .aborted => "aborted"

def ofText (text : String) : Option (Option State) :=
  [none, some running, some cancelling, some done, some failed, some aborted].find?
    fun state => State.text state = text

end Byom.Scan.State

namespace Byom.Sqlite

open Storage Library Encoding

def uuidJson (id : UUID) : Json := .string id.string

def jsonUUID (json : Json) : Option UUID := json.text.bind UUID.parse

@[simp] theorem jsonUUID_uuidJson (id : UUID) : jsonUUID (uuidJson id) = some id :=
  UUID.parse_string id

/-! ### Locations and artists -/

structure LocationCursor where
  id : UUID := .nil
  deriving DecidableEq

def LocationCursor.fields : List (Encoding.Field LocationCursor) :=
  [.value "id" jsonUUID fun id c => { c with id }]

def LocationCursor.json (c : LocationCursor) : Json := .object [("id", uuidJson c.id)]

structure ArtistCursor where
  sortName : String := ""
  id : UUID := .nil
  deriving DecidableEq

def ArtistCursor.fields : List (Encoding.Field ArtistCursor) :=
  [.value "sort_name" Json.text fun sortName c => { c with sortName },
    .value "id" jsonUUID fun id c => { c with id }]

def ArtistCursor.json (c : ArtistCursor) : Json :=
  .object [("sort_name", .string c.sortName), ("id", uuidJson c.id)]

/-! ### Albums -/

def queryFields : List (Encoding.Field SortedQuery) :=
  [.value "artist_id" jsonUUID fun artistID q => { q with artistID },
    .value "all_versions" Json.flag fun includeAllVersions q => { q with includeAllVersions },
    .list "types" .unknown (fun json => json.text.bind AlbumType.ofText)
      fun types q => { q with types },
    .value "bootlegs" (fun json => json.text.bind BootlegFilter.ofText)
      fun bootlegs q => { q with bootlegs },
    .value "order" (fun json => json.text.map AlbumOrder.ofText) fun order q => { q with order },
    .value "descending" Json.flag fun descending q => { q with descending }]

def queryJson (q : SortedQuery) : Json :=
  .object ([("artist_id", uuidJson q.artistID), ("all_versions", .bool q.includeAllVersions)] ++
    (member "types" [] (fun types => .array (types.map fun type => .string type.text)) q.types ++
      (member "bootlegs" .bootlegsInclude (fun b => .string b.text) q.bootlegs ++
        (member "order" .title (fun order => .string order.text) q.order ++
          (member "descending" false .bool q.descending ++ [])))))

structure AlbumCursor where
  query : SortedQuery := {}
  title : String := ""
  artistSort : String := ""
  releaseDate : String := ""
  originalDate : String := ""
  id : UUID := .nil
  deriving DecidableEq

def AlbumCursor.fields : List (Encoding.Field AlbumCursor) :=
  [.struct "query" queryFields AlbumCursor.query fun query c => { c with query },
    .value "title" Json.text fun title c => { c with title },
    .value "artist_sort" Json.text fun artistSort c => { c with artistSort },
    .value "release_date" Json.text fun releaseDate c => { c with releaseDate },
    .value "original_date" Json.text fun originalDate c => { c with originalDate },
    .value "id" jsonUUID fun id c => { c with id }]

def AlbumCursor.json (c : AlbumCursor) : Json :=
  .object ([("query", queryJson c.query), ("title", .string c.title)] ++
    (member "artist_sort" "" .string c.artistSort ++
      (member "release_date" "" .string c.releaseDate ++
        (member "original_date" "" .string c.originalDate ++ [("id", uuidJson c.id)]))))

/-- A query is read back from its document. -/
theorem decode_queryJson {q : SortedQuery} (known : q.order.Recognized) :
    Field.decode queryFields (queryJson q) {} = some q := by
  have types : Json.list .unknown (fun json => json.text.bind AlbumType.ofText)
      (.array (q.types.map fun type => .string type.text)) = some q.types :=
    Json.list_array (fun _ => by simp) AlbumType.ofText_text q.types
  have order : (Json.string q.order.text).text.map AlbumOrder.ofText = some q.order :=
    congrArg some (AlbumOrder.ofText_text known)
  unfold queryJson
  rw [Field.decode_object, List.cons_append, List.cons_append, List.nil_append,
    Field.decodeMembers_value rfl (jsonUUID_uuidJson _) nofun,
    Field.decodeMembers_value rfl (Json.flag_bool _) nofun,
    Field.decodeMembers_member (b := q.types) rfl (Field.set_list types) fun zero => by rw [zero],
    Field.decodeMembers_member rfl (Field.set_value (BootlegFilter.ofText_text _) (by simp))
      fun zero => by rw [zero],
    Field.decodeMembers_member rfl (Field.set_value order (by simp)) fun zero => by rw [zero],
    Field.decodeMembers_member rfl (Field.set_value (Json.flag_bool _) nofun)
      fun zero => by rw [zero]]
  rfl

/-- `Decode` undoes `Encode`: the fields left out are zero. -/
theorem AlbumCursor.decode_json {c : AlbumCursor} (known : c.query.order.Recognized) :
    Field.decode AlbumCursor.fields c.json {} = some c := by
  have query : Field.decode queryFields (queryJson c.query) (AlbumCursor.query {}) =
      some c.query := decode_queryJson known
  unfold AlbumCursor.json
  rw [Field.decode_object, List.cons_append, List.cons_append, List.nil_append,
    Field.decodeMembers_struct rfl query,
    Field.decodeMembers_value rfl (Json.text_string _) nofun,
    Field.decodeMembers_member rfl (Field.set_value (Json.text_string _) nofun)
      fun zero => by rw [zero],
    Field.decodeMembers_member rfl (Field.set_value (Json.text_string _) nofun)
      fun zero => by rw [zero],
    Field.decodeMembers_member rfl (Field.set_value (Json.text_string _) nofun)
      fun zero => by rw [zero],
    Field.decodeMembers_value rfl (jsonUUID_uuidJson _) nofun]
  rfl

/-! ### Tracks and scans -/

structure TrackCursor where
  albumID : UUID := .nil
  discNumber : Int := 0
  trackNumber : Int := 0
  id : UUID := .nil
  deriving DecidableEq

def TrackCursor.fields : List (Encoding.Field TrackCursor) :=
  [.value "album_id" jsonUUID fun albumID c => { c with albumID },
    .value "disc_number" Json.int64 fun discNumber c => { c with discNumber },
    .value "track_number" Json.int64 fun trackNumber c => { c with trackNumber },
    .value "id" jsonUUID fun id c => { c with id }]

def TrackCursor.json (c : TrackCursor) : Json :=
  .object [("album_id", uuidJson c.albumID), ("disc_number", .number c.discNumber),
    ("track_number", .number c.trackNumber), ("id", uuidJson c.id)]

structure ScanCursor where
  locationID : UUID := .nil
  state : Option Scan.State := none
  startTime : Int := 0
  id : UUID := .nil
  deriving DecidableEq

def ScanCursor.fields : List (Encoding.Field ScanCursor) :=
  [.value "location_id" jsonUUID fun locationID c => { c with locationID },
    .value "state" (fun json => json.text.bind Scan.State.ofText) fun state c => { c with state },
    .value "start_time" Json.int64 fun startTime c => { c with startTime },
    .value "id" jsonUUID fun id c => { c with id }]

def ScanCursor.json (c : ScanCursor) : Json :=
  .object [("location_id", uuidJson c.locationID), ("state", .string (Scan.State.text c.state)),
    ("start_time", .number c.startTime), ("id", uuidJson c.id)]

end Byom.Sqlite
