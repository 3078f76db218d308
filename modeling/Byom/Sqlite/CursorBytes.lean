import Byom.Page.TokenText
import Byom.Sqlite.Cursors

/-!
# Cursors of text that need not be valid

The columns of artists and albums hold the bytes that tags and directory names have, and a
cursor is built from the columns of a row. Here the strings of a cursor are bytes.
-/

namespace Byom.Sqlite.Raw

open Storage Encoding Page

/-- The string of a member, as a struct gets it. -/
def jsonBytes (json : Json) : Option (List UInt8) := json.text.map fun s => Utf8.bytes s.toList

/-- A string after it has been through a document. -/
def tidy (s : List UInt8) : List UInt8 := Utf8.bytes (Utf8.clean s)

def uuidDocument (id : UUID) : Document := .string (Utf8.bytes id.string.toList)

/-- `omitempty`. -/
def omitEmpty (name : String) (empty : Bool) (d : Document) : List (String × Document) :=
  if empty then [] else [(name, d)]

/-! ### Artists -/

/-- `artistCursor`. -/
structure ArtistCursor where
  sortName : List UInt8 := []
  id : UUID := .nil
  deriving DecidableEq

def ArtistCursor.fields : List (Encoding.Field ArtistCursor) :=
  [.value "sort_name" jsonBytes fun sortName c => { c with sortName },
    .value "id" jsonUUID fun id c => { c with id }]

def ArtistCursor.document (c : ArtistCursor) : Document :=
  .object [("sort_name", .string c.sortName), ("id", uuidDocument c.id)]

/-- The string of the cursor is valid UTF-8. -/
def ArtistCursor.Valid (c : ArtistCursor) : Prop := Utf8.Valid c.sortName

/-! ### Albums -/

/-- `AlbumQuery`; its types, its filter and its order are strings in the source. -/
structure AlbumQuery where
  artistID : UUID := .nil
  includeAllVersions : Bool := false
  types : List (List UInt8) := []
  bootlegs : List UInt8 := []
  order : List UInt8 := []
  descending : Bool := false
  deriving DecidableEq

def AlbumQuery.fields : List (Encoding.Field AlbumQuery) :=
  [.value "artist_id" jsonUUID fun artistID q => { q with artistID },
    .value "all_versions" Json.flag fun includeAllVersions q => { q with includeAllVersions },
    .list "types" [] jsonBytes fun types q => { q with types },
    .value "bootlegs" jsonBytes fun bootlegs q => { q with bootlegs },
    .value "order" jsonBytes fun order q => { q with order },
    .value "descending" Json.flag fun descending q => { q with descending }]

def AlbumQuery.document (q : AlbumQuery) : Document :=
  .object ([("artist_id", uuidDocument q.artistID), ("all_versions", .bool q.includeAllVersions)] ++
    (omitEmpty "types" q.types.isEmpty (.array (q.types.map .string)) ++
      (omitEmpty "bootlegs" q.bootlegs.isEmpty (.string q.bootlegs) ++
        (omitEmpty "order" q.order.isEmpty (.string q.order) ++
          (omitEmpty "descending" (!q.descending) (.bool q.descending) ++ [])))))

def AlbumQuery.Valid (q : AlbumQuery) : Prop :=
  (∀ type ∈ q.types, Utf8.Valid type) ∧ Utf8.Valid q.bootlegs ∧ Utf8.Valid q.order

/-- `albumCursor`. -/
structure AlbumCursor where
  query : AlbumQuery := {}
  title : List UInt8 := []
  artistSort : List UInt8 := []
  releaseDate : List UInt8 := []
  originalDate : List UInt8 := []
  id : UUID := .nil
  deriving DecidableEq

def AlbumCursor.fields : List (Encoding.Field AlbumCursor) :=
  [.struct "query" AlbumQuery.fields AlbumCursor.query fun query c => { c with query },
    .value "title" jsonBytes fun title c => { c with title },
    .value "artist_sort" jsonBytes fun artistSort c => { c with artistSort },
    .value "release_date" jsonBytes fun releaseDate c => { c with releaseDate },
    .value "original_date" jsonBytes fun originalDate c => { c with originalDate },
    .value "id" jsonUUID fun id c => { c with id }]

def AlbumCursor.document (c : AlbumCursor) : Document :=
  .object ([("query", c.query.document), ("title", .string c.title)] ++
    (omitEmpty "artist_sort" c.artistSort.isEmpty (.string c.artistSort) ++
      (omitEmpty "release_date" c.releaseDate.isEmpty (.string c.releaseDate) ++
        (omitEmpty "original_date" c.originalDate.isEmpty (.string c.originalDate) ++
          [("id", uuidDocument c.id)]))))

/-- Every string of the cursor is valid UTF-8. -/
def AlbumCursor.Valid (c : AlbumCursor) : Prop :=
  c.query.Valid ∧ Utf8.Valid c.title ∧ Utf8.Valid c.artistSort ∧ Utf8.Valid c.releaseDate ∧
    Utf8.Valid c.originalDate

/-! ### The row that a cursor resumes after -/

/-- The columns of an album that order a listing. -/
structure AlbumKey where
  id : UUID
  title : List UInt8
  artistSort : List UInt8
  releaseDate : List UInt8
  originalReleaseDate : List UInt8

/-- `unknownDate`, which is 9999. -/
def unknownDate : List UInt8 := [57, 57, 57, 57]

/-- `COALESCE(NULLIF(date, ''), '9999')`. -/
def dateExpr (date : List UInt8) : List UInt8 :=
  (if date = [] then none else some date).getD unknownDate

def sortableDate (date : List UInt8) : List UInt8 := if date = [] then unknownDate else date

def newAlbumCursor (query : AlbumQuery) (al : AlbumKey) : AlbumCursor where
  query := query
  title := al.title
  artistSort := al.artistSort
  releaseDate := sortableDate al.releaseDate
  originalDate := sortableDate al.originalReleaseDate
  id := al.id

/-- What an expression of `ORDER BY` is compared with. -/
inductive SortValue where
  | text (s : List UInt8)
  | id (id : UUID)
  deriving DecidableEq

/-- The values of the cursor that `albumSort` returns; none is its error. -/
def albumSort (order : Library.AlbumOrder) (cur : AlbumCursor) : Option (List SortValue) :=
  match order with
  | .title => some [.text cur.title, .id cur.id]
  | .artist => some [.text cur.artistSort, .text cur.originalDate, .text cur.title, .id cur.id]
  | .releaseDate => some [.text cur.releaseDate, .text cur.title, .id cur.id]
  | .originalDate => some [.text cur.originalDate, .text cur.title, .id cur.id]
  | .recentlyAdded => some [.id cur.id]
  | .unrecognized _ => none

/-- The expressions that `albumSort` returns, on a row. -/
def sortExprs (order : Library.AlbumOrder) (al : AlbumKey) : Option (List SortValue) :=
  match order with
  | .title => some [.text al.title, .id al.id]
  | .artist => some [.text al.artistSort, .text (dateExpr al.originalReleaseDate), .text al.title,
      .id al.id]
  | .releaseDate => some [.text (dateExpr al.releaseDate), .text al.title, .id al.id]
  | .originalDate => some [.text (dateExpr al.originalReleaseDate), .text al.title, .id al.id]
  | .recentlyAdded => some [.id al.id]
  | .unrecognized _ => none

/-! ### What a cursor is after it has been through its token -/

def ArtistCursor.tidy (c : ArtistCursor) : ArtistCursor := { c with sortName := Raw.tidy c.sortName }

def AlbumQuery.tidy (q : AlbumQuery) : AlbumQuery :=
  { q with types := q.types.map Raw.tidy, bootlegs := Raw.tidy q.bootlegs, order := Raw.tidy q.order }

def AlbumCursor.tidy (c : AlbumCursor) : AlbumCursor :=
  { c with
    query := c.query.tidy
    title := Raw.tidy c.title
    artistSort := Raw.tidy c.artistSort
    releaseDate := Raw.tidy c.releaseDate
    originalDate := Raw.tidy c.originalDate }

theorem tidy_eq_iff {s : List UInt8} : tidy s = s ↔ Utf8.Valid s := Utf8.bytes_clean_iff

theorem ArtistCursor.tidy_eq_iff {c : ArtistCursor} : c.tidy = c ↔ c.Valid := by
  cases c with
  | mk sortName id => simp [ArtistCursor.tidy, ArtistCursor.Valid, Raw.tidy_eq_iff]

theorem AlbumQuery.tidy_eq_iff {q : AlbumQuery} : q.tidy = q ↔ q.Valid := by
  cases q with
  | mk artistID includeAllVersions types bootlegs order descending =>
    have each : types.map Raw.tidy = types ↔ ∀ type ∈ types, Utf8.Valid type := by
      have pointwise := @List.map_inj_left _ _ types Raw.tidy id
      simpa [Raw.tidy_eq_iff] using pointwise
    simp [AlbumQuery.tidy, AlbumQuery.Valid, Raw.tidy_eq_iff, each]

theorem AlbumCursor.tidy_eq_iff {c : AlbumCursor} : c.tidy = c ↔ c.Valid := by
  cases c with
  | mk query title artistSort releaseDate originalDate id =>
    simp [AlbumCursor.tidy, AlbumCursor.Valid, Raw.tidy_eq_iff, AlbumQuery.tidy_eq_iff]

/-! ### Reading a cursor back -/

variable {α β : Type} {fields : List (Encoding.Field α)} {a : α} {b : β}

theorem cleanMembers_append (ms ns : List (String × Document)) :
    cleanMembers (ms ++ ns) = cleanMembers ms ++ cleanMembers ns := by
  induction ms with
  | nil => rfl
  | cons m ms ih => exact congrArg _ ih

theorem jsonBytes_clean (s : List UInt8) :
    jsonBytes (Document.string s).clean = some (tidy s) := by
  simp [Document.clean, jsonBytes, tidy]

theorem jsonUUID_clean (id : UUID) : jsonUUID (uuidDocument id).clean = some id := by
  simp [uuidDocument, Document.clean, jsonUUID, UUID.parse_string]

theorem flag_clean (b : Bool) : (Document.bool b).clean.flag = some b := by
  simp [Document.clean]

theorem types_clean (types : List (List UInt8)) :
    Json.list [] jsonBytes (Document.array (types.map .string)).clean = some (types.map tidy) := by
  simp only [Document.clean, Json.list]
  induction types with
  | nil => rfl
  | cons type types ih =>
    have first : Json.item [] jsonBytes (Document.string type).clean = some (tidy type) := by
      rw [Json.item_eq (by simp [Document.clean]), jsonBytes_clean]
    simp [cleanItems, List.mapM_cons, first, ih]

/-- A reader that does not take null has read something else. -/
theorem set_read {field : String} {read : Json → Option β} {write : β → α → α} {json : Json}
    (reads : read json = some b) (null : read .null = none) :
    (Encoding.Field.value field read write).set json a = some (write b a) := by
  apply Field.set_value reads
  rintro rfl
  rw [null] at reads
  cases reads

/-- A member that is left out has the zero value. -/
theorem decodeMembers_omitEmpty {name : String} {field : Encoding.Field α} {a' : α} {empty : Bool}
    {d : Document} {rest : List (String × Json)} (found : Field.find fields name = some field)
    (sets : field.set d.clean a = some a') (keeps : empty = true → a' = a) :
    Field.decodeMembers fields (cleanMembers (omitEmpty name empty d) ++ rest) a =
      Field.decodeMembers fields rest a' := by
  unfold omitEmpty
  split
  · rename_i omitted
    rw [keeps omitted]
    rfl
  · exact Field.decodeMembers_cons found sets

theorem ArtistCursor.decode_document (c : ArtistCursor) :
    Field.decode ArtistCursor.fields c.document.clean {} = some c.tidy := by
  unfold ArtistCursor.document
  rw [Document.clean, Field.decode_object]
  simp only [cleanMembers]
  rw [Field.decodeMembers_cons rfl (set_read (jsonBytes_clean _) rfl),
    Field.decodeMembers_cons rfl (set_read (jsonUUID_clean _) rfl)]
  rfl

theorem AlbumQuery.decode_document (q : AlbumQuery) :
    Field.decode AlbumQuery.fields q.document.clean {} = some q.tidy := by
  unfold AlbumQuery.document
  rw [Document.clean, Field.decode_object]
  simp only [cleanMembers_append, cleanMembers, List.cons_append, List.nil_append]
  rw [Field.decodeMembers_cons rfl (set_read (jsonUUID_clean _) rfl),
    Field.decodeMembers_cons rfl (set_read (flag_clean _) rfl),
    decodeMembers_omitEmpty rfl (Field.set_list (types_clean _)) ?_,
    decodeMembers_omitEmpty rfl (set_read (jsonBytes_clean _) rfl) ?_,
    decodeMembers_omitEmpty rfl (set_read (jsonBytes_clean _) rfl) ?_,
    decodeMembers_omitEmpty rfl (set_read (flag_clean _) rfl) ?_]
  · rfl
  · intro standing
    have ascending : q.descending = false := by simpa using standing
    rw [ascending]
  · intro empty
    rw [List.isEmpty_iff.mp empty]
    rfl
  · intro empty
    rw [List.isEmpty_iff.mp empty]
    rfl
  · intro empty
    rw [List.isEmpty_iff.mp empty]
    rfl

theorem AlbumCursor.decode_document (c : AlbumCursor) :
    Field.decode AlbumCursor.fields c.document.clean {} = some c.tidy := by
  have query : Field.decode AlbumQuery.fields c.query.document.clean (AlbumCursor.query {}) =
      some c.query.tidy := c.query.decode_document
  unfold AlbumCursor.document
  rw [Document.clean, Field.decode_object]
  simp only [cleanMembers_append, cleanMembers, List.cons_append, List.nil_append]
  rw [Field.decodeMembers_struct rfl query,
    Field.decodeMembers_cons rfl (set_read (jsonBytes_clean _) rfl),
    decodeMembers_omitEmpty rfl (set_read (jsonBytes_clean _) rfl) ?_,
    decodeMembers_omitEmpty rfl (set_read (jsonBytes_clean _) rfl) ?_,
    decodeMembers_omitEmpty rfl (set_read (jsonBytes_clean _) rfl) ?_,
    Field.decodeMembers_cons rfl (set_read (jsonUUID_clean _) rfl)]
  · rfl
  · intro empty
    rw [List.isEmpty_iff.mp empty]
    rfl
  · intro empty
    rw [List.isEmpty_iff.mp empty]
    rfl
  · intro empty
    rw [List.isEmpty_iff.mp empty]
    rfl

/-- A token is a cursor with the replacement character for each byte that is not valid. -/
theorem ArtistCursor.decodeText_encodeText (c : ArtistCursor) :
    decodeText ArtistCursor.fields {} (encodeText c.document) = .ok c.tidy := by
  rw [Page.decodeText_encodeText, decode, c.decode_document]

theorem AlbumCursor.decodeText_encodeText (c : AlbumCursor) :
    decodeText AlbumCursor.fields {} (encodeText c.document) = .ok c.tidy := by
  rw [Page.decodeText_encodeText, decode, c.decode_document]

/-- Cursors survive their tokens exactly if all their strings are valid UTF-8. -/
theorem cursors_survive_iff (artist : ArtistCursor) (album : AlbumCursor) :
    (decodeText ArtistCursor.fields {} (encodeText artist.document) = .ok artist ↔
      artist.Valid) ∧
    (decodeText AlbumCursor.fields {} (encodeText album.document) = .ok album ↔
      album.Valid) := by
  constructor
  · rw [artist.decodeText_encodeText, Except.ok.injEq]
    exact ArtistCursor.tidy_eq_iff
  · rw [album.decodeText_encodeText, Except.ok.injEq]
    exact AlbumCursor.tidy_eq_iff

/-- An artist whose sort name is a single byte that is not valid. -/
def latinArtist : ArtistCursor := ⟨[0xFF], 1⟩

/-- Its token resumes before it. -/
theorem latinArtist_lost : ∃ c, decodeText ArtistCursor.fields {} (encodeText latinArtist.document) =
    .ok c ∧ c = ⟨[0xEF, 0xBF, 0xBD], 1⟩ ∧ c.sortName < latinArtist.sortName ∧ c ≠ latinArtist :=
  ⟨_, latinArtist.decodeText_encodeText, by decide, by decide, by decide⟩

/-- The sort values of a new cursor are those of its row. -/
theorem albumSort_newAlbumCursor (order : Library.AlbumOrder) (query : AlbumQuery)
    (al : AlbumKey) : albumSort order (newAlbumCursor query al) = sortExprs order al := by
  have dates : ∀ date, sortableDate date = dateExpr date := by
    intro date
    unfold sortableDate dateExpr
    split <;> rfl
  cases order <;> simp [albumSort, sortExprs, newAlbumCursor, dates]

/-- A listing resumes after the row it has ended with, if the strings of the row are valid. -/
theorem albums_resume (order : Library.AlbumOrder) (query : AlbumQuery) (al : AlbumKey)
    (valid : (newAlbumCursor query al).Valid) :
    (decodeText AlbumCursor.fields {} (encodeText (newAlbumCursor query al).document)).map
      (albumSort order) = .ok (sortExprs order al) := by
  rw [AlbumCursor.decodeText_encodeText, AlbumCursor.tidy_eq_iff.mpr valid, Except.map,
    albumSort_newAlbumCursor]

end Byom.Sqlite.Raw
