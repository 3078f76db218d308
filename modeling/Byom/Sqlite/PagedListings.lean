import Byom.Page.PagedQuery
import Byom.Scan.Listing

/-!
# The listings as paged queries

Each listing of the stores is a `PagedQuery`, so what follows its tokens gets every row that
stays in place once, in order. A start time and the numbers of a track are `int` in the source.
-/

namespace Byom.Sqlite

open Storage Library Page Encoding

namespace Database

/-- The numbers in cursors are `int64`. -/
def NumbersFit (db : Database) : Prop :=
  (∀ t ∈ db.library.tracks, (-2 ^ 63 ≤ t.details.discNumber ∧ t.details.discNumber < 2 ^ 63) ∧
    -2 ^ 63 ≤ t.details.trackNumber ∧ t.details.trackNumber < 2 ^ 63) ∧
  ∀ r ∈ db.storage.scans, -2 ^ 63 ≤ r.startTime ∧ r.startTime < 2 ^ 63

instance : DecidablePred NumbersFit := fun db =>
  inferInstanceAs (Decidable ((∀ t ∈ db.library.tracks, _) ∧ ∀ r ∈ db.storage.scans, _))

end Database

/-- A database whose numbers fit. -/
abbrev FittingDatabase := { db : Database // db.NumbersFit }

def locationQuery : PagedQuery Database Location Nat LocationCursor where
  rows db := db.storage.locations.map scanLocation
  before := (· < ·)
  decide := inferInstance
  key loc := loc.id.toNat
  cursorOf loc := ⟨loc.id⟩
  cursorKey cur := cur.id.toNat
  json := LocationCursor.json
  fields := LocationCursor.fields
  zero := {}
  accepts _ := true

def artistQuery : PagedQuery Database Artist (String ×ₗ Nat) ArtistCursor where
  rows db := db.library.artists
  before := (· < ·)
  decide := inferInstance
  key a := toLex (a.sortName, a.id.toNat)
  cursorOf a := ⟨a.sortName, a.id⟩
  cursorKey cur := toLex (cur.sortName, cur.id.toNat)
  json := ArtistCursor.json
  fields := ArtistCursor.fields
  zero := {}
  accepts _ := true

def trackQuery (albumID : UUID) :
    PagedQuery FittingDatabase Track (Int ×ₗ Int ×ₗ Nat) TrackCursor where
  rows db := (db.1.library.tracks.filter fun t => albumID = .nil || t.albumID = albumID).map
    db.1.scanTrack
  before := (· < ·)
  decide := inferInstance
  key t := toLex (t.details.discNumber, toLex (t.details.trackNumber, t.id.toNat))
  cursorOf t := ⟨albumID, t.details.discNumber, t.details.trackNumber, t.id⟩
  cursorKey cur := toLex (cur.discNumber, toLex (cur.trackNumber, cur.id.toNat))
  json := TrackCursor.json
  fields := TrackCursor.fields
  zero := {}
  accepts cur := cur.albumID = albumID

def scanQuery (locationID : UUID) (state : Option Scan.State) :
    PagedQuery FittingDatabase Scan.ScanRecord (Intᵒᵈ ×ₗ Nat) ScanCursor where
  rows db := (db.1.storage.scans.filter fun r =>
    (locationID = .nil || r.locationID = locationID) && state.all (r.state = ·)).map scanScan
  before := (· < ·)
  decide := inferInstance
  key sc := toLex (OrderDual.toDual sc.startTime, sc.id.toNat)
  cursorOf sc := ⟨locationID, state, sc.startTime, sc.id⟩
  cursorKey cur := toLex (OrderDual.toDual cur.startTime, cur.id.toNat)
  json := ScanCursor.json
  fields := ScanCursor.fields
  zero := {}
  accepts cur := cur.locationID = locationID ∧ cur.state = state

def albumQuery (query : SortedQuery) (exprs : List SortExpr) :
    PagedQuery Database Album SortKey AlbumCursor where
  rows db := db.albumRows query.toAlbumQuery
  before := comesBefore query.descending
  decide := inferInstance
  key := sortKey exprs
  cursorOf := newAlbumCursor query
  cursorKey := cursorKey exprs
  json := AlbumCursor.json
  fields := AlbumCursor.fields
  zero := {}
  accepts cur := cur.query = query

/-! ### They are what the stores call -/

theorem locations_eq_call (token : Token) (limit : Int) (db : Database) :
    db.locations token limit = locationQuery.call token limit db := rfl

theorem artists_eq_call (token : Token) (limit : Int) (db : Database) :
    db.artists token limit = artistQuery.call token limit db := rfl

theorem tracks_eq_call (albumID : UUID) (token : Token) (limit : Int) (db : FittingDatabase) :
    db.1.tracks albumID token limit = (trackQuery albumID).call token limit db := rfl

theorem scans_eq_call (locationID : UUID) (state : Option Scan.State) (token : Token)
    (limit : Int) (db : FittingDatabase) :
    db.1.scans locationID state token limit = (scanQuery locationID state).call token limit db :=
  rfl

theorem albums_eq_call {query : SortedQuery} {exprs : List SortExpr}
    (known : albumSort query.order = .ok exprs) (token : Token) (limit : Int) (db : Database) :
    db.albums query token limit = (albumQuery query exprs).call token limit db := by
  unfold Database.albums
  rw [known]
  rfl

/-! ### Their cursors -/

theorem LocationCursor.decode_json (c : LocationCursor) :
    Field.decode LocationCursor.fields c.json {} = some c := by
  unfold LocationCursor.json
  rw [Field.decode_object, Field.decodeMembers_value rfl (jsonUUID_uuidJson _) nofun]
  rfl

theorem ArtistCursor.decode_json (c : ArtistCursor) :
    Field.decode ArtistCursor.fields c.json {} = some c := by
  unfold ArtistCursor.json
  rw [Field.decode_object, Field.decodeMembers_value rfl (Json.text_string _) nofun,
    Field.decodeMembers_value rfl (jsonUUID_uuidJson _) nofun]
  rfl

theorem TrackCursor.decode_json {c : TrackCursor}
    (disc : -2 ^ 63 ≤ c.discNumber ∧ c.discNumber < 2 ^ 63)
    (track : -2 ^ 63 ≤ c.trackNumber ∧ c.trackNumber < 2 ^ 63) :
    Field.decode TrackCursor.fields c.json {} = some c := by
  have discRead : Json.int64 (.number c.discNumber) = some c.discNumber := if_pos disc
  have trackRead : Json.int64 (.number c.trackNumber) = some c.trackNumber := if_pos track
  unfold TrackCursor.json
  rw [Field.decode_object, Field.decodeMembers_value rfl (jsonUUID_uuidJson _) nofun,
    Field.decodeMembers_value rfl discRead nofun, Field.decodeMembers_value rfl trackRead nofun,
    Field.decodeMembers_value rfl (jsonUUID_uuidJson _) nofun]
  rfl

/-- Keys that end with the ID are distinct where the IDs are. -/
theorem keys_distinct {Row Key : Type} {key : Row → Key} {u : Row → UUID} {rows : List Row}
    (ids : (rows.map u).Nodup) (same : ∀ a b, key a = key b → u a = u b) :
    (rows.map key).Nodup := by
  rw [List.nodup_map_iff_inj_on (ids.of_map _)]
  intro a ha b hb keys
  exact List.inj_on_of_nodup_map ids ha hb (same a b keys)

theorem locationQuery_lawful : locationQuery.Lawful where
  order := inferInstanceAs (IsStrictTotalOrder Nat (· < ·))
  decodes _ loc _ := LocationCursor.decode_json ⟨loc.id⟩
  accepted _ := rfl
  resumes _ := rfl
  distinct db := by
    apply keys_distinct (u := Location.id)
    · show ((db.storage.locations.map scanLocation).map Location.id).Nodup
      rw [List.map_map]
      exact db.wellFormed.locationIDs
    · exact fun a b same => BitVec.eq_of_toNat_eq same

theorem artistQuery_lawful : artistQuery.Lawful where
  order := inferInstanceAs (IsStrictTotalOrder (String ×ₗ Nat) (· < ·))
  decodes _ a _ := ArtistCursor.decode_json ⟨a.sortName, a.id⟩
  accepted _ := rfl
  resumes _ := rfl
  distinct db := by
    apply keys_distinct db.unique.artistIDs
    exact fun a b same => BitVec.eq_of_toNat_eq (congrArg (fun k => (ofLex k).2) same)

theorem trackQuery_lawful (albumID : UUID) : (trackQuery albumID).Lawful where
  order := inferInstanceAs (IsStrictTotalOrder (Int ×ₗ Int ×ₗ Nat) (· < ·))
  decodes db t ht := by
    obtain ⟨row, selected, rfl⟩ := List.mem_map.mp ht
    obtain ⟨disc, track⟩ := db.2.1 row (List.mem_filter.mp selected).1
    exact TrackCursor.decode_json disc track
  accepted _ := decide_eq_true rfl
  resumes _ := rfl
  distinct db := by
    apply keys_distinct (u := Track.id)
    · show (List.map Track.id (List.map db.1.scanTrack _)).Nodup
      rw [List.map_map]
      exact db.1.unique.trackIDs.filter _
    · exact fun a b same =>
        BitVec.eq_of_toNat_eq (congrArg (fun k => (ofLex (ofLex k).2).2) same)

theorem scanQuery_lawful (locationID : UUID) (state : Option Scan.State) :
    (scanQuery locationID state).Lawful where
  order := inferInstanceAs (IsStrictTotalOrder (Intᵒᵈ ×ₗ Nat) (· < ·))
  decodes db sc hsc := by
    obtain ⟨row, selected, rfl⟩ := List.mem_map.mp hsc
    exact ScanCursor.decode_json (db.2.2 row (List.mem_filter.mp selected).1)
  accepted _ := decide_eq_true ⟨rfl, rfl⟩
  resumes _ := rfl
  distinct db := by
    apply keys_distinct (u := Scan.ScanRecord.id)
    · show (List.map Scan.ScanRecord.id (List.map scanScan _)).Nodup
      rw [List.map_map]
      exact db.1.wellFormed.scanIDs.filter _
    · exact fun a b same => BitVec.eq_of_toNat_eq (congrArg (fun k => (ofLex k).2) same)

theorem albumQuery_lawful {query : SortedQuery} {exprs : List SortExpr}
    (known : albumSort query.order = .ok exprs) : (albumQuery query exprs).Lawful where
  order := inferInstanceAs (IsStrictTotalOrder SortKey (comesBefore query.descending))
  decodes _ _ _ := AlbumCursor.decode_json (Database.recognized_of_albumSort known)
  accepted _ := decide_eq_true rfl
  resumes al := cursorKey_newAlbumCursor exprs query al
  distinct db := Database.albumRows_distinct query exprs db

/-- A listing is called as a paged query is, and what follows its tokens, with pages of any sizes
and from any states, has its rows in order and misses none that stays in place. -/
structure Follows {Source Row Key Cursor : Type} (P : Source → Prop)
    (listing : Token → Int → Source → Except Error (List Row × Token))
    (q : PagedQuery Source Row Key Cursor) : Prop where
  calls : ∀ token limit s, listing token limit s = q.call token limit s
  listed : ∀ rows token ended, q.Following P rows token ended → q.Listed P rows ended

end Byom.Sqlite
