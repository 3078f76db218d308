import Byom.Sqlite.Listings

/-!
# Tokens of another listing

A token is rejected if its document has a member that the cursor has no field for. The
cursor of `Locations` has only an ID, which all cursors have.
-/

namespace Byom.Sqlite

open Storage Library Page Encoding

/-- A listing with the parameters of a call. -/
inductive Listing where
  | artists
  | albums (query : SortedQuery)
  | tracks (albumID : UUID)
  | scans (locationID : UUID) (state : Option Scan.State)
  | locations

inductive ListingKind where
  | artists
  | albums
  | tracks
  | scans
  | locations
  deriving DecidableEq, Repr

namespace Listing

def kind : Listing → ListingKind
  | artists => .artists
  | albums _ => .albums
  | tracks _ => .tracks
  | scans _ _ => .scans
  | locations => .locations

/-- The token that a call returns. -/
def call (l : Listing) (token : Token) (limit : Int) (db : Database) : Except Page.Error Token :=
  match l with
  | artists => (db.artists token limit).map Prod.snd
  | albums query => (db.albums query token limit).map Prod.snd
  | tracks albumID => (db.tracks albumID token limit).map Prod.snd
  | scans locationID state => (db.scans locationID state token limit).map Prod.snd
  | locations => (db.locations token limit).map Prod.snd

/-- All parameters are zero. -/
def Unfiltered : Listing → Prop
  | artists => True
  | albums query => query = {}
  | tracks albumID => albumID = .nil
  | scans locationID state => locationID = .nil ∧ state = none
  | locations => True

instance : DecidablePred Unfiltered
  | artists => .isTrue trivial
  | albums query => inferInstanceAs (Decidable (query = {}))
  | tracks albumID => inferInstanceAs (Decidable (albumID = .nil))
  | scans locationID state => inferInstanceAs (Decidable (locationID = .nil ∧ state = none))
  | locations => .isTrue trivial

/-! ### What a token of a listing says -/

/-- The member that only the cursor of the listing has, or else the ID. -/
def ownMember : ListingKind → String
  | .artists => "sort_name"
  | .albums => "query"
  | .tracks => "album_id"
  | .scans => "location_id"
  | .locations => "id"

variable {l : Listing} {token start : Token} {limit : Int} {db : Database}

theorem map_ok {ε α β : Type} {x : Except ε α} {f : α → β} {b : β} (h : x.map f = .ok b) :
    ∃ a, x = .ok a ∧ f a = b := by
  cases x with
  | error e => cases h
  | ok a => exact ⟨a, rfl, Except.ok.inj h⟩

/-- The document of a token has the member of its listing; that of `Locations` has no
other. -/
theorem issued_document (issued : l.call start limit db = .ok token) (some_ : token ≠ .empty) :
    (∃ members json, token = .document (.object members) ∧ (ownMember l.kind, json) ∈ members) ∧
      (l.kind = .locations → ∃ id, token = Page.encode LocationCursor.json ⟨id⟩) := by
  cases l with
  | artists =>
    obtain ⟨page, read, same⟩ := map_ok issued
    obtain ⟨cursor, _, ends⟩ := Database.bind_ok read
    cases ends
    obtain ⟨a, rfl⟩ := read_token same some_
    exact ⟨⟨_, _, rfl, List.mem_cons_self⟩, nofun⟩
  | albums query =>
    obtain ⟨page, read, same⟩ := map_ok issued
    obtain ⟨cursor, _, read⟩ := Database.bind_ok read
    obtain ⟨exprs, _, ends⟩ := Database.bind_ok read
    cases ends
    obtain ⟨al, rfl⟩ := read_token same some_
    exact ⟨⟨_, _, rfl, List.mem_cons_self⟩, nofun⟩
  | tracks albumID =>
    obtain ⟨page, read, same⟩ := map_ok issued
    obtain ⟨cursor, _, ends⟩ := Database.bind_ok read
    cases ends
    obtain ⟨t, rfl⟩ := read_token same some_
    exact ⟨⟨_, _, rfl, List.mem_cons_self⟩, nofun⟩
  | scans locationID state =>
    obtain ⟨page, read, same⟩ := map_ok issued
    obtain ⟨cursor, _, ends⟩ := Database.bind_ok read
    cases ends
    obtain ⟨sc, rfl⟩ := read_token same some_
    exact ⟨⟨_, _, rfl, List.mem_cons_self⟩, nofun⟩
  | locations =>
    obtain ⟨page, read, same⟩ := map_ok issued
    obtain ⟨cursor, _, ends⟩ := Database.bind_ok read
    cases ends
    obtain ⟨loc, rfl⟩ := read_token same some_
    exact ⟨⟨_, _, rfl, List.mem_cons_self⟩, fun _ => ⟨loc.id, rfl⟩⟩

/-- No other cursor has a field for the member of a listing, but for the ID. -/
theorem call_foreign {second : Listing} {members : List (String × Json)} {json : Json}
    {kind : ListingKind} (listed : (ownMember kind, json) ∈ members) (other : kind ≠ second.kind)
    (named : kind ≠ .locations) :
    second.call (.document (.object members)) limit db = .error .invalidToken := by
  cases second with
  | artists =>
    have unknown : Field.find ArtistCursor.fields (ownMember kind) = none := by
      cases kind <;> first | contradiction | rfl
    simp [call, Database.artists, resume_unknown listed unknown, bind, Except.bind, Except.map]
  | albums query =>
    have unknown : Field.find AlbumCursor.fields (ownMember kind) = none := by
      cases kind <;> first | contradiction | rfl
    simp [call, Database.albums, resume_unknown listed unknown, bind, Except.bind, Except.map]
  | tracks albumID =>
    have unknown : Field.find TrackCursor.fields (ownMember kind) = none := by
      cases kind <;> first | contradiction | rfl
    simp [call, Database.tracks, resume_unknown listed unknown, bind, Except.bind, Except.map]
  | scans locationID state =>
    have unknown : Field.find ScanCursor.fields (ownMember kind) = none := by
      cases kind <;> first | contradiction | rfl
    simp [call, Database.scans, resume_unknown listed unknown, bind, Except.bind, Except.map]
  | locations =>
    have unknown : Field.find LocationCursor.fields (ownMember kind) = none := by
      cases kind <;> first | contradiction | rfl
    simp [call, Database.locations, resume_unknown listed unknown, bind, Except.bind, Except.map]

/-- Into the cursor of another listing an ID decodes with all other fields zero, which is
what an unfiltered call asks for. -/
theorem call_location_iff {second : Listing} (other : second.kind ≠ .locations) (id : UUID) :
    second.call (Page.encode LocationCursor.json ⟨id⟩) limit db = .error .invalidToken ↔
      ¬second.Unfiltered := by
  have document : Page.encode LocationCursor.json ⟨id⟩ =
      .document (.object [("id", uuidJson id)]) := rfl
  rw [document]
  cases second with
  | artists =>
    have decoded : Field.decode ArtistCursor.fields (.object [("id", uuidJson id)]) {} =
        some { id } := by
      rw [Field.decode_object, Field.decodeMembers_value rfl (jsonUUID_uuidJson id) nofun]
      rfl
    simp [call, Database.artists, resume_document decoded, bind, Except.bind, Except.map, Unfiltered]
  | albums query =>
    have decoded : Field.decode AlbumCursor.fields (.object [("id", uuidJson id)]) {} =
        some { id } := by
      rw [Field.decode_object, Field.decodeMembers_value rfl (jsonUUID_uuidJson id) nofun]
      rfl
    by_cases zero : query = {}
    · subst zero
      simp [call, Database.albums, resume_document decoded, albumSort, bind, Except.bind, Except.map,
        Unfiltered]
    · simp [call, Database.albums, resume_document decoded, bind, Except.bind, Except.map,
        Unfiltered, zero, Ne.symm zero]
  | tracks albumID =>
    have decoded : Field.decode TrackCursor.fields (.object [("id", uuidJson id)]) {} =
        some { id } := by
      rw [Field.decode_object, Field.decodeMembers_value rfl (jsonUUID_uuidJson id) nofun]
      rfl
    by_cases zero : albumID = .nil
    · subst zero
      simp [call, Database.tracks, resume_document decoded, bind, Except.bind, Except.map, Unfiltered]
    · simp [call, Database.tracks, resume_document decoded, bind, Except.bind, Except.map,
        Unfiltered, zero, Ne.symm zero]
  | scans locationID state =>
    have decoded : Field.decode ScanCursor.fields (.object [("id", uuidJson id)]) {} =
        some { id } := by
      rw [Field.decode_object, Field.decodeMembers_value rfl (jsonUUID_uuidJson id) nofun]
      rfl
    by_cases zero : locationID = .nil ∧ state = none
    · obtain ⟨rfl, rfl⟩ := zero
      simp [call, Database.scans, resume_document decoded, bind, Except.bind, Except.map, Unfiltered]
    · have unlike : ¬(.nil = locationID ∧ none = state) := fun same =>
        zero ⟨same.1.symm, same.2.symm⟩
      simp [call, Database.scans, resume_document decoded, bind, Except.bind, Except.map,
        Unfiltered, zero, unlike]
  | locations => exact absurd rfl other

/-- A token of one listing is rejected by another, unless it is one of `Locations` and the
call has no parameters set. -/
theorem foreign_token_rejected_iff {first second : Listing} {limit' : Int} {db' : Database}
    (issued : first.call start limit db = .ok token) (some_ : token ≠ .empty)
    (other : first.kind ≠ second.kind) :
    second.call token limit' db' = .error .invalidToken ↔
      ¬(first.kind = .locations ∧ second.Unfiltered) := by
  obtain ⟨⟨members, json, document, listed⟩, ofLocation⟩ := issued_document issued some_
  by_cases location : first.kind = .locations
  · obtain ⟨id, rfl⟩ := ofLocation location
    rw [call_location_iff (location ▸ Ne.symm other) id]
    simp [location]
  · rw [document]
    exact iff_of_true (call_foreign listed other location) fun both => location both.1

/-- Two locations, each scanned once. -/
def twoScans : Database :=
  Database.afterWrites Database.firstScans Database.firstScans_enabled

def scanToken : Token := Page.encode ScanCursor.json ⟨.nil, none, 10, 4⟩

theorem scanToken_rejected : artists.call scanToken 0 twoScans = .error .invalidToken := by
  have issued : (scans .nil none).call .empty 1 twoScans = .ok scanToken := by rfl
  have other : (scans .nil none).kind ≠ artists.kind := by decide
  exact (foreign_token_rejected_iff issued nofun other).mpr (by decide)

/-- The second page of `Locations`, asked for as one of `Artists`, is empty. -/
theorem locationToken_accepted :
    ¬ ∀ (first second : Listing) (start token : Token) (limit limit' : Int) (db db' : Database),
      db.Reachable → db'.Reachable → first.call start limit db = .ok token → token ≠ .empty →
      first.kind ≠ second.kind → second.call token limit' db' = .error .invalidToken := by
  intro rejected
  have reachable : twoScans.Reachable := ⟨Database.firstScans, Database.afterWrites_run _ _⟩
  have issued : locations.call .empty 1 twoScans = .ok (Page.encode LocationCursor.json ⟨1⟩) := by
    rfl
  have answer := rejected locations artists .empty _ 1 0 twoScans twoScans reachable reachable
    issued nofun nofun
  cases answer

end Listing

end Byom.Sqlite
