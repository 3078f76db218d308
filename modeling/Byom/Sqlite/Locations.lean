import Byom.Sqlite.LocationStore
import Byom.Storage.Location

/-!
# Reading and changing one location
-/

namespace Byom.Sqlite

open Storage Relational

def scanLocation (l : LocationRow) : Location := ⟨l.id, l.uri, l.available⟩

namespace ScanTables

/-- `LocationStore.Location`. -/
def location (id : UUID) (t : ScanTables) : Option Location :=
  (lookup LocationRow.id id t.locations).map scanLocation

/-- `LocationStore.Update`. -/
def updateLocation (id : UUID) (uri : String) (t : ScanTables) : Except LocationError ScanTables :=
  if t.scanRunning id then .error .scanRunning
  else if t.locations.all fun l => l.id ≠ id then .error .notExists
  else if t.locations.any fun l => l.id ≠ id ∧ l.uri = uri then .error .exists
  else .ok (t.setURI id uri)

variable {t t' : ScanTables} {id loc : UUID} {uri : String}

/-- The library has no part in it. -/
theorem updateLocation_eq (id : UUID) (uri : String) (db : Database) :
    (db.updateLocation id uri).map Database.storage = db.storage.updateLocation id uri := by
  unfold Database.updateLocation updateLocation
  split
  · rfl
  · split
    · rfl
    · split <;> rfl

theorem location_of_eq (locations : t'.locations = t.locations) (loc : UUID) :
    t'.location loc = t.location loc := by
  unfold location
  rw [locations]

/-- A location that is written without its URI. -/
theorem location_updateWhere {p : LocationRow → Bool} (set : LocationRow → LocationRow)
    (same : ∀ l, (set l).id = l.id ∧ (set l).uri = l.uri ∧ (set l).available = l.available)
    (locations : t'.locations = updateWhere p set t.locations)
    (loc : UUID) : t'.location loc = t.location loc := by
  unfold location
  rw [locations, lookup_updateWhere fun l => (same l).1, Option.map_map]
  congr 1
  funext l
  obtain ⟨id, uri, available⟩ := same l
  by_cases hit : p l = true
  · simp [scanLocation, hit, id, uri, available]
  · simp [hit]

theorem updateLocation_cases (h : t.updateLocation id uri = .ok t') :
    t.scanRunning id = false ∧ t' = t.setURI id uri := by
  unfold updateLocation at h
  split at h
  · cases h
  · rename_i idle
    split at h
    · cases h
    · split at h
      · cases h
      · cases h
        exact ⟨by simpa using idle, rfl⟩

theorem setURI_lookup : lookup LocationRow.id loc (t.setURI id uri).locations =
    (lookup LocationRow.id loc t.locations).map fun l => if l.id = id then { l with uri } else l := by
  have keys : ∀ l : LocationRow, ({ l with uri } : LocationRow).id = l.id := fun _ => rfl
  rw [setURI, lookup_updateWhere keys]
  simp

theorem setURI_location_ne (apart : loc ≠ id) : (t.setURI id uri).location loc = t.location loc := by
  unfold location
  rw [setURI_lookup, Option.map_map]
  cases found : lookup LocationRow.id loc t.locations with
  | none => rfl
  | some l =>
    have other : l.id ≠ id := (key_of_lookup found).trans_ne apart
    simp [other]

theorem setURI_location : (t.setURI id uri).location id =
    (t.location id).map fun l => { l with uri } := by
  unfold location
  rw [setURI_lookup, Option.map_map, Option.map_map]
  cases found : lookup LocationRow.id id t.locations with
  | none => rfl
  | some l =>
    have own : l.id = id := key_of_lookup found
    simp [scanLocation, own]

/-- A location that is inserted was not there. -/
theorem insertLocation_location (h : t.insertLocation id uri = .ok t') {l : Location}
    (found : t.location loc = some l) : t'.location loc = some l := by
  unfold insertLocation at h
  split at h
  · cases h
  · cases h
    unfold location at found ⊢
    obtain ⟨row, at_, rfl⟩ := Option.map_eq_some_iff.mp found
    rw [lookup_append_of_found at_, Option.map_some]

theorem beginScan_location {now gen : Int} {scanID : UUID}
    (h : t.beginScan now scanID loc = .ok (t', gen)) (id : UUID) :
    t'.location id = t.location id := by
  unfold beginScan at h
  split at h
  · cases h
  · split at h
    · cases h
    · cases h
      exact location_updateWhere (fun l => { l with scanGeneration := l.scanGeneration + 1 })
        (fun _ => ⟨rfl, rfl, rfl⟩) rfl id

end ScanTables

end Byom.Sqlite
