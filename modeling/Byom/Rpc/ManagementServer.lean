import Byom.Relational.Registry
import Byom.Rpc.LibraryServer
import Byom.Sqlite.Locations
import Byom.Sqlite.Sightings

/-!
# The locations of the management service

The four handlers that make, show, change and delete one location. Clients see a registry:
each location has a path, and no path belongs to two. What scans and imports write to the
database in between does not show.
-/

namespace Byom.Rpc

open Storage Sqlite Relational

/-- `connect.Code`, those of the handlers. -/
inductive LocationCode where
  | invalidArgument
  | notFound
  | alreadyExists
  | failedPrecondition
  | internal
  deriving DecidableEq, Repr

inductive LocationCause where
  | request (cause : Cause)
  /-- `location.path: ` and the error of `Root`. -/
  | path (err : RootError)
  /-- `location.id: value is required`. -/
  | idRequired
  | store (err : LocationError)
  /-- The primary key, which is not told apart from a failing database. -/
  | primaryKey
  deriving DecidableEq, Repr

structure LocationFailure where
  code : LocationCode
  cause : LocationCause
  deriving DecidableEq, Repr

def Error.location (err : Error) : LocationFailure where
  code := match err.code with
    | .invalidArgument => .invalidArgument
    | .internal => .internal
  cause := .request err.cause

/-- `rpcError`, after what the handlers themselves tell apart. -/
def storeFailure : LocationError → LocationFailure
  | .scanRunning => ⟨.failedPrecondition, .store .scanRunning⟩
  | .notExists => ⟨.notFound, .store .notExists⟩
  | .exists => ⟨.alreadyExists, .store .exists⟩

structure LocationProto where
  id : String
  path : String
  deriving DecidableEq, Repr

def locationProto (loc : Location) : LocationProto := ⟨loc.id.string, loc.uri⟩

def readID (field s : String) : Except LocationFailure UUID :=
  match parseID field s with
  | .ok id => .ok id
  | .error err => .error err.location

def locationFromProto (parse : String → Except String URL) (pb : LocationProto) :
    Except LocationFailure Location :=
  match if pb.id = "" then .ok .nil else readID "location.id" pb.id with
  | .error err => .error err
  | .ok id =>
    let loc : Location := ⟨id, pb.path, false⟩
    match loc.root parse with
    | .error err => .error ⟨.invalidArgument, .path err⟩
    | .ok _ => .ok loc

/-- What `uuid.NewV7` makes. -/
abbrev FreshID := { id : UUID // id ≠ .nil }

inductive LocationRequest where
  /-- `primaryFirst` is for an ID and a path that both exist: which of them is reported. -/
  | create (pb : LocationProto) (newID : FreshID) (primaryFirst : Bool)
  | get (id : String)
  | update (pb : LocationProto)
  | delete (id : String)

inductive LocationReply where
  | location (pb : LocationProto)
  | deleted
  deriving DecidableEq, Repr

/-- The ID of a new location. -/
def createdID (loc : Location) (newID : FreshID) : UUID := if loc.id = .nil then newID.1 else loc.id

section Handlers

variable (parse : String → Except String URL) (db : Database)

/-- `ManagementServer.CreateLocation`. -/
def createLocation (pb : LocationProto) (newID : FreshID) (primaryFirst : Bool) :
    Except LocationFailure LocationReply × Database :=
  match locationFromProto parse pb with
  | .error err => (.error err, db)
  | .ok loc =>
    let loc := { loc with id := createdID loc newID, available := true }
    match db.step (.insertLocation loc.id loc.uri) with
    | some db => (.ok (.location (locationProto loc)), db)
    | none =>
      let known := db.storage.locations.any fun l => l.id = loc.id
      let taken := db.storage.locations.any fun l => l.uri = loc.uri
      if taken && !(known && primaryFirst) then (.error (storeFailure .exists), db)
      else (.error ⟨.internal, .primaryKey⟩, db)

/-- `ManagementServer.GetLocation`. -/
def getLocation (id : String) : Except LocationFailure LocationReply :=
  match readID "id" id with
  | .error err => .error err
  | .ok id =>
    match db.storage.location id with
    | none => .error (storeFailure .notExists)
    | some loc => .ok (.location (locationProto loc))

/-- `ManagementServer.UpdateLocation`. -/
def updateLocation (pb : LocationProto) : Except LocationFailure LocationReply × Database :=
  match locationFromProto parse pb with
  | .error err => (.error err, db)
  | .ok loc =>
    if loc.id = .nil then (.error ⟨.invalidArgument, .idRequired⟩, db)
    else
      match db.updateLocation loc.id loc.uri with
      | .error err => (.error (storeFailure err), db)
      | .ok db => (.ok (.location (locationProto loc)), db)

/-- `ManagementServer.DeleteLocation`. -/
def deleteLocation (id : String) : Except LocationFailure LocationReply × Database :=
  match readID "id" id with
  | .error err => (.error err, db)
  | .ok id =>
    match db.deleteLocation id with
    | .error err => (.error (storeFailure err), db)
    | .ok db => (.ok .deleted, db)

def handleLocation : LocationRequest → Except LocationFailure LocationReply × Database
  | .create pb newID primaryFirst => createLocation parse db pb newID primaryFirst
  | .get id => (getLocation db id, db)
  | .update pb => updateLocation parse db pb
  | .delete id => deleteLocation db id

end Handlers

/-! ### The registry that clients see -/

/-- The path of each location. -/
abbrev Directory := Registry UUID String

section Abstract

open Classical

variable (parse : String → Except String URL) (busy : UUID → Bool) (reg : Directory)

/-- A path is taken or not. What is said of an ID that has a path depends on the database. -/
noncomputable def Directory.create (pb : LocationProto) (newID : FreshID) (primaryFirst : Bool) :
    Except LocationFailure LocationReply × Directory :=
  match locationFromProto parse pb with
  | .error err => (.error err, reg)
  | .ok loc =>
    let id := createdID loc newID
    if free : ∀ other, reg.name other ≠ some loc.uri then
      if reg.name id = none then
        (.ok (.location ⟨id.string, loc.uri⟩), reg.bind id loc.uri fun other has =>
          absurd has (free other))
      else (.error ⟨.internal, .primaryKey⟩, reg)
    else if reg.name id ≠ none ∧ primaryFirst then (.error ⟨.internal, .primaryKey⟩, reg)
    else (.error (storeFailure .exists), reg)

noncomputable def Directory.get (id : String) : Except LocationFailure LocationReply :=
  match readID "id" id with
  | .error err => .error err
  | .ok id =>
    match reg.name id with
    | none => .error (storeFailure .notExists)
    | some path => .ok (.location ⟨id.string, path⟩)

/-- A location that is being scanned stays as it is. -/
noncomputable def Directory.update (pb : LocationProto) :
    Except LocationFailure LocationReply × Directory :=
  match locationFromProto parse pb with
  | .error err => (.error err, reg)
  | .ok loc =>
    if loc.id = .nil then (.error ⟨.invalidArgument, .idRequired⟩, reg)
    else if busy loc.id then (.error (storeFailure .scanRunning), reg)
    else if reg.name loc.id = none then (.error (storeFailure .notExists), reg)
    else if free : reg.FreeFor loc.id loc.uri then
      (.ok (.location ⟨loc.id.string, loc.uri⟩), reg.bind loc.id loc.uri free)
    else (.error (storeFailure .exists), reg)

noncomputable def Directory.delete (id : String) :
    Except LocationFailure LocationReply × Directory :=
  match readID "id" id with
  | .error err => (.error err, reg)
  | .ok id =>
    if busy id then (.error (storeFailure .scanRunning), reg)
    else if reg.name id = none then (.error (storeFailure .notExists), reg)
    else (.ok .deleted, reg.release id)

noncomputable def Directory.handle :
    LocationRequest → Except LocationFailure LocationReply × Directory
  | .create pb newID primaryFirst => Directory.create parse reg pb newID primaryFirst
  | .get id => (Directory.get reg id, reg)
  | .update pb => Directory.update parse busy reg pb
  | .delete id => Directory.delete busy reg id

end Abstract

/-! ### The database shows a directory -/

variable {parse : String → Except String URL} {db db' : Database} {reg : Directory}

def pathOf (db : Database) (id : UUID) : Option String := (db.storage.location id).map Location.uri

def Shows (db : Database) (reg : Directory) : Prop := ∀ id, reg.name id = pathOf db id

theorem pathOf_eq_some_iff {id : UUID} {path : String} : pathOf db id = some path ↔
    ∃ l ∈ db.storage.locations, l.id = id ∧ l.uri = path := by
  unfold pathOf ScanTables.location
  rw [Option.map_map, Option.map_eq_some_iff]
  constructor
  · rintro ⟨l, found, rfl⟩
    exact ⟨l, mem_of_lookup found, key_of_lookup found, rfl⟩
  · rintro ⟨l, hl, rfl, rfl⟩
    exact ⟨l, db.wellFormed.locationIDs.lookup_of_mem hl, rfl⟩

theorem pathOf_eq_none_iff {id : UUID} : pathOf db id = none ↔
    ∀ l ∈ db.storage.locations, l.id ≠ id := by
  unfold pathOf ScanTables.location
  rw [Option.map_eq_none_iff, Option.map_eq_none_iff, lookup_eq_none_iff]

theorem Shows.free_iff (shows_ : Shows db reg) {id : UUID} {path : String} :
    reg.FreeFor id path ↔ ∀ l ∈ db.storage.locations, l.uri = path → l.id = id := by
  unfold Registry.FreeFor
  simp only [shows_ _, pathOf_eq_some_iff]
  constructor
  · exact fun free l hl same => free l.id ⟨l, hl, rfl, same⟩
  · rintro free _ ⟨l, hl, rfl, same⟩
    exact free l hl same

theorem insert_cases {id : UUID} {uri : String} (h : db.step (.insertLocation id uri) = some db') :
    (∀ l ∈ db.storage.locations, l.id ≠ id ∧ l.uri ≠ uri) ∧
      db'.storage.locations = db.storage.locations ++ [⟨id, uri, 0, true⟩] := by
  obtain ⟨inserted, _⟩ := Database.onStorage_spec h
  unfold ScanTables.insertLocation at inserted
  split at inserted
  · cases inserted
  · rename_i new
    refine ⟨?_, by rw [← Except.ok.inj inserted]⟩
    intro l hl
    constructor
    · rintro rfl
      exact new (List.any_eq_true.mpr ⟨l, hl, by simp⟩)
    · rintro rfl
      exact new (List.any_eq_true.mpr ⟨l, hl, by simp⟩)

theorem onStorage_none {write : Except SqlError ScanTables}
    {grows : ∀ t, write = .ok t → db.storage.Extends t} (h : db.onStorage write grows = none) :
    ∃ e, write = .error e := by
  cases write with
  | error e => exact ⟨e, rfl⟩
  | ok t => cases h

theorem insert_refused {id : UUID} {uri : String} (h : db.step (.insertLocation id uri) = none) :
    ∃ l ∈ db.storage.locations, l.id = id ∨ l.uri = uri := by
  obtain ⟨e, refused⟩ := onStorage_none h
  unfold ScanTables.insertLocation at refused
  split at refused
  · rename_i known
    simpa using known
  · cases refused

theorem pathOf_insert {id other : UUID} {uri : String}
    (h : db.step (.insertLocation id uri) = some db') :
    pathOf db' other = if other = id then some uri else pathOf db other := by
  obtain ⟨new, locations⟩ := insert_cases h
  unfold pathOf ScanTables.location
  rw [locations]
  split
  · rename_i here
    subst here
    have absent : lookup LocationRow.id other db.storage.locations = none :=
      lookup_eq_none_iff.mpr fun l hl => (new l hl).1
    have appended := @lookup_append_self _ _ _ LocationRow.id _ ⟨other, uri, 0, true⟩ absent
    rw [appended]
    rfl
  · rename_i apart
    rw [lookup_append_ne (Ne.symm apart)]

theorem Shows.bind (shows_ : Shows db reg) {id : UUID} {uri : String} (free : reg.FreeFor id uri)
    (written : ∀ other, pathOf db' other = if other = id then some uri else pathOf db other) :
    Shows db' (reg.bind id uri free) := by
  intro other
  rw [Registry.name_bind, written, shows_]

theorem Shows.release (shows_ : Shows db reg) {id : UUID}
    (written : ∀ other, pathOf db' other = if other = id then none else pathOf db other) :
    Shows db' (reg.release id) := by
  intro other
  rw [Registry.name_release, written, shows_]

theorem pathOf_setURI {id other : UUID} {uri : String} (known : pathOf db id ≠ none)
    (storage : db'.storage = db.storage.setURI id uri) :
    pathOf db' other = if other = id then some uri else pathOf db other := by
  unfold pathOf at known ⊢
  rw [storage]
  split
  · rename_i here
    subst here
    rw [ScanTables.setURI_location, Option.map_map]
    obtain ⟨l, found⟩ := Option.ne_none_iff_exists'.mp (mt Option.map_eq_none_iff.mpr known)
    rw [found]
    rfl
  · rename_i apart
    rw [ScanTables.setURI_location_ne apart]

theorem pathOf_delete {id other : UUID} (storage : db'.storage = db.storage.deleteLocation id) :
    pathOf db' other = if other = id then none else pathOf db other := by
  unfold pathOf ScanTables.location
  have rows : db'.storage.locations = deleteWhere (fun l => l.id = id) db.storage.locations := by
    rw [storage]
    rfl
  rw [rows, db.wellFormed.locationIDs.lookup_deleteWhere]
  cases found : lookup LocationRow.id other db.storage.locations with
  | none => simp
  | some l =>
    obtain rfl : l.id = other := key_of_lookup found
    by_cases here : l.id = id
    · simp [here, Option.filter_some]
    · simp [here, Option.filter_some]

/-! ### The handlers -/

/-- The handlers agree with the directory, and the database shows it afterwards. -/
def Agrees (answer : Except LocationFailure LocationReply × Database)
    (listed : Except LocationFailure LocationReply × Directory) : Prop :=
  answer.1 = listed.1 ∧ Shows answer.2 listed.2

theorem createLocation_agrees (shows_ : Shows db reg) (pb : LocationProto) (newID : FreshID)
    (primaryFirst : Bool) : Agrees (createLocation parse db pb newID primaryFirst)
      (Directory.create parse reg pb newID primaryFirst) := by
  unfold createLocation Directory.create
  cases read : locationFromProto parse pb with
  | error err => exact ⟨rfl, shows_⟩
  | ok loc =>
    simp only
    have free_iff : (∀ other, reg.name other ≠ some loc.uri) ↔
        ∀ l ∈ db.storage.locations, l.uri ≠ loc.uri := by
      simp only [ne_eq, shows_ _, pathOf_eq_some_iff]
      constructor
      · exact fun free l hl same => free l.id ⟨l, hl, rfl, same⟩
      · rintro free _ ⟨l, hl, _, same⟩
        exact free l hl same
    have known_iff : reg.name (createdID loc newID) = none ↔
        ∀ l ∈ db.storage.locations, l.id ≠ createdID loc newID := by
      rw [shows_, pathOf_eq_none_iff]
    cases stepped : db.step (.insertLocation (createdID loc newID) loc.uri) with
    | some db' =>
      have new := (insert_cases stepped).1
      have free := free_iff.mpr fun l hl => (new l hl).2
      rw [dif_pos free, if_pos (known_iff.mpr fun l hl => (new l hl).1)]
      have none_ : reg.FreeFor (createdID loc newID) loc.uri := fun other has =>
        absurd has (free other)
      exact ⟨rfl, shows_.bind none_ fun _ => pathOf_insert stepped⟩
    | none =>
      obtain ⟨l, hl, conflict⟩ := insert_refused stepped
      simp only [Agrees]
      by_cases free : ∀ other, reg.name other ≠ some loc.uri
      · -- the path is free, so the ID is not
        have untaken : (db.storage.locations.any fun l => decide (l.uri = loc.uri)) = false := by
          simpa using free_iff.mp free
        have known : reg.name (createdID loc newID) ≠ none := fun absent =>
          conflict.elim (known_iff.mp absent l hl) (free_iff.mp free l hl)
        rw [dif_pos free, if_neg known, untaken]
        exact ⟨rfl, shows_⟩
      · have taken : (db.storage.locations.any fun l => decide (l.uri = loc.uri)) = true := by
          by_contra none_
          exact free (free_iff.mpr (by simpa using none_))
        have known : (db.storage.locations.any fun l => decide (l.id = createdID loc newID)) = true ↔
            reg.name (createdID loc newID) ≠ none := by
          rw [ne_eq, known_iff]
          simp
        rw [dif_neg free, taken, Bool.true_and]
        by_cases both : reg.name (createdID loc newID) ≠ none ∧ primaryFirst = true
        · rw [if_pos both, known.mpr both.1, both.2]
          exact ⟨rfl, shows_⟩
        · rw [if_neg both, if_pos]
          · exact ⟨rfl, shows_⟩
          · rw [← known] at both
            simp only [Bool.not_eq_true', Bool.and_eq_false_imp]
            intro has
            by_contra first
            exact both ⟨has, by simpa using first⟩

theorem getLocation_agrees (shows_ : Shows db reg) (id : String) :
    getLocation db id = Directory.get reg id := by
  unfold getLocation Directory.get
  cases read : readID "id" id with
  | error err => rfl
  | ok id =>
    have path := shows_ id
    unfold pathOf at path
    cases found : db.storage.location id with
    | none =>
      rw [found] at path
      simp [found, path]
    | some loc =>
      have at_ : (lookup LocationRow.id id db.storage.locations).map scanLocation = some loc := found
      obtain ⟨l, hl, rfl⟩ := Option.map_eq_some_iff.mp at_
      have own : l.id = id := key_of_lookup hl
      rw [found] at path
      simp [found, path, locationProto, scanLocation, own]

theorem absent_iff (shows_ : Shows db reg) {id : UUID} :
    (db.storage.locations.all fun l => l.id ≠ id) = true ↔ reg.name id = none := by
  rw [shows_, pathOf_eq_none_iff]
  simp

theorem updateLocation_agrees (shows_ : Shows db reg) (pb : LocationProto) :
    Agrees (updateLocation parse db pb)
      (Directory.update parse (fun id => db.storage.scanRunning id) reg pb) := by
  unfold updateLocation Directory.update
  cases read : locationFromProto parse pb with
  | error err => exact ⟨rfl, shows_⟩
  | ok loc =>
    simp only
    split
    · exact ⟨rfl, shows_⟩
    · have taken_iff : (db.storage.locations.any fun l => l.id ≠ loc.id ∧ l.uri = loc.uri) = true ↔
          ¬reg.FreeFor loc.id loc.uri := by
        rw [shows_.free_iff]
        simp only [List.any_eq_true, decide_eq_true_eq]
        constructor
        · rintro ⟨l, hl, apart, same⟩ free
          exact apart (free l hl same)
        · intro taken
          by_contra none_
          exact taken fun l hl same => by_contra fun apart => none_ ⟨l, hl, apart, same⟩
      unfold Database.updateLocation
      by_cases busy : db.storage.scanRunning loc.id = true
      · rw [if_pos busy, if_pos busy]
        exact ⟨rfl, shows_⟩
      · rw [if_neg busy, if_neg busy]
        by_cases absent : reg.name loc.id = none
        · rw [if_pos ((absent_iff shows_).mpr absent), if_pos absent]
          exact ⟨rfl, shows_⟩
        · rw [if_neg (fun all => absent ((absent_iff shows_).mp all)), if_neg absent]
          by_cases free : reg.FreeFor loc.id loc.uri
          · rw [if_neg (fun taken => taken_iff.mp taken free), dif_pos free]
            refine ⟨rfl, shows_.bind free fun _ => pathOf_setURI ?_ rfl⟩
            exact shows_ loc.id ▸ absent
          · rw [if_pos (taken_iff.mpr free), dif_neg free]
            exact ⟨rfl, shows_⟩

theorem deleteLocation_agrees (shows_ : Shows db reg) (id : String) :
    Agrees (deleteLocation db id)
      (Directory.delete (fun id => db.storage.scanRunning id) reg id) := by
  unfold deleteLocation Directory.delete
  cases read : readID "id" id with
  | error err => exact ⟨rfl, shows_⟩
  | ok id =>
    simp only
    unfold Database.deleteLocation
    by_cases busy : db.storage.scanRunning id = true
    · simp only [if_pos busy]
      exact ⟨rfl, shows_⟩
    · simp only [if_neg busy]
      by_cases absent : reg.name id = none
      · rw [if_pos ((absent_iff shows_).mpr absent), if_pos absent]
        exact ⟨rfl, shows_⟩
      · rw [if_neg (fun all => absent ((absent_iff shows_).mp all)), if_neg absent]
        exact ⟨rfl, shows_.release fun _ => pathOf_delete rfl⟩

/-! ### Runs -/

/-- The writes of scans, parses and imports. -/
def Elsewhere : Write → Bool
  | .insertLocation .. | .updateLocation .. | .deleteLocation _ => false
  | _ => true

theorem pathOf_of_location (same : ∀ id, db'.storage.location id = db.storage.location id)
    (id : UUID) : pathOf db' id = pathOf db id := by
  unfold pathOf
  rw [same]

theorem pathOf_step {w : Write} (elsewhere : Elsewhere w = true) (h : db.step w = some db')
    (id : UUID) : pathOf db' id = pathOf db id := by
  have storage : db'.storage = db.storage → pathOf db' id = pathOf db id := by
    intro same
    unfold pathOf
    rw [same]
  cases w with
  | insertLocation id uri => cases elsewhere
  | updateLocation id uri => cases elsewhere
  | deleteLocation id => cases elsewhere
  | replaceDirAlbums dirID albums =>
    exact storage (Database.replaceDirAlbums_storage (Database.toOption_ok h))
  | insertArtist artist aliases =>
    have kept : Database.Keeps LibraryTables.albums db db' :=
      Database.insertArtist_keeps (fun _ _ => rfl) (fun _ _ => rfl) (Database.toOption_ok h)
    exact storage kept.1
  | upsertImage img =>
    obtain ⟨⟨last, _⟩, stored, rfl⟩ := Option.map_eq_some_iff.mp h
    have kept : Database.Keeps LibraryTables.albums db last :=
      Database.upsertImage_keeps (fun _ _ => rfl) (Database.toOption_ok stored)
    exact storage kept.1
  | releaseDir dirID gen =>
    obtain ⟨released, _⟩ := Database.onStorage_spec h
    have rows : db'.storage.locations = db.storage.locations := by
      rw [(ScanTables.releaseDir_spec released).2]
    exact pathOf_of_location (ScanTables.location_of_eq rows) id
  | releaseAndRedirty dirID gen =>
    obtain ⟨released, _⟩ := Database.onStorage_spec h
    have rows : db'.storage.locations = db.storage.locations := by
      rw [(ScanTables.releaseAndRedirty_spec released).2]
    exact pathOf_of_location (ScanTables.location_of_eq rows) id
  | beginScan now scanID loc =>
    simp only [Database.step] at h
    split at h
    · rename_i begun
      cases h
      exact pathOf_of_location (ScanTables.beginScan_location begun) id
    · cases h
  | syncDir newDirID newFileID payload =>
    simp only [Database.step] at h
    split at h
    · rename_i synced
      cases h
      exact pathOf_of_location (ScanTables.location_of_eq (ScanTables.syncDir_locations synced)) id
    · cases h
  | finishScan now scanID progress scanErr =>
    cases h
    exact pathOf_of_location (ScanTables.location_of_eq rfl) id
  | abortRunningScans now =>
    cases h
    exact pathOf_of_location (ScanTables.location_of_eq rfl) id
  | sweep loc gen =>
    cases h
    exact pathOf_of_location (ScanTables.location_of_eq rfl) id
  | dirtyDirs picked =>
    cases h
    exact pathOf_of_location (ScanTables.location_of_eq rfl) id

/-- Every location can be scanned. -/
def Scannable (parse : String → Except String URL) (reg : Directory) : Prop :=
  ∀ id path, reg.name id = some path → id ≠ .nil ∧
    ∃ root, (Location.mk id path true).root parse = .ok root

theorem root_of_fromProto {pb : LocationProto} {loc : Location}
    (read : locationFromProto parse pb = .ok loc) (id : UUID) :
    ∃ root, (Location.mk id loc.uri true).root parse = .ok root := by
  unfold locationFromProto at read
  split at read
  · cases read
  · simp only at read
    split at read
    · cases read
    · rename_i root resolved
      cases read
      exact ⟨root, resolved⟩

theorem Scannable.bind (scannable : Scannable parse reg) {pb : LocationProto} {loc : Location}
    (read : locationFromProto parse pb = .ok loc) {id : UUID} (named : id ≠ .nil)
    (free : reg.FreeFor id loc.uri) : Scannable parse (reg.bind id loc.uri free) := by
  intro other path has
  rw [Registry.name_bind] at has
  split at has
  · rename_i here
    cases has
    exact ⟨here ▸ named, root_of_fromProto read other⟩
  · exact scannable other path has

theorem createdID_ne_nil (loc : Location) (newID : FreshID) : createdID loc newID ≠ .nil := by
  unfold createdID
  split
  · exact newID.2
  · assumption

theorem handle_scannable {busy : UUID → Bool} (scannable : Scannable parse reg)
    (r : LocationRequest) : Scannable parse (Directory.handle parse busy reg r).2 := by
  cases r with
  | create pb newID primaryFirst =>
    simp only [Directory.handle, Directory.create]
    split
    · exact scannable
    · rename_i loc read
      split
      · rename_i free
        split
        · exact scannable.bind read (createdID_ne_nil loc newID) fun other has =>
            absurd has (free other)
        · exact scannable
      · split <;> exact scannable
  | get id => exact scannable
  | update pb =>
    simp only [Directory.handle, Directory.update]
    split
    · exact scannable
    · rename_i loc read
      split_ifs with unnamed busy absent free
      · exact scannable
      · exact scannable
      · exact scannable
      · exact scannable.bind read unnamed free
      · exact scannable
  | delete id =>
    simp only [Directory.handle, Directory.delete]
    split
    · exact scannable
    · split_ifs
      · exact scannable
      · exact scannable
      · intro other path has
        rw [Registry.name_release] at has
        split at has
        · cases has
        · exact scannable other path has

inductive LocationEvent where
  | request (r : LocationRequest)
  | write (w : Write)

/-- A request, the locations that are being scanned when it comes, and its answer. -/
structure Exchange where
  request : LocationRequest
  busy : UUID → Bool
  answer : Except LocationFailure LocationReply

/-- The exchanges with clients, while others write. -/
def serveLocations (parse : String → Except String URL) :
    Database → List LocationEvent → Option (List Exchange × Database)
  | db, [] => some ([], db)
  | db, .request r :: events =>
    let (answer, next) := handleLocation parse db r
    (serveLocations parse next events).map fun (log, last) =>
      (⟨r, fun id => db.storage.scanRunning id, answer⟩ :: log, last)
  | db, .write w :: events =>
    if Elsewhere w then (db.step w).bind fun next => serveLocations parse next events else none

noncomputable def Directory.serve (parse : String → Except String URL) :
    Directory → List Exchange → List (Except LocationFailure LocationReply) × Directory
  | reg, [] => ([], reg)
  | reg, e :: log =>
    let (answer, next) := Directory.handle parse e.busy reg e.request
    let (answers, last) := Directory.serve parse next log
    (answer :: answers, last)

theorem handleLocation_agrees (shows_ : Shows db reg) (r : LocationRequest) :
    Agrees (handleLocation parse db r)
      (Directory.handle parse (fun id => db.storage.scanRunning id) reg r) := by
  cases r with
  | create pb newID primaryFirst => exact createLocation_agrees shows_ pb newID primaryFirst
  | get id => exact ⟨getLocation_agrees shows_ id, shows_⟩
  | update pb => exact updateLocation_agrees shows_ pb
  | delete id => exact deleteLocation_agrees shows_ id

theorem serve_agrees {events : List LocationEvent} {log : List Exchange} (shows_ : Shows db reg)
    (scannable : Scannable parse reg) (served : serveLocations parse db events = some (log, db')) :
    ∃ last, Directory.serve parse reg log = (log.map Exchange.answer, last) ∧ Shows db' last ∧
      Scannable parse last := by
  induction events generalizing db reg log with
  | nil =>
    cases served
    exact ⟨reg, rfl, shows_, scannable⟩
  | cons e events ih =>
    cases e with
    | request r =>
      obtain ⟨answers, shown⟩ : Agrees (handleLocation parse db r)
        (Directory.handle parse (fun id => db.storage.scanRunning id) reg r) :=
        handleLocation_agrees shows_ r
      obtain ⟨⟨rest, last⟩, later, same⟩ := Option.map_eq_some_iff.mp served
      cases same
      obtain ⟨final, replies, goal⟩ := ih shown (handle_scannable scannable r) later
      refine ⟨final, ?_, goal⟩
      simp only [Directory.serve, List.map_cons]
      rw [replies, ← answers]
      rfl
    | write w =>
      simp only [serveLocations] at served
      split at served
      · rename_i elsewhere
        obtain ⟨next, written, later⟩ := Option.bind_eq_some_iff.mp served
        refine ih (fun id => ?_) scannable later
        rw [shows_, pathOf_step elsewhere written]
      · cases served

/-- Whatever scans, parses and imports write in between, clients are answered as by a directory in
which no two locations have one path, and which the database shows at the end; and the root of
every location can be resolved. -/
theorem locations_refine_directory (parse : String → Except String URL)
    {events : List LocationEvent} {log : List Exchange}
    (served : serveLocations parse .empty events = some (log, db)) :
    ∃ reg, Directory.serve parse .empty log = (log.map Exchange.answer, reg) ∧ Shows db reg ∧
      Scannable parse reg :=
  serve_agrees (fun _ => rfl) nofun served

/-- `url.Parse` of an absolute path. -/
def pathURL (s : String) : Except String URL := .ok ⟨"", "", s⟩

theorem one_ne_nil : (1 : UUID) ≠ .nil := by decide

theorem two_ne_nil : (2 : UUID) ≠ .nil := by decide

/-- A location is made, cannot be made twice, and cannot be changed during its scan. -/
def musicAdded : List LocationEvent :=
  [.request (.create ⟨"", "/music"⟩ ⟨1, one_ne_nil⟩ false),
    .request (.create ⟨"", "/music"⟩ ⟨2, two_ne_nil⟩ false), .write (.beginScan 0 30 1),
    .request (.update ⟨(1 : UUID).string, "/other"⟩), .request (.get (1 : UUID).string)]

theorem musicAdded_refines : ∃ log db reg,
    serveLocations pathURL .empty musicAdded = some (log, db) ∧
      log.map Exchange.answer = [.ok (.location ⟨(1 : UUID).string, "/music"⟩),
        .error (storeFailure .exists), .error (storeFailure .scanRunning),
        .ok (.location ⟨(1 : UUID).string, "/music"⟩)] ∧
      Directory.serve pathURL .empty log = (log.map Exchange.answer, reg) ∧ Shows db reg := by
  have reaches : (serveLocations pathURL .empty musicAdded).map
      (fun served => served.1.map Exchange.answer) =
        some [.ok (.location ⟨(1 : UUID).string, "/music"⟩), .error (storeFailure .exists),
          .error (storeFailure .scanRunning), .ok (.location ⟨(1 : UUID).string, "/music"⟩)] := by
    decide
  obtain ⟨⟨log, db⟩, served, answers⟩ := Option.map_eq_some_iff.mp reaches
  obtain ⟨reg, replies, shown, _⟩ := locations_refine_directory pathURL served
  exact ⟨log, db, reg, served, answers, replies, shown⟩

end Byom.Rpc
