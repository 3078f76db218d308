import Byom.Sqlite.CatalogWrites
import Byom.Sqlite.LocationStore
import Byom.Transition.Run

/-!
# Every write of the database

`Write` lists the transactions of all stores, and `step` runs one; one that fails
leaves the database as it was, and is no step. The writes of scans and of the
parse queue keep all dirs and files, so they keep what the library refers to.
-/

namespace Byom.Sqlite

open Storage Relational Library Metadata

namespace ScanTables

/-- What a write of the storage tables may do under the library. -/
structure Extends (t t' : ScanTables) : Prop where
  wellFormed : t.WellFormed → t'.WellFormed
  dirs : t.dirs.map DirRow.id ⊆ t'.dirs.map DirRow.id
  files : t.files.map FileRow.id ⊆ t'.files.map FileRow.id

variable {t t' t'' : ScanTables}

theorem Extends.of_sameRows (same : SameRows t t') (wf : t.WellFormed → t'.WellFormed) :
    Extends t t' where
  wellFormed := wf
  dirs := by rw [same.dirIDs_eq]; exact List.Subset.refl _
  files := by rw [same.fileIDs_eq]; exact List.Subset.refl _

theorem Extends.refl (t : ScanTables) : Extends t t :=
  ⟨id, List.Subset.refl _, List.Subset.refl _⟩

/-- A file row and its dir, which stay together for good. -/
def HasFile (fileID dirID : UUID) (t : ScanTables) : Prop :=
  ∃ f ∈ t.files, f.id = fileID ∧ f.dirID = dirID

instance (t : ScanTables) (fileID dirID : UUID) : Decidable (t.HasFile fileID dirID) :=
  inferInstanceAs (Decidable (∃ f ∈ t.files, f.id = fileID ∧ f.dirID = dirID))

theorem hasFile_iff {fileID dirID : UUID} : t.HasFile fileID dirID ↔
    (fileID, dirID) ∈ t.files.map fun f => (f.id, f.dirID) := by
  simp [HasFile]

theorem HasFile.of_sameRows {fileID dirID : UUID} (has : t.HasFile fileID dirID)
    (same : SameRows t t') : t'.HasFile fileID dirID := by
  have read : ∀ u : ScanTables, (u.files.map fun f => (f.id, f.dirID)) =
      (u.files.map fileIdent).map fun i => (i.1, i.2.1) :=
    fun u => by rw [List.map_map]; rfl
  rw [hasFile_iff, read] at has ⊢
  rwa [same.files]

theorem upsertFiles_keeps_map {Ident : Type} {ident : FileRow → Ident}
    (keeps : ∀ f r, ident (refreshFile f r) = ident r) {newFileID : Path → UUID} {d : UUID}
    {fs : List File} (h : upsertFiles newFileID d fs t = .ok t') :
    t.files.map ident ⊆ t'.files.map ident := by
  induction fs generalizing t with
  | nil => cases h; exact List.Subset.refl _
  | cons f fs ih =>
    obtain ⟨u, first, rest⟩ := upsertFiles_cons h
    obtain ⟨rfl, _⟩ := upsertFile_spec first
    have one : t.files.map ident ⊆
        (upsertOn FileRow.key (refreshFile f) (newFile newFileID d f) t.files).map ident :=
      upsertOn_keeps_map (keeps f) _ _
    exact fun i hi => ih rest (one hi)

theorem syncDir_hasFile {newDirID d : UUID} {newFileID : Path → UUID} {p : Scan.SyncPayload}
    (h : syncDir newDirID newFileID p t = .ok (t', d)) {fileID dirID : UUID}
    (has : t.HasFile fileID dirID) : t'.HasFile fileID dirID := by
  obtain ⟨u, first, second⟩ := syncDir_spec h
  have kept : t.files = u.files := by rw [(upsertDir_spec first).1]
  have there : u.HasFile fileID dirID := by
    rw [HasFile, kept] at has
    exact has
  have marked := there.of_sameRows (markMissingFiles_sameRows p.missing u)
  rw [hasFile_iff] at marked ⊢
  have keeps : ∀ f r, ((refreshFile f r).id, (refreshFile f r).dirID) = (r.id, r.dirID) :=
    fun _ _ => rfl
  exact upsertFiles_keeps_map keeps second marked

theorem syncDir_extends {newDirID d : UUID} {newFileID : Path → UUID} {p : Scan.SyncPayload}
    (h : syncDir newDirID newFileID p t = .ok (t', d)) : Extends t t' where
  wellFormed := syncDir_wellFormed h
  dirs := by
    obtain ⟨u, first, second⟩ := syncDir_spec h
    rw [(upsertFiles_frame second).1, (upsertDir_spec first).1]
    exact upsertOn_keeps_map (resyncDir_id p) _ _
  files := by
    obtain ⟨u, first, second⟩ := syncDir_spec h
    have marked := (markMissingFiles_sameRows p.missing u).fileIDs_eq
    have same : u.files = t.files := by rw [(upsertDir_spec first).1]
    have later := upsertFiles_keeps_map (refreshFile_id) second
    rwa [marked, same] at later

theorem releaseDir_extends {dirID : UUID} {gen : Int} (h : releaseDir dirID gen t = .ok t') :
    Extends t t' := by
  obtain ⟨_, rfl⟩ := releaseDir_spec h
  refine .of_sameRows ?_ (releaseDir_wellFormed h)
  apply sameRows_of_dirs
  exact fun _ => rfl

theorem releaseAndRedirty_extends {dirID : UUID} {gen : Int}
    (h : releaseAndRedirty dirID gen t = .ok t') : Extends t t' := by
  obtain ⟨_, rfl⟩ := releaseAndRedirty_spec h
  refine .of_sameRows ?_ (releaseAndRedirty_wellFormed h)
  apply sameRows_of_dirs
  exact fun _ => rfl

theorem insertLocation_extends {id : UUID} {uri : String} (h : insertLocation id uri t = .ok t') :
    Extends t t' where
  wellFormed := insertLocation_wellFormed h
  dirs := by rw [(insertLocation_frame h).1]; exact List.Subset.refl _
  files := by rw [(insertLocation_frame h).2]; exact List.Subset.refl _

end ScanTables

open ScanTables

namespace Database

def withStorage (db : Database) (t : ScanTables) (grown : db.storage.Extends t) : Database :=
  { db with
    storage := t
    wellFormed := grown.wellFormed db.wellFormed
    referenced := db.referenced.mono grown.dirs grown.files }

/-- A transaction on the storage tables that may fail. -/
def onStorage (db : Database) (write : Except SqlError ScanTables)
    (grows : ∀ t, write = .ok t → db.storage.Extends t) : Option Database :=
  match write, grows with
  | .ok t, grows => some (db.withStorage t (grows t rfl))
  | .error _, _ => none

end Database

inductive Write where
  | insertLocation (id : UUID) (uri : String)
  | updateLocation (id : UUID) (uri : String)
  | deleteLocation (id : UUID)
  | beginScan (now : Int) (scanID locationID : UUID)
  | finishScan (now : Int) (scanID : UUID) (progress : Scan.Progress)
      (scanErr : Option Scan.ScanError)
  | abortRunningScans (now : Int)
  | syncDir (newDirID : UUID) (newFileID : Path → UUID) (payload : Scan.SyncPayload)
  | sweep (locationID : UUID) (gen : Int)
  | dirtyDirs (picked : List UUID)
  | releaseDir (dirID : UUID) (lockedGen : Int)
  | releaseAndRedirty (dirID : UUID) (lockedGen : Int)
  | upsertImage (img : Image)
  | insertArtist (artist : Artist) (aliases : List String)
  | replaceDirAlbums (dirID : UUID) (albums : List ImportAlbum)

namespace Database

def step (db : Database) : Write → Option Database
  | .insertLocation id uri =>
    db.onStorage (ScanTables.insertLocation id uri db.storage) fun _ => insertLocation_extends
  | .updateLocation id uri => (db.updateLocation id uri).toOption
  | .deleteLocation id => (db.deleteLocation id).toOption
  | .beginScan now scanID loc =>
    match h : ScanTables.beginScan now scanID loc db.storage with
    | .ok (t, _) =>
      some (db.withStorage t (.of_sameRows (beginScan_spec h).1 (beginScan_spec h).2.2.2.1))
    | .error _ => none
  | .finishScan now scanID progress scanErr =>
    some (db.withStorage (ScanTables.finishScan now scanID progress scanErr db.storage)
      (.of_sameRows ⟨rfl, rfl, rfl⟩ (finishScan_wellFormed now scanID progress scanErr)))
  | .abortRunningScans now =>
    some (db.withStorage (ScanTables.abortRunningScans now db.storage)
      (.of_sameRows ⟨rfl, rfl, rfl⟩ (abortRunningScans_wellFormed now)))
  | .syncDir newDirID newFileID payload =>
    match h : ScanTables.syncDir newDirID newFileID payload db.storage with
    | .ok (t, _) => some (db.withStorage t (syncDir_extends h))
    | .error _ => none
  | .sweep loc gen =>
    some (db.withStorage (ScanTables.sweep loc gen db.storage).1
      (.of_sameRows (sweep_sameRows loc gen db.storage) (sweep_wellFormed loc gen)))
  | .dirtyDirs picked =>
    some (db.withStorage (ScanTables.dirtyDirs picked db.storage).1
      (.of_sameRows (dirtyDirs_sameRows picked db.storage) (dirtyDirs_wellFormed picked)))
  | .releaseDir dirID gen =>
    db.onStorage (ScanTables.releaseDir dirID gen db.storage) fun _ => releaseDir_extends
  | .releaseAndRedirty dirID gen =>
    db.onStorage (ScanTables.releaseAndRedirty dirID gen db.storage) fun _ =>
      releaseAndRedirty_extends
  | .upsertImage img => (db.upsertImage img).toOption.map Prod.fst
  | .insertArtist artist aliases => (db.insertArtist artist aliases).toOption
  | .replaceDirAlbums dirID albums => (db.replaceDirAlbums dirID albums).toOption

/-- The states that runs from the empty database end in. -/
def Reachable (db : Database) : Prop := ∃ writes, Transition.run step empty writes = some db

theorem Reachable.step {db db' : Database} {w : Write} (reachable : db.Reachable)
    (h : step db w = some db') : db'.Reachable := by
  obtain ⟨writes, ends⟩ := reachable
  exact ⟨writes ++ [w], by rw [Transition.run_append, ends]; simp [h]⟩

def afterWrites (writes : List Write)
    (enabled : (Transition.run step empty writes).isSome) : Database :=
  (Transition.run step empty writes).get enabled

theorem afterWrites_run (writes : List Write)
    (enabled : (Transition.run step empty writes).isSome) :
    Transition.run step empty writes = some (afterWrites writes enabled) :=
  (Option.some_get enabled).symm

theorem onStorage_spec {db db' : Database} {write : Except SqlError ScanTables}
    {grows : ∀ t, write = .ok t → db.storage.Extends t}
    (h : db.onStorage write grows = some db') :
    write = .ok db'.storage ∧ db'.library = db.library := by
  cases write with
  | error e => cases h
  | ok t => cases h; exact ⟨rfl, rfl⟩

theorem updateLocation_spec {db db' : Database} {id : UUID} {uri : String}
    (h : db.updateLocation id uri = .ok db') :
    SameRows db.storage db'.storage ∧ db'.library = db.library := by
  unfold updateLocation at h
  split at h
  · cases h
  · split at h
    · cases h
    · split at h
      · cases h
      · cases h
        exact ⟨setURI_sameRows id uri _, rfl⟩

theorem toOption_ok {ε α : Type} {x : Except ε α} {a : α} (h : x.toOption = some a) : x = .ok a := by
  cases x with
  | error e => cases h
  | ok b => cases h; rfl

/-- What a step writes: the library in four ways, or the storage tables alone, where every
file stays in its dir. -/
theorem step_cases {db db' : Database} {w : Write} (h : step db w = some db') :
    (∃ id, w = .deleteLocation id ∧ db.deleteLocation id = .ok db') ∨
      (∃ dirID albums, w = .replaceDirAlbums dirID albums ∧
        db.replaceDirAlbums dirID albums = .ok db') ∨
      (∃ artist aliases, w = .insertArtist artist aliases ∧
        db.insertArtist artist aliases = .ok db') ∨
      (∃ img id, w = .upsertImage img ∧ db.upsertImage img = .ok (db', id)) ∨
      db'.library = db.library ∧ ∀ fileID dirID, db.storage.HasFile fileID dirID →
        db'.storage.HasFile fileID dirID := by
  have sameFiles : SameRows db.storage db'.storage → ∀ fileID dirID,
      db.storage.HasFile fileID dirID → db'.storage.HasFile fileID dirID :=
    fun same _ _ has => has.of_sameRows same
  cases w with
  | deleteLocation id => exact .inl ⟨id, rfl, toOption_ok h⟩
  | replaceDirAlbums dirID albums => exact .inr (.inl ⟨dirID, albums, rfl, toOption_ok h⟩)
  | insertArtist artist aliases =>
    exact .inr (.inr (.inl ⟨artist, aliases, rfl, toOption_ok h⟩))
  | upsertImage img =>
    obtain ⟨⟨last, id⟩, stored, rfl⟩ := Option.map_eq_some_iff.mp h
    exact .inr (.inr (.inr (.inl ⟨img, id, rfl, toOption_ok stored⟩)))
  | insertLocation id uri =>
    obtain ⟨inserted, library⟩ := onStorage_spec h
    refine .inr (.inr (.inr (.inr ⟨library, ?_⟩)))
    intro fileID dirID has
    rw [HasFile, (insertLocation_frame inserted).2]
    exact has
  | updateLocation id uri =>
    obtain ⟨same, library⟩ := updateLocation_spec (toOption_ok h)
    exact .inr (.inr (.inr (.inr ⟨library, sameFiles same⟩)))
  | releaseDir dirID gen =>
    obtain ⟨released, library⟩ := onStorage_spec h
    have same : SameRows db.storage db'.storage := by
      rw [(releaseDir_spec released).2]
      apply sameRows_of_dirs
      exact fun _ => rfl
    exact .inr (.inr (.inr (.inr ⟨library, sameFiles same⟩)))
  | releaseAndRedirty dirID gen =>
    obtain ⟨released, library⟩ := onStorage_spec h
    have same : SameRows db.storage db'.storage := by
      rw [(releaseAndRedirty_spec released).2]
      apply sameRows_of_dirs
      exact fun _ => rfl
    exact .inr (.inr (.inr (.inr ⟨library, sameFiles same⟩)))
  | beginScan now scanID loc =>
    simp only [step] at h
    split at h
    · rename_i begun
      cases h
      exact .inr (.inr (.inr (.inr ⟨rfl, sameFiles (beginScan_spec begun).1⟩)))
    · cases h
  | syncDir newDirID newFileID payload =>
    simp only [step] at h
    split at h
    · rename_i synced
      cases h
      exact .inr (.inr (.inr (.inr ⟨rfl, fun _ _ => syncDir_hasFile synced⟩)))
    · cases h
  | finishScan now scanID progress scanErr =>
    cases h
    exact .inr (.inr (.inr (.inr ⟨rfl, sameFiles ⟨rfl, rfl, rfl⟩⟩)))
  | abortRunningScans now =>
    cases h
    exact .inr (.inr (.inr (.inr ⟨rfl, sameFiles ⟨rfl, rfl, rfl⟩⟩)))
  | sweep loc gen =>
    cases h
    exact .inr (.inr (.inr (.inr ⟨rfl, sameFiles (sweep_sameRows loc gen _)⟩)))
  | dirtyDirs picked =>
    cases h
    exact .inr (.inr (.inr (.inr ⟨rfl, sameFiles (dirtyDirs_sameRows picked _)⟩)))

/-- Albums change in two ways only: a dir is imported, or a location deleted. -/
theorem step_albums {db db' : Database} {w : Write} (h : step db w = some db') :
    (∃ id, w = .deleteLocation id ∧ db.deleteLocation id = .ok db') ∨
      (∃ dirID albums, w = .replaceDirAlbums dirID albums ∧
        db.replaceDirAlbums dirID albums = .ok db') ∨
      db'.library.albums = db.library.albums := by
  rcases step_cases h with deleted | imported | ⟨_, _, _, added⟩ | ⟨_, _, _, stored⟩ | ⟨same, _⟩
  · exact .inl deleted
  · exact .inr (.inl imported)
  · have kept : Keeps LibraryTables.albums db db' :=
      insertArtist_keeps (fun _ _ => rfl) (fun _ _ => rfl) added
    exact .inr (.inr kept.2)
  · have kept : Keeps LibraryTables.albums db db' := upsertImage_keeps (fun _ _ => rfl) stored
    exact .inr (.inr kept.2)
  · exact .inr (.inr (by rw [same]))

theorem deleteLocation_library {db db' : Database} {id : UUID}
    (h : db.deleteLocation id = .ok db') : db'.library =
      (db.library.deleteAlbums fun a => a.dirID ∈ db.storage.dirsOf id).deleteTracks
        fun t => t.fileID ∈ db.storage.filesOf id := by
  unfold deleteLocation at h
  simp only at h
  split at h
  · cases h
  · split at h
    · cases h
    · cases h
      rfl

/-- Tables that no import of a dir writes change in two ways only. -/
theorem step_keeps {α : Type} {f : LibraryTables → α} {db db' : Database} {w : Write}
    (blind : ∀ l albums artists images tracks credits, f { l with
      albums := albums, albumArtists := artists, albumImages := images, tracks := tracks
      trackCredits := credits } = f l)
    (h : step db w = some db') : f db'.library = f db.library ∨
      (∃ artist aliases, w = .insertArtist artist aliases ∧
        db.insertArtist artist aliases = .ok db') ∨
      ∃ img id, w = .upsertImage img ∧ db.upsertImage img = .ok (db', id) := by
  rcases step_cases h with ⟨_, _, deleted⟩ | ⟨_, _, _, imported⟩ | added | stored | ⟨same, _⟩
  · rw [deleteLocation_library deleted]
    exact .inl (blind db.library _ _ _ _ _)
  · have kept : Keeps f db db' := replaceDirAlbums_keeps blind imported
    exact .inl kept.2
  · exact .inr (.inl added)
  · exact .inr (.inr stored)
  · exact .inl (by rw [same])

/-! ### Two locations to import from -/

def audioFile (name : String) : File := ⟨.nil, [name], .audio, ⟨1000, 5⟩, false⟩

/-- Dir 10 of location 1 has the files 20 and 21, dir 11 of location 2 has file 22. -/
def firstScans : List Write :=
  [.insertLocation 1 "file:///music", .insertLocation 2 "file:///disk",
    .beginScan 0 3 1,
    .syncDir 10 (fun name => if name = ["01.flac"] then 20 else 21)
      ⟨1, ["a"], 1, [audioFile "01.flac", audioFile "02.flac"], [], true⟩,
    .sweep 1 1, .finishScan 9 3 ⟨1, 0, 2, 0⟩ none,
    .beginScan 10 4 2,
    .syncDir 11 (fun _ => 22) ⟨2, ["b"], 1, [audioFile "01.flac"], [], true⟩,
    .sweep 2 1, .finishScan 19 4 ⟨1, 0, 1, 0⟩ none]

theorem firstScans_enabled : (Transition.run step empty firstScans).isSome := by decide

def wholeFile (id fileID : UUID) : Track :=
  ⟨id, .nil, ⟨1, "", 1, "Song", "", "", ⟨"flac", 44100, 16, 2, 900⟩, 180000000000⟩, [], fileID, 0⟩

def albumIn (id dirID : UUID) (groupKey : String) (tracks : List Track) : ImportAlbum where
  album :=
    { id, dirID, groupKey, artists := [], images := [],
      details := ⟨.main, "Album", "", "", "", false, false, false, ""⟩ }
  tracks

/-- Each dir holds a version of one release. -/
def twoVersions : List Write :=
  firstScans ++ [.replaceDirAlbums 10 [albumIn 30 10 "release" [wholeFile 40 20]],
    .replaceDirAlbums 11 [albumIn 31 11 "release" [wholeFile 41 22]]]

end Database

end Byom.Sqlite
