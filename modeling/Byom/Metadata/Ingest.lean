import Byom.Metadata.ImportedTracks
import Byom.Metadata.Steps

/-!
# The pipeline and the library it fills

`Ingest` is the pipeline with the importer as its `OnResult`, over one database. A
worker that has read its files imports some result of parsing them. An import that
fails leaves interned artists behind, so artists are interned at any time.
-/

namespace Byom.Metadata

open Storage Relational Library Sqlite Transition

namespace Pipeline

variable {Import : Type} {s s' : Pipeline Import}

/-- No step takes a dir or a file row away. -/
theorem step_extends {importOf : List File → Import} {a : Action}
    (h : s.step importOf a = some s') : s.tables.Extends s'.tables := by
  cases a with
  | beginScan loc now scanID =>
    obtain ⟨t, gen, began, rfl⟩ := beginScan_cases h
    exact .of_sameRows (ScanTables.beginScan_spec began).1 (ScanTables.beginScan_spec began).2.2.2.1
  | syncDir newDirID newFileID payload =>
    obtain ⟨_, t, dirID, synced, _, rfl⟩ := syncDir_cases h
    exact ScanTables.syncDir_extends synced
  | onDirty i =>
    obtain ⟨_, rfl⟩ := onDirty_cases h
    exact .refl _
  | sweep loc =>
    obtain ⟨gen, rfl⟩ := sweep_cases h
    exact .of_sameRows (ScanTables.sweep_sameRows loc gen _) (ScanTables.sweep_wellFormed loc gen)
  | finishScan loc now progress scanErr =>
    obtain ⟨scanID, rfl⟩ := finishScan_cases h
    exact .of_sameRows ⟨rfl, rfl, rfl⟩ (ScanTables.finishScan_wellFormed _ _ _ _)
  | receiveToken =>
    obtain ⟨_, rfl⟩ := receiveToken_cases h
    exact .refl _
  | dirtyDirs picked =>
    obtain ⟨_, _, rfl⟩ := dirtyDirs_cases h
    exact .of_sameRows (ScanTables.dirtyDirs_sameRows picked _)
      (ScanTables.dirtyDirs_wellFormed picked)
  | send =>
    obtain ⟨c, batch, _, rfl⟩ := send_cases h
    exact .refl _
  | receive w =>
    obtain ⟨c, rest, _, _, rfl⟩ := receive_cases h
    exact .refl _
  | fail w =>
    obtain ⟨dir, _, rfl⟩ := fail_cases h
    exact .refl _
  | dirFiles w =>
    obtain ⟨dir, _, rfl⟩ := dirFiles_cases h
    exact .refl _
  | importDir w =>
    obtain ⟨dir, files, _, rfl⟩ := importDir_cases h
    exact .refl _
  | clearAttempts w =>
    obtain ⟨dir, _, rfl⟩ := clearAttempts_cases h
    exact .refl _
  | recordFailure w =>
    obtain ⟨dir, next, attempts, _, _, rfl⟩ := recordFailure_cases h
    exact .refl _
  | releaseDir w =>
    obtain ⟨x, dir, t, _, _, released, rfl⟩ := releaseDir_cases h
    exact ScanTables.releaseDir_extends released
  | releaseAndRedirty w =>
    obtain ⟨dir, t, _, released, rfl⟩ := releaseAndRedirty_cases h
    exact ScanTables.releaseAndRedirty_extends released
  | releaseError w =>
    obtain ⟨x, dir, _, _, rfl⟩ := releaseError_cases h
    exact .refl _
  | armRetry w =>
    obtain ⟨_, rfl⟩ := armRetry_cases h
    exact .refl _
  | skipRetry w =>
    obtain ⟨_, rfl⟩ := skipRetry_cases h
    exact .refl _
  | timerFires =>
    obtain ⟨_, rfl⟩ := timerFires_cases h
    exact .refl _

end Pipeline

end Byom.Metadata

namespace Byom.Metadata

open Storage Relational Library Sqlite Transition

/-! ### What an import does to the tracks -/

namespace Importer

variable {rt : Runtime} {im im' : Importer} {res : ParseResult}

theorem trackAt_of_rows {db db' : Database} (kept : Database.Keeps rows db db')
    (key : UUID × Int) : db'.trackAt key = db.trackAt key := by
  have albums : db'.library.albums = db.library.albums := congrArg Prod.fst kept.2
  have tracks : db'.library.tracks = db.library.tracks := congrArg (fun r => r.2.1) kept.2
  exact Database.trackAt_of_keeps tracks (by rw [albums]) key

theorem importResult_storage (h : importResult rt res im = .ok im') :
    im'.db.storage = im.db.storage := by
  obtain ⟨albums, mid, loop, replaced⟩ := importResult_steps h
  exact (Database.replaceDirAlbums_storage replaced).trans (buildAlbums_spec loop).2.2.keeps.1

theorem upsertImage_tracks {db db' : Database} {img : Image} {id : UUID}
    (h : db.upsertImage img = .ok (db', id)) : Database.Keeps rows db db' :=
  Database.upsertImage_keeps (fun _ _ => rfl) h

/-- Afterwards a track is one of the result, under its dir, or one of another dir that
was there before. -/
theorem importResult_trackAt (h : importResult rt res im = .ok im') {key : UUID × Int}
    {view : TrackView} (found : im'.db.trackAt key = some view) :
    (view.owner.1 = res.dirID ∧ ∃ pa ∈ res.albums, ∃ pt ∈ pa.tracks, pt.key = key) ∨
      im.db.trackAt key = some view ∧ view.owner.1 ≠ res.dirID := by
  obtain ⟨albums, mid, loop, replaced⟩ := importResult_steps h
  obtain ⟨built, owned, interned⟩ := buildAlbums_spec loop
  rw [Database.replaceDirAlbums_trackAt replaced, trackAt_of_rows interned.keeps] at found
  obtain ⟨claimed, stays⟩ := Option.filter_eq_some_iff.mp found
  rcases owner_of_claimTracks claimed with under | ⟨before, absent⟩
  · obtain ⟨al, hal, same⟩ := List.mem_map.mp under
    have ofDir : view.owner.1 = res.dirID := by rw [← same]; exact (owned al hal).1
    by_cases listed : ∃ al ∈ albums, al.Lists key
    · obtain ⟨al, hal, lists⟩ := listed
      obtain ⟨t, ht, rfl⟩ := List.mem_map.mp lists
      have parsed : t.key ∈ (res.albums.flatMap ParsedAlbum.tracks).map ParsedTrack.key := by
        rw [← keys_of_summaries built]
        exact List.mem_map_of_mem (List.mem_flatMap.mpr ⟨al, hal, ht⟩)
      obtain ⟨pt, hpt, same⟩ := List.mem_map.mp parsed
      obtain ⟨pa, hpa, inside⟩ := List.mem_flatMap.mp hpt
      exact .inl ⟨ofDir, pa, hpa, pt, inside, same⟩
    · -- what is under an album of the payload and not listed is deleted
      push Not at listed
      rw [claimTracks_of_absent listed] at claimed
      exact absurd under (by simpa using (Option.filter_eq_some_iff.mp claimed).2)
  · right
    refine ⟨before, ?_⟩
    rw [claimTracks_of_absent absent, Option.filter_eq_some_iff] at claimed
    have apart : view.owner ∉ albums.map ImportAlbum.key := by simpa using claimed.2
    simpa [Database.ownerStays, apart] using stays

end Importer

/-! ### The system -/

structure Ingest where
  pipe : Pipeline Unit
  importer : Importer
  shared : importer.db.storage = pipe.tables

/-- What `parseDir` makes of the files of a dir has tracks of these files only. -/
def ParsedFrom (dir : ClaimedDir) (files : List File) (res : ParseResult) : Prop :=
  res.dirID = dir.id ∧ ∀ pa ∈ res.albums, ∀ pt ∈ pa.tracks, pt.fileID ∈ files.map File.id

instance (dir : ClaimedDir) (files : List File) (res : ParseResult) :
    Decidable (ParsedFrom dir files res) :=
  inferInstanceAs (Decidable (_ ∧ ∀ pa ∈ res.albums, ∀ pt ∈ pa.tracks, _))

namespace Ingest

inductive Action where
  | insertLocation (id : UUID) (uri : String)
  | restart (now : Int) (n : Nat)
  | pipeline (a : Metadata.Action)
  | importDir (w : Nat) (res : ParseResult) (minted : Minted)
  | internArtist (name : String) (minted : Minted)
  | addImage (img : Image)

/-- The database follows what the pipeline does to its tables. -/
def follow (s : Ingest) (pipe : Pipeline Unit) (grown : s.pipe.tables.Extends pipe.tables) :
    Ingest where
  pipe := pipe
  importer := { s.importer with db := s.importer.db.withStorage pipe.tables (s.shared ▸ grown) }
  shared := rfl

/-- The next process, which aborts what was running and has an empty cache. -/
def restart (s : Ingest) (now : Int) (n : Nat) : Ingest where
  pipe := Pipeline.start (s.pipe.tables.abortRunningScans now) (fun _ => ()) n
  importer :=
    { db := s.importer.db.withStorage (s.pipe.tables.abortRunningScans now)
        (s.shared ▸ .of_sameRows ⟨rfl, rfl, rfl⟩ (ScanTables.abortRunningScans_wellFormed now))
      artists := [] }
  shared := rfl

/-- A step of the pipeline. Its imports are those of `importDir`. -/
def pipeline (s : Ingest) (a : Metadata.Action) : Option Ingest :=
  match a with
  | .importDir _ => none
  | a =>
    match h : s.pipe.step (fun _ => ()) a with
    | none => none
    | some pipe => some (s.follow pipe (Pipeline.step_extends h))

/-- `OnResult` with the result of a parse. -/
def importDir (rt : Runtime) (s : Ingest) (w : Nat) (res : ParseResult) : Option Ingest :=
  match s.pipe.workers[w]? with
  | some (.read dir files) =>
    if ParsedFrom dir files res then
      match h : Importer.importResult rt res s.importer with
      | .error _ => none
      | .ok importer =>
        some ⟨s.pipe.setWorker w (.imported dir), importer,
          (Importer.importResult_storage h).trans s.shared⟩
    else none
  | _ => none

def internArtist (rt : Runtime) (s : Ingest) (name : String) : Option Ingest :=
  match h : Importer.internArtist rt name s.importer with
  | .error _ => none
  | .ok (_, importer) =>
    some ⟨s.pipe, importer, (Importer.internArtist_spec h).2.keeps.1.trans s.shared⟩

/-- `ImageStore.Add`, while a dir is parsed. -/
def addImage (s : Ingest) (img : Image) : Option Ingest :=
  match h : s.importer.db.upsertImage img with
  | .error _ => none
  | .ok (db, _) =>
    some ⟨s.pipe, { s.importer with db }, (Importer.upsertImage_tracks h).1.trans s.shared⟩

/-- Each import mints IDs of its own. -/
def step (libs : Libraries) (s : Ingest) : Action → Option Ingest
  | .insertLocation id uri =>
    match h : s.pipe.tables.insertLocation id uri with
    | .error _ => none
    | .ok t => some (s.follow { s.pipe with tables := t } (ScanTables.insertLocation_extends h))
  | .restart now n => some (s.restart now n)
  | .pipeline a => s.pipeline a
  | .importDir w res minted => s.importDir ⟨libs, minted⟩ w res
  | .internArtist name minted => s.internArtist ⟨libs, minted⟩ name
  | .addImage img => s.addImage img

/-- A new installation, with `n` workers. -/
def empty (n : Nat) : Ingest where
  pipe := Pipeline.start .empty (fun _ => ()) n
  importer := ⟨.empty, []⟩
  shared := rfl

/-! ### What each action can do -/

variable {libs : Libraries} {rt : Runtime} {s s' : Ingest}

@[simp] theorem follow_trackAt (pipe : Pipeline Unit) (grown : s.pipe.tables.Extends pipe.tables)
    (key : UUID × Int) :
    (s.follow pipe grown).importer.db.trackAt key = s.importer.db.trackAt key := rfl

theorem pipeline_cases {a : Metadata.Action} (h : s.pipeline a = some s') :
    ∃ pipe, ∃ taken : s.pipe.step (fun _ => ()) a = some pipe,
      (∀ w, a ≠ .importDir w) ∧ s' = s.follow pipe (Pipeline.step_extends taken) := by
  unfold pipeline at h
  split at h
  · cases h
  · rename_i other
    split at h
    · cases h
    · rename_i pipe taken
      cases h
      exact ⟨pipe, taken, other, rfl⟩

theorem importDir_cases {w : Nat} {res : ParseResult} (h : s.importDir rt w res = some s') :
    ∃ dir files, s.pipe.workers[w]? = some (.read dir files) ∧ ParsedFrom dir files res ∧
      Importer.importResult rt res s.importer = .ok s'.importer ∧
      s'.pipe = s.pipe.setWorker w (.imported dir) := by
  unfold importDir at h
  split at h
  · rename_i dir files found
    split at h
    · rename_i parsed
      split at h
      · cases h
      · rename_i importer imported
        cases h
        exact ⟨dir, files, found, parsed, imported, rfl⟩
    · cases h
  · cases h

theorem internArtist_cases {name : String} (h : s.internArtist rt name = some s') :
    Importer.Interned rt s.importer s'.importer ∧ s'.pipe = s.pipe := by
  unfold internArtist at h
  split at h
  · cases h
  · rename_i id importer interned
    cases h
    exact ⟨(Importer.internArtist_spec interned).2, rfl⟩

theorem addImage_cases {img : Image} (h : s.addImage img = some s') :
    Database.Keeps Importer.rows s.importer.db s'.importer.db ∧ s'.pipe = s.pipe := by
  unfold addImage at h
  split at h
  · cases h
  · rename_i db id stored
    cases h
    exact ⟨Importer.upsertImage_tracks stored, rfl⟩

theorem insertLocation_cases {id : UUID} {uri : String}
    (h : s.step libs (.insertLocation id uri) = some s') :
    ∃ t, ∃ inserted : s.pipe.tables.insertLocation id uri = .ok t,
      s' = s.follow { s.pipe with tables := t } (ScanTables.insertLocation_extends inserted) := by
  simp only [step] at h
  split at h
  · cases h
  · rename_i t inserted
    cases h
    exact ⟨t, inserted, rfl⟩

end Ingest

end Byom.Metadata
