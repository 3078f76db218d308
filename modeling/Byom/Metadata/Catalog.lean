import Byom.Metadata.ParsedGroups
import Byom.Metadata.QueueSteps

/-!
# The catalog

Outside the dirs that are due, the files with a track are the audio files that are there.
So they are in the whole library once the queue is drained, if every import stores a track
of each audio file that was read and no dir is given up on.
-/

namespace Byom.Metadata

open Storage Relational Library Sqlite Transition

namespace Importer

variable {rt : Runtime} {im im' : Importer} {res : ParseResult}

def audioIDs (files : List File) : List UUID :=
  (files.filter fun f => f.kind = .audio).map File.id

def trackedIDs (res : ParseResult) : List UUID :=
  (res.albums.flatMap ParsedAlbum.tracks).map ParsedTrack.fileID

/-- The result has tracks of every audio file, at offsets of their own, and of no other
file. -/
structure Covering (files : List File) (res : ParseResult) : Prop where
  all : audioIDs files ⊆ trackedIDs res
  only : trackedIDs res ⊆ audioIDs files
  distinct : ((res.albums.flatMap ParsedAlbum.tracks).map ParsedTrack.key).Nodup

instance (files : List File) (res : ParseResult) : Decidable (Covering files res) :=
  decidable_of_iff (audioIDs files ⊆ trackedIDs res ∧ trackedIDs res ⊆ audioIDs files ∧
      ((res.albums.flatMap ParsedAlbum.tracks).map ParsedTrack.key).Nodup)
    ⟨fun h => ⟨h.1, h.2.1, h.2.2⟩, fun h => ⟨h.all, h.only, h.distinct⟩⟩

theorem mem_audioIDs {files : List File} {fileID : UUID} :
    fileID ∈ audioIDs files ↔ ∃ f ∈ files, f.id = fileID ∧ f.kind = .audio := by
  unfold audioIDs
  simp only [List.mem_map, List.mem_filter, decide_eq_true_eq]
  constructor
  · rintro ⟨f, ⟨hf, audio⟩, id⟩
    exact ⟨f, hf, id, audio⟩
  · rintro ⟨f, hf, id, audio⟩
    exact ⟨f, ⟨hf, audio⟩, id⟩

theorem mem_trackedIDs {fileID : UUID} : fileID ∈ trackedIDs res ↔
    ∃ pt ∈ res.albums.flatMap ParsedAlbum.tracks, pt.fileID = fileID := List.mem_map

/-- Without twins all tracks of a result are stored, under its dir. -/
theorem importResult_stores (h : importResult rt res im = .ok im')
    (distinct : ((res.albums.flatMap ParsedAlbum.tracks).map ParsedTrack.key).Nodup)
    (twins : NoTwins rt im res) {pt : ParsedTrack}
    (parsed : pt ∈ res.albums.flatMap ParsedAlbum.tracks) :
    ∃ view, im'.db.trackAt pt.key = some view ∧ view.owner.1 = res.dirID := by
  obtain ⟨albums, mid, loop, replaced⟩ := importResult_steps h
  obtain ⟨built, owned, _⟩ := buildAlbums_spec loop
  have keys := keys_of_summaries built
  have unlike : albums.Pairwise fun al later => al.tracks ≠ [] → al.key ≠ later.key := by
    refine ((noTwins_iff built).mp twins).imp ?_
    exact fun apart tracks same => apart tracks (congrArg Prod.snd same)
  obtain ⟨t, ht, same⟩ : ∃ t ∈ albums.flatMap ImportAlbum.tracks, t.key = pt.key := by
    rw [← List.mem_map, keys]
    exact List.mem_map_of_mem parsed
  obtain ⟨al, hal, inside⟩ := List.mem_flatMap.mp ht
  obtain ⟨view, claimed, owner, _⟩ :=
    (claimTracks_lists_iff (fun key => mid.db.trackAt key) (keys ▸ distinct)).mpr unlike al hal t
      inside
  refine ⟨view, ?_, owner ▸ (owned al hal).1⟩
  rw [← same, Database.replaceDirAlbums_trackAt replaced, claimed]
  simp [Option.filter, Database.ownerStays, owner, List.mem_map_of_mem hal]

/-- A track of another dir, of a file that was not parsed, stays. -/
theorem importResult_keeps (h : importResult rt res im = .ok im') {key : UUID × Int}
    {view : TrackView} (found : im.db.trackAt key = some view) (apart : view.owner.1 ≠ res.dirID)
    (unparsed : key ∉ (res.albums.flatMap ParsedAlbum.tracks).map ParsedTrack.key) :
    im'.db.trackAt key = some view := by
  obtain ⟨albums, mid, loop, replaced⟩ := importResult_steps h
  obtain ⟨built, owned, interned⟩ := buildAlbums_spec loop
  have absent : ∀ al ∈ albums, ¬al.Lists key := by
    intro al hal lists
    obtain ⟨t, ht, same⟩ := List.mem_map.mp lists
    rw [← keys_of_summaries built] at unparsed
    exact unparsed (same ▸ List.mem_map_of_mem (List.mem_flatMap.mpr ⟨al, hal, ht⟩))
  have others : view.owner ∉ albums.map ImportAlbum.key := by
    intro listed
    obtain ⟨al, hal, same⟩ := List.mem_map.mp listed
    exact apart (same ▸ (owned al hal).1)
  rw [Database.replaceDirAlbums_trackAt replaced, trackAt_of_rows interned.keeps,
    claimTracks_of_absent absent, found]
  simp [Option.filter, others, Database.ownerStays, apart]

end Importer

/-! ### What the parser makes of files that all read -/

section Parser

variable {u : CaseTables} {dir : Path} {dirID : UUID} {files : List (File × Reading)}

theorem audioRead_file {file : File × Reading} {x : File × AudioFile}
    (h : audioRead file = some x) : file.1.kind = .audio ∧ x.1 = file.1 := by
  obtain ⟨f, r⟩ := file
  cases kind : f.kind with
  | audio =>
    cases found : r.readAudio with
    | error message => simp [audioRead, kind, found] at h
    | ok read =>
      simp only [audioRead, kind, found, Option.some.injEq] at h
      subst h
      exact ⟨rfl, rfl⟩
  | image => simp [audioRead, kind] at h
  | other text => simp [audioRead, kind] at h

/-- An audio file that reads is parsed. -/
theorem exists_audioRead {file : File × Reading} (audio : file.1.kind = .audio)
    (read : file.2.readAudio.isOk) : ∃ x, audioRead file = some x := by
  obtain ⟨f, r⟩ := file
  cases found : r.readAudio with
  | error message => simp [found, Except.isOk, Except.toBool] at read
  | ok af => exact ⟨(f, af), by simp_all [audioRead]⟩

theorem parseDir_tracks_perm : ((parseDir u dir dirID files).albums.flatMap
    ParsedAlbum.tracks).Perm ((readable files).map (trackOf u dir)) := by
  have grouped :=
    (groupOn_collected (fun x => identKey (ident u dir x)) (readable files)).groupedBy
  have tracks := forall₂_tracks_iff.mp (parseDir_tracks u dir dirID files)
  rw [List.flatMap_def, tracks, ← List.map_flatten]
  exact grouped.each.map _

theorem readable_fileIDs : ((readable files).map fun x => (trackOf u dir x).fileID).Sublist
    ((files.map Prod.fst).map File.id) := by
  induction files with
  | nil => exact .slnil
  | cons file rest ih =>
    rw [readable, List.filterMap_cons]
    cases found : audioRead file with
    | none => exact ih.cons _
    | some x =>
      have same : (trackOf u dir x).fileID = file.1.id := congrArg File.id (audioRead_file found).2
      rw [List.map_cons, List.map_cons, List.map_cons, same]
      exact ih.cons_cons _

/-- A parse in which no audio file fails covers the files. -/
theorem parseDir_covering (unique : UniqueOn File.id (files.map Prod.fst))
    (read : ∀ file ∈ files, file.1.kind = .audio → file.2.readAudio.isOk) :
    Importer.Covering (files.map Prod.fst) (parseDir u dir dirID files).toParseResult := by
  have perm : ((parseDir u dir dirID files).albums.flatMap ParsedAlbum.tracks).Perm
      ((readable files).map (trackOf u dir)) := parseDir_tracks_perm
  refine ⟨?_, ?_, ?_⟩
  · intro fileID listed
    obtain ⟨f, hf, rfl, audio⟩ := Importer.mem_audioIDs.mp listed
    obtain ⟨file, hfile, rfl⟩ := List.mem_map.mp hf
    obtain ⟨x, found⟩ := exists_audioRead audio (read file hfile audio)
    refine Importer.mem_trackedIDs.mpr ⟨trackOf u dir x, perm.mem_iff.mpr ?_, ?_⟩
    · exact List.mem_map_of_mem (List.mem_filterMap.mpr ⟨file, hfile, found⟩)
    · exact congrArg File.id (audioRead_file found).2
  · intro fileID listed
    obtain ⟨pt, hpt, rfl⟩ := Importer.mem_trackedIDs.mp listed
    obtain ⟨x, hx, rfl⟩ := List.mem_map.mp (perm.mem_iff.mp hpt)
    obtain ⟨file, hfile, found⟩ := List.mem_filterMap.mp hx
    obtain ⟨audio, same⟩ := audioRead_file found
    have id : file.1.id = (trackOf u dir x).fileID := (congrArg File.id same).symm
    exact Importer.mem_audioIDs.mpr ⟨file.1, List.mem_map_of_mem hfile, id, audio⟩
  · rw [(perm.map _).nodup_iff, List.map_map]
    have ids : ((readable files).map fun x => (trackOf u dir x).fileID).Nodup :=
      readable_fileIDs.nodup unique
    exact .of_map Prod.fst (by rwa [List.map_map])

end Parser

open Pipeline

namespace Ingest

variable {libs : Libraries} {rt : Runtime} {s s' : Ingest} {t t' : ScanTables} {x y : Worker}
  {dirID fileID : UUID} {res : ParseResult}

def HasTrack (s : Ingest) (fileID : UUID) : Prop :=
  ∃ r ∈ s.importer.db.library.tracks, r.fileID = fileID

/-- The files of the dir with a track are the audio files that a parse would read. -/
def Settled (s : Ingest) (dirID : UUID) : Prop :=
  ∀ r ∈ s.pipe.tables.rowsOf dirID,
    s.HasTrack r.id ↔ r.id ∈ Importer.audioIDs (s.pipe.tables.dirFiles dirID)

/-- Every track is of a file that is there, and the audio files that are there have one. -/
def Exact (s : Ingest) : Prop :=
  (∀ t ∈ s.importer.db.library.tracks, ∃ f ∈ s.pipe.tables.files, f.id = t.fileID) ∧
    ∀ f ∈ s.pipe.tables.files, s.HasTrack f.id ↔ f.missing = false ∧ f.kind = .audio

instance (s : Ingest) (fileID : UUID) : Decidable (s.HasTrack fileID) :=
  inferInstanceAs (Decidable (∃ r ∈ s.importer.db.library.tracks, _))

/-- An import that leaves its dir clean is of a parse that covers what the worker read and
has no twins. -/
def Fills (rt : Runtime) (s : Ingest) (res : ParseResult) : Worker → Prop
  | .read dir files => IsDirty s.pipe.tables dir.id ∨
      Importer.Covering files res ∧ Importer.NoTwins rt s.importer res
  | _ => True

/-- Scans and sweeps are heeded, every import fills its dir, and no dir is given up on unless
it is dirty. -/
def Filed (libs : Libraries) (s : Ingest) : Action → Prop
  | .pipeline (.releaseDir w) => ∀ dir ∈ s.pipe.held,
      s.pipe.workers[w]? = some (.givingUp dir) → IsDirty s.pipe.tables dir.id
  | .importDir w res minted => ∀ x ∈ s.pipe.workers[w]?, s.Fills ⟨libs, minted⟩ res x
  | a => s.Heeded a

instance (rt : Runtime) (s : Ingest) (res : ParseResult) : DecidablePred (s.Fills rt res)
  | .read _ _ => inferInstanceAs (Decidable (_ ∨ _ ∧ _))
  | .idle | .claimed _ | .imported _ | .cleared _ | .failed _ | .givingUp _ | .redirtying _
  | .redirtied => .isTrue trivial

instance (libs : Libraries) (s : Ingest) : DecidablePred (Filed libs s)
  | .pipeline (.releaseDir _) => inferInstanceAs (Decidable (∀ dir ∈ s.pipe.held, _))
  | .importDir w _ _ => inferInstanceAs (Decidable (∀ x ∈ s.pipe.workers[w]?, _))
  | .pipeline (.beginScan loc now scanID) =>
    inferInstanceAs (Decidable (s.Heeded (.pipeline (.beginScan loc now scanID))))
  | .pipeline (.sweep loc) => inferInstanceAs (Decidable (s.Heeded (.pipeline (.sweep loc))))
  | .pipeline (.syncDir ..) | .pipeline (.onDirty _) | .pipeline (.finishScan ..)
  | .pipeline .receiveToken | .pipeline (.dirtyDirs _) | .pipeline .send | .pipeline (.receive _)
  | .pipeline (.fail _) | .pipeline (.dirFiles _) | .pipeline (.importDir _)
  | .pipeline (.clearAttempts _) | .pipeline (.recordFailure _)
  | .pipeline (.releaseAndRedirty _) | .pipeline (.releaseError _) | .pipeline (.armRetry _)
  | .pipeline (.skipRetry _) | .pipeline .timerFires
  | .insertLocation .. | .restart .. | .internArtist .. | .addImage _ => .isTrue trivial

/-! ### The invariant -/

structure Catalogued (s : Ingest) : Prop where
  claims : s.pipe.Claims
  home : ∀ key view, s.importer.db.trackAt key = some view →
    s.pipe.tables.HasFile key.1 view.owner.1
  settled : ∀ dirID, s.Settled dirID ∨ s.pipe.Due dirID
  reads : ∀ dir files, .read dir files ∈ s.pipe.workers →
    (∀ f ∈ files, s.pipe.tables.HasFile f.id dir.id) ∧
      (files = s.pipe.tables.dirFiles dir.id ∨ IsDirty s.pipe.tables dir.id)

theorem hasTrack_iff :
    s.HasTrack fileID ↔ ∃ key view, s.importer.db.trackAt key = some view ∧ key.1 = fileID := by
  constructor
  · rintro ⟨r, hr, rfl⟩
    obtain ⟨view, found⟩ := exists_trackAt hr
    exact ⟨r.key, view, found, rfl⟩
  · rintro ⟨key, view, found, rfl⟩
    exact exists_track found

/-- A file is in one dir. -/
theorem hasFile_unique (wf : t.WellFormed) {dirID' : UUID} (here : t.HasFile fileID dirID)
    (there : t.HasFile fileID dirID') : dirID = dirID' := by
  obtain ⟨f, hf, id, rfl⟩ := here
  obtain ⟨g, hg, same, rfl⟩ := there
  rw [wf.fileIDs.eq_of_key hf hg (id.trans same.symm)]

theorem hasFile_of_rowsOf {r : FileRow} (hr : r ∈ t.rowsOf dirID) : t.HasFile r.id dirID :=
  hasFile_iff_rowsOf.mpr (List.mem_map_of_mem hr)

/-! ### Steps of the pipeline -/

/-- A step after which swept dirs have nothing to read, and which gives up on settled dirs. -/
theorem Catalogued.follow (cat : s.Catalogued) {a : Metadata.Action} {pipe : Pipeline Unit}
    (grown : s.pipe.tables.Extends pipe.tables) (claims : pipe.Claims)
    (turn : QueueStep s.pipe a pipe)
    (swept : ∀ dirID, s.pipe.Sweeps a dirID → pipe.tables.dirFiles dirID = [] ∧
      ((s.follow pipe grown).Lists dirID → pipe.Due dirID) ∧
        ∀ x ∈ s.pipe.workers, x.Reads dirID → IsDirty s.pipe.tables dirID)
    (givenUp : ∀ dirID, s.pipe.GivesUp a dirID → s.Settled dirID) :
    (s.follow pipe grown).Catalogued := by
  have stays : ∀ dirID, s.Settled dirID → (s.follow pipe grown).Settled dirID ∨ pipe.Due dirID := by
    intro dirID settled
    rcases turn.rows dirID with same | dirty | sweeps
    · left
      intro r hr
      have files : pipe.tables.dirFiles dirID = s.pipe.tables.dirFiles dirID :=
        ScanTables.dirFiles_of_rowsOf same
      change _ ↔ r.id ∈ Importer.audioIDs (pipe.tables.dirFiles dirID)
      rw [files]
      exact settled r (same ▸ hr)
    · exact .inr (.inl dirty)
    · obtain ⟨none_, due, _⟩ := swept dirID sweeps
      by_cases lists : (s.follow pipe grown).Lists dirID
      · exact .inr (due lists)
      · left
        intro r hr
        change _ ↔ r.id ∈ Importer.audioIDs (pipe.tables.dirFiles dirID)
        rw [none_]
        refine iff_of_false ?_ (by simp [Importer.audioIDs])
        rintro ⟨tr, htr, same⟩
        exact lists ⟨tr, htr, same ▸ hasFile_of_rowsOf hr⟩
  refine ⟨claims, ?_, ?_, ?_⟩
  · exact fun key view found => turn.hasFile _ _ (cat.home key view found)
  · intro dirID
    rcases cat.settled dirID with settled | due
    · exact stays dirID settled
    · rcases turn.due dirID due with due | gives
      · exact .inr due
      · exact stays dirID (givenUp dirID gives)
  · intro dir files hx
    rcases turn.reads dir files hx with ⟨old, dirty⟩ | now
    · obtain ⟨inside, fresh⟩ := cat.reads dir files old
      refine ⟨fun f hf => turn.hasFile _ _ (inside f hf), ?_⟩
      rcases fresh with same | again
      · rcases turn.rows dir.id with rows | queued | sweeps
        · exact .inl (same.trans (ScanTables.dirFiles_of_rowsOf rows).symm)
        · exact .inr queued
        · obtain ⟨gone, _, readers⟩ := swept dir.id sweeps
          by_cases none_ : files = []
          · exact .inl (none_.trans gone.symm)
          · exact .inr (dirty (readers _ old ⟨rfl, none_⟩))
      · exact .inr (dirty again)
    · exact ⟨fun f hf => hasFile_of_dirFiles (now ▸ hf), .inl now⟩

theorem Catalogued.pipeline (cat : s.Catalogued) {a : Metadata.Action} {pipe : Pipeline Unit}
    (filed : s.Filed libs (.pipeline a)) (other : ∀ w, a ≠ .importDir w)
    (h : s.pipe.step (fun _ => ()) a = some pipe) :
    (s.follow pipe (step_extends h)).Catalogued := by
  have unheld : BeginsUnheld s.pipe a := by
    cases a with
    | beginScan loc now scanID => exact filed
    | _ =>
      intro _ _ hit
      cases hit
  have turn := step_queueStep cat.claims other h
  refine cat.follow _ (step_claims cat.claims unheld h) turn ?_ ?_
  · rintro dirID ⟨loc, rfl, swept⟩
    obtain ⟨due, readers⟩ := filed dirID swept
    refine ⟨dirFiles_of_sweep h swept, ?_, readers⟩
    rintro ⟨r, hr, there⟩
    refine (turn.due dirID (due ⟨r, hr, hasFile_of_sweep h there⟩)).resolve_right ?_
    rintro ⟨_, _, _, hit, _⟩
    cases hit
  · rintro dirID ⟨clean, w, dir, rfl, found, rfl⟩
    exact absurd (filed dir (mem_held found rfl) found) clean

/-! ### Steps of the library -/

/-- After an import a track is one of the result, or it was there under another dir. -/
theorem trackAt_of_import (imported : Importer.importResult rt res s.importer = .ok s'.importer)
    {key : UUID × Int} {view : TrackView} (there : s'.importer.db.trackAt key = some view) :
    (view.owner.1 = res.dirID ∧ key.1 ∈ Importer.trackedIDs res) ∨
      s.importer.db.trackAt key = some view ∧ view.owner.1 ≠ res.dirID := by
  refine (Importer.importResult_trackAt imported there).imp_left ?_
  rintro ⟨owner, pa, hpa, pt, hpt, rfl⟩
  exact ⟨owner, Importer.mem_trackedIDs.mpr ⟨pt, List.mem_flatMap.mpr ⟨pa, hpa, hpt⟩, rfl⟩⟩

/-- A dir that is filled has the tracks of its audio files. -/
theorem Catalogued.hasTrack_filled (cat : s.Catalogued)
    (imported : Importer.importResult rt res s.importer = .ok s'.importer) {files : List File}
    (covering : Importer.Covering files res) (twins : Importer.NoTwins rt s.importer res)
    (here : s.pipe.tables.HasFile fileID res.dirID) :
    s'.HasTrack fileID ↔ fileID ∈ Importer.audioIDs files := by
  rw [hasTrack_iff]
  constructor
  · rintro ⟨key, view, there, rfl⟩
    rcases trackAt_of_import imported there with ⟨_, listed⟩ | ⟨before, apart⟩
    · exact covering.only listed
    · exact absurd (hasFile_unique cat.claims.wellFormed (cat.home key view before) here) apart
  · intro listed
    obtain ⟨pt, hpt, same⟩ := Importer.mem_trackedIDs.mp (covering.all listed)
    obtain ⟨view, there, _⟩ := Importer.importResult_stores imported covering.distinct twins hpt
    exact ⟨pt.key, view, there, same⟩

/-- The files of other dirs have the tracks that they had. -/
theorem Catalogued.hasTrack_elsewhere (cat : s.Catalogued)
    (imported : Importer.importResult rt res s.importer = .ok s'.importer)
    (there : s.pipe.tables.HasFile fileID dirID) (apart : dirID ≠ res.dirID)
    (absent : fileID ∉ Importer.trackedIDs res) : s'.HasTrack fileID ↔ s.HasTrack fileID := by
  rw [hasTrack_iff, hasTrack_iff]
  constructor
  · rintro ⟨key, view, after, rfl⟩
    rcases trackAt_of_import imported after with ⟨_, listed⟩ | ⟨before, _⟩
    · exact absurd listed absent
    · exact ⟨key, view, before, rfl⟩
  · rintro ⟨key, view, before, rfl⟩
    refine ⟨key, view, Importer.importResult_keeps imported before ?_ ?_, rfl⟩
    · intro owner
      exact apart (hasFile_unique cat.claims.wellFormed there (owner ▸ cat.home key view before))
    · intro listed
      obtain ⟨pt, hpt, keys⟩ := List.mem_map.mp listed
      exact absent (Importer.mem_trackedIDs.mpr ⟨pt, hpt, congrArg Prod.fst keys⟩)

/-- After an import the dir has the tracks of what was read, and other dirs have theirs. -/
theorem Catalogued.importDir (cat : s.Catalogued) {w : Nat}
    (filed : ∀ x ∈ s.pipe.workers[w]?, s.Fills rt res x) (h : s.importDir rt w res = some s') :
    s'.Catalogued := by
  obtain ⟨dir, files, found, ⟨ofDir, fromFiles⟩, imported, pipe⟩ := importDir_cases h
  obtain ⟨inside, fresh⟩ := cat.reads dir files (List.mem_of_getElem? found)
  have tables : s'.pipe.tables = s.pipe.tables := by rw [pipe]; rfl
  have parsedHere : ∀ fileID ∈ Importer.trackedIDs res, s.pipe.tables.HasFile fileID dir.id := by
    intro fileID listed
    obtain ⟨pt, hpt, rfl⟩ := Importer.mem_trackedIDs.mp listed
    obtain ⟨pa, hpa, inAlbum⟩ := List.mem_flatMap.mp hpt
    obtain ⟨f, hf, same⟩ := List.mem_map.mp (fromFiles pa hpa pt inAlbum)
    exact same ▸ inside f hf
  refine ⟨?_, ?_, ?_, ?_⟩
  · rw [pipe]
    exact cat.claims.worker found rfl
  · intro key view there
    rw [tables]
    rcases trackAt_of_import imported there with ⟨owner, listed⟩ | ⟨before, _⟩
    · rw [owner, ofDir]
      exact parsedHere _ listed
    · exact cat.home key view before
  · intro dirID
    by_cases here : dirID = dir.id
    · subst here
      by_cases queued : IsDirty s.pipe.tables dir.id
      · exact .inr (.inl (tables ▸ queued))
      · left
        obtain ⟨covering, twins⟩ := (filed _ found).resolve_left queued
        obtain rfl := fresh.resolve_right queued
        intro r hr
        rw [tables] at hr ⊢
        exact cat.hasTrack_filled imported covering twins (ofDir ▸ hasFile_of_rowsOf hr)
    · rcases cat.settled dirID with settled | due
      · left
        intro r hr
        rw [tables] at hr ⊢
        rw [← settled r hr]
        have there := hasFile_of_rowsOf hr
        refine cat.hasTrack_elsewhere imported there (ofDir ▸ here) fun listed => ?_
        exact here (hasFile_unique cat.claims.wellFormed there (parsedHere _ listed))
      · right
        rw [pipe]
        refine due.imp_right fun ⟨locked, unlanded⟩ => ⟨locked, fun x hx => ?_⟩
        rcases mem_setWorker found hx with rfl | old
        · simpa [Worker.landed] using Ne.symm here
        · exact unlanded x (List.mem_of_mem_eraseIdx old)
  · intro dir' files' hx
    rw [tables]
    rw [pipe] at hx
    rcases mem_setWorker found hx with same | old
    · cases same
    · exact cat.reads dir' files' (List.mem_of_mem_eraseIdx old)

/-- Writes of the library that keep the tracks. -/
theorem Catalogued.sameTracks (cat : s.Catalogued) (pipe : s'.pipe = s.pipe)
    (kept : Database.Keeps Importer.rows s.importer.db s'.importer.db) : s'.Catalogued := by
  have same := Importer.trackAt_of_rows kept
  have tracks : ∀ fileID, s'.HasTrack fileID ↔ s.HasTrack fileID := by
    intro fileID
    rw [hasTrack_iff, hasTrack_iff]
    simp only [same]
  refine ⟨pipe ▸ cat.claims, ?_, ?_, pipe ▸ cat.reads⟩
  · intro key view found
    rw [pipe]
    exact cat.home key view (same key ▸ found)
  · intro dirID
    unfold Settled
    simp only [tracks, pipe]
    exact cat.settled dirID

theorem step_catalogued {a : Action} (cat : s.Catalogued) (filed : s.Filed libs a)
    (h : s.step libs a = some s') : s'.Catalogued := by
  cases a with
  | insertLocation id uri =>
    obtain ⟨t, inserted, rfl⟩ := insertLocation_cases h
    obtain ⟨dirs, files⟩ := ScanTables.insertLocation_frame inserted
    have turn : QueueStep s.pipe .timerFires { s.pipe with tables := t } := .idle dirs files rfl
    refine cat.follow _ ?_ turn ?_ ?_
    · refine cat.claims.frame ((ScanTables.insertLocation_extends inserted).wellFormed
        cat.claims.wellFormed) (.refl _) fun c _ locked => ?_
      rw [LockedFor, dirs]
      exact locked
    · rintro dirID ⟨_, hit, _⟩
      cases hit
    · rintro dirID ⟨_, _, _, hit, _⟩
      cases hit
  | restart now n =>
    cases h
    refine ⟨start_claims (ScanTables.abortRunningScans_wellFormed now cat.claims.wellFormed) _ n,
      cat.home, ?_, ?_⟩
    · intro dirID
      refine (cat.settled dirID).imp_right fun due => due.imp_right fun held => ?_
      refine ⟨held.1, fun x hx => ?_⟩
      rw [List.eq_of_mem_replicate hx]
      simp [Worker.landed]
    · intro dir files hx
      cases List.eq_of_mem_replicate hx
  | pipeline a =>
    obtain ⟨pipe, taken, other, rfl⟩ := pipeline_cases h
    exact cat.pipeline filed other taken
  | importDir w res minted => exact cat.importDir filed h
  | internArtist name minted =>
    obtain ⟨interned, pipe⟩ := internArtist_cases h
    exact cat.sameTracks pipe interned.keeps
  | addImage img =>
    obtain ⟨kept, pipe⟩ := addImage_cases h
    exact cat.sameTracks pipe kept

theorem empty_catalogued (n : Nat) : (empty n).Catalogued := by
  refine ⟨start_claims ScanTables.empty_wellFormed _ n, ?_, ?_, ?_⟩
  · exact fun key view found => nomatch found
  · intro dirID
    exact .inl fun r hr => nomatch hr
  · intro dir files hx
    cases List.eq_of_mem_replicate hx

theorem Drained.not_due (drained : s.Drained) : ¬s.pipe.Due dirID := by
  rintro (⟨d, hd, _, dirty⟩ | ⟨⟨d, hd, _, locked⟩, _⟩)
  · rw [(drained d hd).1] at dirty
    cases dirty
  · rw [(drained d hd).2] at locked
    cases locked

theorem Catalogued.exact (cat : s.Catalogued) (drained : s.Drained) : s.Exact := by
  constructor
  · intro r hr
    obtain ⟨view, found⟩ := exists_trackAt hr
    obtain ⟨f, hf, id, _⟩ := cat.home _ view found
    exact ⟨f, hf, id⟩
  · intro f hf
    have row : f ∈ s.pipe.tables.rowsOf f.dirID := List.mem_filter.mpr ⟨hf, by simp⟩
    rw [(cat.settled f.dirID).resolve_right drained.not_due f row, Importer.mem_audioIDs]
    constructor
    · rintro ⟨g, hg, id, audio⟩
      obtain ⟨r, hr, live, rfl⟩ := mem_dirFiles.mp hg
      obtain rfl := cat.claims.wellFormed.fileIDs.eq_of_key (List.mem_filter.mp hr).1 hf id
      exact ⟨live, audio⟩
    · rintro ⟨live, audio⟩
      exact ⟨ScanTables.scanFile f, mem_dirFiles.mpr ⟨f, row, live, rfl⟩, rfl, audio⟩

end Ingest

end Byom.Metadata
