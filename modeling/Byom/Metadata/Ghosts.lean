import Byom.Metadata.Freshness
import Byom.Metadata.Ingest

/-!
# Tracks of missing files

A file that `SyncDir` finds gone makes its dir dirty, and the parse that follows
takes its tracks out of the library. `Sweep` marks the files of a dir that is gone
as a whole, and queues nothing.
-/

namespace Byom.Metadata

open Storage Relational Library Sqlite Transition

namespace Worker

/-- The claim of a worker whose import is in the library. -/
def landed : Worker → Option ClaimedDir
  | .imported dir => some dir
  | .cleared dir => some dir
  | _ => none

/-- The worker has read files of the dir and not imported them. -/
def Reads (dirID : UUID) : Worker → Prop
  | .read dir files => dir.id = dirID ∧ files ≠ []
  | _ => False

instance (dirID : UUID) : DecidablePred (Reads dirID)
  | .read _ _ => inferInstanceAs (Decidable (_ ∧ _))
  | .idle | .claimed _ | .imported _ | .cleared _ | .failed _ | .givingUp _ | .redirtying _
  | .redirtied => .isFalse id

theorem claim_of_landed {x : Worker} {dir : ClaimedDir} (h : x.landed = some dir) :
    x.claim = some dir := by
  cases x <;> simp_all [landed, claim]

end Worker

namespace Pipeline

variable {Import : Type}

def IsLocked (t : ScanTables) (dirID : UUID) : Prop :=
  ∃ d ∈ t.dirs, d.id = dirID ∧ d.lockedGeneration.isSome

/-- The dir is queued, or claimed by a parse that has not imported it. -/
def Due (p : Pipeline Import) (dirID : UUID) : Prop :=
  IsDirty p.tables dirID ∨
    IsLocked p.tables dirID ∧ ∀ x ∈ p.workers, x.landed.map ClaimedDir.id ≠ some dirID

/-- The dirs that the sweep of a location marks missing. -/
def sweeps (p : Pipeline Import) (loc : UUID) : List UUID :=
  match p.scanning.find? fun r => r.locationID = loc with
  | none => []
  | some run => (p.tables.dirs.filter (ScanTables.unseen loc run.gen)).map DirRow.id

/-- A file of the dir is missing. -/
def LostFiles (t : ScanTables) (dirID : UUID) : Prop :=
  ∃ f ∈ t.files, f.dirID = dirID ∧ f.missing = true

/-- The file is in the dir and missing. -/
def GoneFrom (t : ScanTables) (fileID dirID : UUID) : Prop :=
  ∃ f ∈ t.files, f.id = fileID ∧ f.dirID = dirID ∧ f.missing = true

theorem IsLocked.updateWhere {t t' : ScanTables} {dirID : UUID} {p : DirRow → Bool} {set : DirRow → DirRow}
    (locked : IsLocked t dirID) (dirs : t'.dirs = updateWhere p set t.dirs)
    (ids : ∀ d, (set d).id = d.id)
    (keeps : ∀ d ∈ t.dirs, d.id = dirID → p d = true → d.lockedGeneration.isSome →
      (set d).lockedGeneration.isSome) : IsLocked t' dirID := by
  obtain ⟨d, hd, same, lock⟩ := locked
  refine ⟨if p d then set d else d, ?_, ?_⟩
  · rw [dirs]
    exact mem_updateWhere.mpr ⟨d, hd, rfl⟩
  · by_cases hit : p d = true
    · rw [if_pos hit, ids]
      exact ⟨same, keeps d hd same hit lock⟩
    · rw [if_neg hit]
      exact ⟨same, lock⟩

instance (t : ScanTables) (dirID : UUID) : Decidable (IsDirty t dirID) :=
  inferInstanceAs (Decidable (∃ d ∈ t.dirs, _ ∧ _))

instance (t : ScanTables) (dirID : UUID) : Decidable (IsLocked t dirID) :=
  inferInstanceAs (Decidable (∃ d ∈ t.dirs, _ ∧ _))

instance (p : Pipeline Import) (dirID : UUID) : Decidable (Due p dirID) :=
  inferInstanceAs (Decidable (_ ∨ _ ∧ ∀ x ∈ p.workers, _))

instance (t : ScanTables) (dirID : UUID) : Decidable (LostFiles t dirID) :=
  inferInstanceAs (Decidable (∃ f ∈ t.files, _ ∧ _))

instance (t : ScanTables) (fileID dirID : UUID) : Decidable (GoneFrom t fileID dirID) :=
  inferInstanceAs (Decidable (∃ f ∈ t.files, _ ∧ _ ∧ _))

/-! ### Due dirs and the statements of the queue -/

section Queue

variable {p p' : Pipeline Import} {t t' : ScanTables} {x y : Worker} {dir : ClaimedDir}
  {dirID : UUID} {picked : List UUID} {limit w : Nat}

theorem Claims.notPicked (claims : p.Claims) (picks : p.tables.Picks limit picked)
    (hx : x ∈ p.workers) (holds : x.claim = some dir) : dir.id ∉ picked := by
  obtain ⟨w, found⟩ := List.mem_iff_getElem?.mp hx
  exact claims.fresh picks dir (mem_held found holds)

theorem IsDirty.dirtyDirs (dirty : IsDirty t dirID) (other : dirID ∉ picked) :
    IsDirty (t.dirtyDirs picked).1 dirID := by
  refine dirty.updateWhere rfl (fun _ => rfl) fun d _ same hit => ?_
  exact absurd (by simpa [same] using hit) other

/-- A claim that is taken was of an unlocked dir, which no worker has imported. -/
theorem Due.dirtyDirs (claims : p.Claims) (picks : p.tables.Picks limit picked)
    (tables : p'.tables = (p.tables.dirtyDirs picked).1) (workers : p'.workers = p.workers)
    (due : p.Due dirID) : p'.Due dirID := by
  unfold Due
  rw [tables, workers]
  by_cases taken : dirID ∈ picked
  · right
    obtain ⟨_, _, free⟩ := dirtyDirs_claim claims.wellFormed picks
    obtain ⟨d, hd, rfl, _⟩ := free dirID taken
    refine ⟨⟨{ d with dirty := false, lockedGeneration := some d.seenGeneration }, ?_, rfl, rfl⟩,
      ?_⟩
    · exact mem_updateWhere.mpr ⟨d, hd, by simp [taken]⟩
    · intro x hx same
      obtain ⟨dir, landed, id⟩ := Option.map_eq_some_iff.mp same
      exact claims.notPicked picks hx (Worker.claim_of_landed landed) (id ▸ taken)
  · rcases due with queued | ⟨locked, unlanded⟩
    · exact .inl (queued.dirtyDirs taken)
    · refine .inr ⟨locked.updateWhere rfl (fun _ => rfl) ?_, unlanded⟩
      exact fun _ _ _ _ _ => rfl

/-- A release unlocks no other dir. -/
theorem Due.release {set : DirRow → DirRow} (due : p.Due dirID)
    (found : p.workers[w]? = some x) (quiet : y.landed = none)
    (dirs : t.dirs = updateWhere (ScanTables.lockedBy dir.id dir.lockedGeneration) set
      p.tables.dirs)
    (ids : ∀ d, (set d).id = d.id) (keeps : ∀ d, d.dirty = true → (set d).dirty = true)
    (other : dir.id ≠ dirID) : Due { p with workers := p.workers.set w y, tables := t } dirID := by
  rcases due with queued | ⟨locked, unlanded⟩
  · exact .inl (queued.updateWhere dirs ids fun d _ _ _ => keeps d)
  · refine .inr ⟨locked.updateWhere dirs ids ?_, ?_⟩
    · intro d _ same hit
      exact absurd ((lockedBy_iff.mp hit).1.symm.trans same) other
    · intro z hz
      rcases mem_setWorker found hz with rfl | old
      · simp [quiet]
      · exact unlanded z (List.mem_of_mem_eraseIdx old)

theorem isDirty_of_redirty {gen : Int} (released : t.releaseAndRedirty dirID gen = .ok t') :
    IsDirty t' dirID := by
  obtain ⟨⟨row, hrow, id, lock⟩, rfl⟩ := ScanTables.releaseAndRedirty_spec released
  refine ⟨{ row with lockedGeneration := none, dirty := true }, ?_, id, rfl⟩
  exact mem_updateWhere.mpr ⟨row, hrow, by simp [lockedBy_iff.mpr ⟨id, lock⟩]⟩

end Queue

end Pipeline

open Pipeline

namespace Ingest

/-- The parse queue is drained. -/
def Drained (s : Ingest) : Prop :=
  ∀ d ∈ s.pipe.tables.dirs, d.dirty = false ∧ d.lockedGeneration = none

/-- No track refers to a missing file. -/
def NoGhosts (s : Ingest) : Prop :=
  ∀ t ∈ s.importer.db.library.tracks, ∀ f ∈ s.pipe.tables.files, f.id = t.fileID →
    f.missing = false

/-- The library has a track of a file of the dir. -/
def Lists (s : Ingest) (dirID : UUID) : Prop :=
  ∃ t ∈ s.importer.db.library.tracks, s.pipe.tables.HasFile t.fileID dirID

/-- It has a track of a missing file of the dir. -/
def ListsGone (s : Ingest) (dirID : UUID) : Prop :=
  ∃ t ∈ s.importer.db.library.tracks, GoneFrom s.pipe.tables t.fileID dirID

/-- A scan begins while no claim on its location is out, `Sweep` takes no dir away that
is in the library or being parsed, and no dir of the library that lost files is given up on,
unless the dir is to be parsed again. -/
def Heeded (s : Ingest) : Action → Prop
  | .pipeline (.beginScan loc now scanID) => s.pipe.BeginsUnheld (.beginScan loc now scanID)
  | .pipeline (.sweep loc) => ∀ dirID ∈ s.pipe.sweeps loc, (s.Lists dirID → s.pipe.Due dirID) ∧
      ∀ x ∈ s.pipe.workers, x.Reads dirID → IsDirty s.pipe.tables dirID
  | .pipeline (.releaseDir w) => ∀ dir ∈ s.pipe.held,
      s.pipe.workers[w]? = some (.givingUp dir) → s.Lists dir.id →
        LostFiles s.pipe.tables dir.id → IsDirty s.pipe.tables dir.id
  | _ => True

instance (s : Ingest) (dirID : UUID) : Decidable (s.Lists dirID) :=
  inferInstanceAs (Decidable (∃ t ∈ s.importer.db.library.tracks, _))

instance : DecidablePred NoGhosts := fun s =>
  inferInstanceAs (Decidable (∀ t ∈ s.importer.db.library.tracks, ∀ f ∈ s.pipe.tables.files, _))

instance : DecidablePred Drained := fun s =>
  inferInstanceAs (Decidable (∀ d ∈ s.pipe.tables.dirs, _ ∧ _))

instance (s : Ingest) : DecidablePred s.Heeded
  | .pipeline (.beginScan loc now scanID) =>
    inferInstanceAs (Decidable (s.pipe.BeginsUnheld (.beginScan loc now scanID)))
  | .pipeline (.sweep loc) =>
    -- over the list, not over all 128-bit numbers
    List.decidableBAll (fun dirID => (s.Lists dirID → s.pipe.Due dirID) ∧
      ∀ x ∈ s.pipe.workers, x.Reads dirID → IsDirty s.pipe.tables dirID) (s.pipe.sweeps loc)
  | .pipeline (.releaseDir _) => inferInstanceAs (Decidable (∀ dir ∈ s.pipe.held, _))
  | .pipeline (.syncDir ..) | .pipeline (.onDirty _) | .pipeline (.finishScan ..)
  | .pipeline .receiveToken | .pipeline (.dirtyDirs _) | .pipeline .send | .pipeline (.receive _)
  | .pipeline (.fail _) | .pipeline (.dirFiles _) | .pipeline (.importDir _)
  | .pipeline (.clearAttempts _) | .pipeline (.recordFailure _)
  | .pipeline (.releaseAndRedirty _) | .pipeline (.releaseError _) | .pipeline (.armRetry _)
  | .pipeline (.skipRetry _) | .pipeline .timerFires
  | .insertLocation .. | .restart .. | .importDir .. | .internArtist .. | .addImage _ =>
    .isTrue trivial

/-! ### The invariant -/

/-- The files a worker has read are in the dir, and if one has gone since, the dir is
dirty. -/
def ReadsLive (t : ScanTables) : Worker → Prop
  | .read dir files => ∀ f ∈ files, t.HasFile f.id dir.id ∧
      (GoneFrom t f.id dir.id → IsDirty t dir.id)
  | _ => True

structure Accounts (s : Ingest) : Prop where
  claims : s.pipe.Claims
  home : ∀ key view, s.importer.db.trackAt key = some view →
    s.pipe.tables.HasFile key.1 view.owner.1
  due : ∀ key view dirID, s.importer.db.trackAt key = some view →
    GoneFrom s.pipe.tables key.1 dirID → s.pipe.Due dirID
  reads : ∀ x ∈ s.pipe.workers, ReadsLive s.pipe.tables x

variable {libs : Libraries} {rt : Runtime} {s s' : Ingest} {t t' : ScanTables} {x y : Worker}

theorem exists_trackAt {db : Database} {r : TrackRow} (hr : r ∈ db.library.tracks) :
    ∃ view, db.trackAt r.key = some view := by
  obtain ⟨owner, owned⟩ := Database.exists_albumKey hr
  exact ⟨⟨r.id, owner, r.details⟩, Database.trackAt_eq_some_iff.mpr ⟨r, hr, rfl, rfl, rfl, owned⟩⟩

theorem exists_track {db : Database} {key : UUID × Int} {view : TrackView}
    (found : db.trackAt key = some view) : ∃ r ∈ db.library.tracks, r.fileID = key.1 := by
  obtain ⟨r, hr, same, _⟩ := Database.trackAt_eq_some_iff.mp found
  exact ⟨r, hr, congrArg Prod.fst same⟩

theorem ReadsLive.keep (live : ReadsLive t x)
    (hasFile : ∀ fileID dirID, t.HasFile fileID dirID → t'.HasFile fileID dirID)
    (gone : ∀ dir, x.claim = some dir → ∀ fileID, x.Reads dir.id → t.HasFile fileID dir.id →
      GoneFrom t' fileID dir.id → GoneFrom t fileID dir.id ∨ IsDirty t' dir.id)
    (dirty : ∀ dir, x.claim = some dir → IsDirty t dir.id → IsDirty t' dir.id) :
    ReadsLive t' x := by
  cases x with
  | read dir files =>
    intro f hf
    obtain ⟨inside, left⟩ := live f hf
    refine ⟨hasFile _ _ inside, fun after => ?_⟩
    rcases gone dir rfl f.id ⟨rfl, List.ne_nil_of_mem hf⟩ inside after with before | queued
    · exact dirty dir rfl (left before)
    · exact queued
  | idle => trivial
  | claimed dir => trivial
  | imported dir => trivial
  | cleared dir => trivial
  | failed dir => trivial
  | givingUp dir => trivial
  | redirtying dir => trivial
  | redirtied => trivial

/-- A step that accounts for what has gone, and whose workers have read what is there. -/
theorem Accounts.follow (acc : s.Accounts) {pipe : Pipeline Unit}
    (grown : s.pipe.tables.Extends pipe.tables) (claims : pipe.Claims)
    (hasFile : ∀ fileID dirID, s.pipe.tables.HasFile fileID dirID → pipe.tables.HasFile fileID dirID)
    (due : ∀ key view dirID, s.importer.db.trackAt key = some view →
      GoneFrom pipe.tables key.1 dirID → pipe.Due dirID)
    (reads : ∀ x ∈ pipe.workers, ReadsLive pipe.tables x) : (s.follow pipe grown).Accounts where
  claims := claims
  home := fun key view found => hasFile _ _ (acc.home key view found)
  due := due
  reads := reads

/-- Steps that leave the file rows alone. -/
theorem Accounts.queueWrite (acc : s.Accounts) {pipe : Pipeline Unit}
    (grown : s.pipe.tables.Extends pipe.tables) (claims : pipe.Claims)
    (files : pipe.tables.files = s.pipe.tables.files)
    (due : ∀ dirID, (s.ListsGone dirID → s.pipe.Due dirID) → s.ListsGone dirID → pipe.Due dirID)
    (reads : ∀ x ∈ pipe.workers, ReadsLive pipe.tables x ∨ x ∈ s.pipe.workers ∧
      ∀ dir, x.claim = some dir → IsDirty s.pipe.tables dir.id → IsDirty pipe.tables dir.id) :
    (s.follow pipe grown).Accounts := by
  have gone : ∀ fileID dirID, GoneFrom pipe.tables fileID dirID →
      GoneFrom s.pipe.tables fileID dirID := by
    intro fileID dirID
    rw [GoneFrom, files]
    exact id
  have hasFile : ∀ fileID dirID, s.pipe.tables.HasFile fileID dirID →
      pipe.tables.HasFile fileID dirID := by
    intro fileID dirID has
    rw [ScanTables.HasFile, files]
    exact has
  refine acc.follow grown claims hasFile ?_ ?_
  · intro key view dirID found left
    obtain ⟨r, hr, same⟩ := exists_track found
    refine due dirID ?_ ⟨r, hr, same ▸ gone _ _ left⟩
    rintro ⟨r', hr', left'⟩
    obtain ⟨view', found'⟩ := exists_trackAt hr'
    exact acc.due _ view' dirID found' left'
  · intro x hx
    rcases reads x hx with live | ⟨old, dirty⟩
    · exact live
    · exact (acc.reads x old).keep hasFile (fun _ _ _ _ _ left => .inl (gone _ _ left)) dirty

/-- Steps that write no dir and no file row. -/
theorem Accounts.frame (acc : s.Accounts) {pipe : Pipeline Unit}
    (grown : s.pipe.tables.Extends pipe.tables) (claims : pipe.Claims)
    (dirs : pipe.tables.dirs = s.pipe.tables.dirs)
    (files : pipe.tables.files = s.pipe.tables.files)
    (landed : ∀ x ∈ pipe.workers, x.landed ≠ none → ∃ z ∈ s.pipe.workers, z.landed = x.landed)
    (reads : ∀ x ∈ pipe.workers, ReadsLive pipe.tables x ∨ x ∈ s.pipe.workers) :
    (s.follow pipe grown).Accounts := by
  have dirty : ∀ dirID, IsDirty s.pipe.tables dirID → IsDirty pipe.tables dirID := by
    intro dirID
    rw [IsDirty, IsDirty, dirs]
    exact id
  refine acc.queueWrite grown claims files ?_ ?_
  · intro dirID due left
    rcases due left with queued | ⟨locked, unlanded⟩
    · exact .inl (dirty dirID queued)
    · refine .inr ⟨by rw [IsLocked, dirs]; exact locked, ?_⟩
      intro x hx same
      obtain ⟨z, hz, there⟩ := landed x hx (by rintro none_; simp [none_] at same)
      exact unlanded z hz (there ▸ same)
  · exact fun x hx => (reads x hx).imp_right fun old => ⟨old, fun dir _ => dirty dir.id⟩

/-- Steps in memory, and of tables that are neither dirs nor files. -/
theorem Accounts.idle (acc : s.Accounts) {pipe : Pipeline Unit}
    (grown : s.pipe.tables.Extends pipe.tables) (claims : pipe.Claims)
    (dirs : pipe.tables.dirs = s.pipe.tables.dirs)
    (files : pipe.tables.files = s.pipe.tables.files) (workers : pipe.workers = s.pipe.workers) :
    (s.follow pipe grown).Accounts := by
  refine acc.frame grown claims dirs files ?_ ?_
  · exact fun x hx _ => ⟨x, workers ▸ hx, rfl⟩
  · exact fun x hx => .inr (workers ▸ hx)

/-- Steps of one worker, in memory. -/
theorem Accounts.worker (acc : s.Accounts) {pipe : Pipeline Unit} {w : Nat}
    (grown : s.pipe.tables.Extends pipe.tables) (claims : pipe.Claims)
    (tables : pipe.tables = s.pipe.tables) (found : s.pipe.workers[w]? = some x)
    (workers : pipe.workers = s.pipe.workers.set w y)
    (landed : y.landed = none ∨ y.landed = x.landed) (reads : ReadsLive s.pipe.tables y) :
    (s.follow pipe grown).Accounts := by
  have member : ∀ z ∈ pipe.workers, z = y ∨ z ∈ s.pipe.workers := by
    intro z hz
    rw [workers] at hz
    exact (mem_setWorker found hz).imp_right fun old => List.mem_of_mem_eraseIdx old
  refine acc.frame grown claims (by rw [tables]) (by rw [tables]) ?_ ?_
  · intro z hz some_
    rcases member z hz with rfl | old
    · exact ⟨x, List.mem_of_getElem? found, (landed.resolve_left some_).symm⟩
    · exact ⟨z, old, rfl⟩
  · intro z hz
    rcases member z hz with rfl | old
    · rw [tables]
      exact .inl reads
    · exact .inr old

/-! ### The two ways a file goes -/

/-- What `SyncDir` marks missing is in a dir that it makes dirty. -/
theorem syncDir_gone {newDirID d : UUID} {newFileID : Path → UUID} {p : Scan.SyncPayload}
    (inside : t.MissingInside p) (h : t.syncDir newDirID newFileID p = .ok (t', d))
    (truthful : p.dirty = true ∨ t'.files = t.files) {fileID dirID : UUID}
    (gone : GoneFrom t' fileID dirID) : GoneFrom t fileID dirID ∨ IsDirty t' dirID := by
  obtain ⟨f, hf, id, rfl, missing⟩ := gone
  rcases truthful with dirty | same
  · by_cases here : f.dirID = d
    · exact .inr (here ▸ isDirty_of_payload h dirty)
    · left
      have row : f ∈ t'.rowsOf f.dirID := List.mem_filter.mpr ⟨hf, by simp⟩
      rw [ScanTables.syncDir_rowsOf_ne inside h here] at row
      exact ⟨f, (List.mem_filter.mp row).1, id, rfl, missing⟩
  · exact .inl ⟨f, same ▸ hf, id, rfl, missing⟩

/-- What `Sweep` marks missing is in a dir that it marks missing. -/
theorem sweep_gone {loc : UUID} {gen : Int} {fileID dirID : UUID}
    (gone : GoneFrom (t.sweep loc gen).1 fileID dirID) : GoneFrom t fileID dirID ∨
      t.HasFile fileID dirID ∧ dirID ∈ (t.dirs.filter (ScanTables.unseen loc gen)).map DirRow.id := by
  obtain ⟨f, hf, id, owner, missing⟩ := gone
  obtain ⟨old, hold, rfl⟩ := mem_updateWhere.mp hf
  by_cases swept : old.dirID ∈ (t.dirs.filter (ScanTables.unseen loc gen)).map DirRow.id
  · simp only [swept, decide_true, if_true] at id owner
    exact .inr ⟨⟨old, hold, id, owner⟩, owner ▸ swept⟩
  · simp only [swept, decide_false, Bool.false_eq_true, if_false] at id owner missing
    exact .inl ⟨old, hold, id, owner, missing⟩

theorem sweeps_of_sweep {p p' : Pipeline Unit} {loc : UUID} (h : p.sweep loc = some p') :
    ∃ gen, p' = { p with tables := (p.tables.sweep loc gen).1 } ∧
      p.sweeps loc = (p.tables.dirs.filter (ScanTables.unseen loc gen)).map DirRow.id := by
  obtain ⟨run, found, rest⟩ := Option.bind_eq_some_iff.mp h
  split at rest
  · cases rest
  · cases rest
    exact ⟨run.gen, rfl, by rw [sweeps, found]⟩

/-! ### Steps of the pipeline -/

section Steps

variable {pipe : Pipeline Unit} {w : Nat}

/-- Of locks that are reset the dirs become dirty. -/
theorem Accounts.beginScan (acc : s.Accounts) {loc : UUID} {now : Int} {scanID : UUID}
    (grown : s.pipe.tables.Extends pipe.tables) (claims : pipe.Claims)
    (h : s.pipe.beginScan loc now scanID = some pipe) : (s.follow pipe grown).Accounts := by
  obtain ⟨t, gen, began, rfl⟩ := beginScan_cases h
  obtain ⟨_, files, dirs, _⟩ := ScanTables.beginScan_spec began
  have dirty : ∀ dirID, IsDirty s.pipe.tables dirID → IsDirty t dirID :=
    fun dirID queued => queued.updateWhere dirs (fun _ => rfl) fun _ _ _ _ _ => rfl
  refine acc.queueWrite grown claims files ?_ ?_
  · intro dirID due left
    rcases due left with queued | ⟨⟨d, hd, same, locked⟩, unlanded⟩
    · exact .inl (dirty dirID queued)
    · by_cases here : d.locationID = loc
      · left
        refine ⟨{ d with lockedGeneration := none, dirty := true }, ?_, same, rfl⟩
        rw [dirs]
        exact mem_updateWhere.mpr ⟨d, hd, by simp [here, locked]⟩
      · refine .inr ⟨⟨d, ?_, same, locked⟩, unlanded⟩
        rw [dirs]
        exact mem_updateWhere.mpr ⟨d, hd, by simp [here]⟩
  · exact fun x hx => .inr ⟨hx, fun dir _ => dirty dir.id⟩

theorem Accounts.syncDir (acc : s.Accounts) {newDirID : UUID} {newFileID : Path → UUID}
    {p : Scan.SyncPayload} (grown : s.pipe.tables.Extends pipe.tables) (claims : pipe.Claims)
    (h : s.pipe.syncDir newDirID newFileID p = some pipe) : (s.follow pipe grown).Accounts := by
  obtain ⟨inside, t, d, synced, truthful, rfl⟩ := syncDir_cases h
  have hasFile : ∀ fileID dirID, s.pipe.tables.HasFile fileID dirID → t.HasFile fileID dirID :=
    fun _ _ => ScanTables.syncDir_hasFile synced
  have locked : ∀ dirID, IsLocked s.pipe.tables dirID → IsLocked t dirID := by
    rintro dirID ⟨row, hrow, same, lock⟩
    refine ⟨_, ScanTables.syncDir_dirs synced ▸ upsertOn_keeps hrow, ?_, ?_⟩
    · split <;> exact same
    · split <;> exact lock
  refine acc.follow grown claims hasFile ?_ ?_
  · intro key view dirID found after
    rcases syncDir_gone inside synced truthful after with before | queued
    · rcases acc.due key view dirID found before with queued | ⟨lock, unlanded⟩
      · exact .inl (IsDirty.syncDir synced queued)
      · exact .inr ⟨locked dirID lock, unlanded⟩
    · exact .inl queued
  · intro x hx
    exact (acc.reads x hx).keep hasFile (fun dir _ _ _ _ => syncDir_gone inside synced truthful)
      fun dir _ => IsDirty.syncDir synced

theorem Accounts.sweep (acc : s.Accounts) {loc : UUID} (heeded : s.Heeded (.pipeline (.sweep loc)))
    (grown : s.pipe.tables.Extends pipe.tables) (claims : pipe.Claims)
    (h : s.pipe.sweep loc = some pipe) : (s.follow pipe grown).Accounts := by
  obtain ⟨gen, rfl, swept⟩ := sweeps_of_sweep h
  have hasFile : ∀ fileID dirID, s.pipe.tables.HasFile fileID dirID →
      (s.pipe.tables.sweep loc gen).1.HasFile fileID dirID :=
    fun _ _ has => has.of_sameRows (ScanTables.sweep_sameRows loc gen _)
  have dirty : ∀ dirID, IsDirty s.pipe.tables dirID →
      IsDirty (s.pipe.tables.sweep loc gen).1 dirID :=
    fun _ queued => queued.updateWhere rfl (fun _ => rfl) fun _ _ _ _ flag => flag
  have due : ∀ dirID, s.pipe.Due dirID →
      Due { s.pipe with tables := (s.pipe.tables.sweep loc gen).1 } dirID := by
    rintro dirID (queued | ⟨locked, unlanded⟩)
    · exact .inl (dirty dirID queued)
    · exact .inr ⟨locked.updateWhere rfl (fun _ => rfl) fun _ _ _ _ lock => lock, unlanded⟩
  refine acc.follow grown claims hasFile ?_ ?_
  · intro key view dirID found after
    apply due
    rcases sweep_gone after with before | ⟨inside, marked⟩
    · exact acc.due key view dirID found before
    · obtain ⟨r, hr, same⟩ := exists_track found
      exact (heeded dirID (swept ▸ marked)).1 ⟨r, hr, same ▸ inside⟩
  · intro x hx
    refine (acc.reads x hx).keep hasFile ?_ fun dir _ => dirty dir.id
    intro dir _ fileID reads _ after
    rcases sweep_gone after with before | ⟨_, marked⟩
    · exact .inl before
    · exact .inr (dirty dir.id ((heeded dir.id (swept ▸ marked)).2 x hx reads))

theorem Accounts.dirtyDirs (acc : s.Accounts) {picked : List UUID}
    (grown : s.pipe.tables.Extends pipe.tables) (claims : pipe.Claims)
    (h : s.pipe.dirtyDirs picked = some pipe) : (s.follow pipe grown).Accounts := by
  obtain ⟨_, picks, rfl⟩ := dirtyDirs_cases h
  refine acc.queueWrite grown claims rfl ?_ ?_
  · exact fun dirID due left => (due left).dirtyDirs acc.claims picks rfl rfl
  · intro x hx
    exact .inr ⟨hx, fun dir holds dirty => dirty.dirtyDirs (acc.claims.notPicked picks hx holds)⟩

/-- A release of a claim, which leaves no track of a missing file or makes the dir
dirty. -/
theorem Accounts.release (acc : s.Accounts) {dir : ClaimedDir} {set : DirRow → DirRow}
    (grown : s.pipe.tables.Extends t)
    (claims : Claims { s.pipe with workers := s.pipe.workers.set w y, tables := t })
    (found : s.pipe.workers[w]? = some x) (quiet : y.landed = none ∧ ReadsLive t y)
    (files : t.files = s.pipe.tables.files)
    (dirs : t.dirs = updateWhere (ScanTables.lockedBy dir.id dir.lockedGeneration) set
      s.pipe.tables.dirs)
    (ids : ∀ d, (set d).id = d.id) (keeps : ∀ d, d.dirty = true → (set d).dirty = true)
    (own : s.pipe.Due dir.id → s.ListsGone dir.id → IsDirty t dir.id) :
    (s.follow { s.pipe with workers := s.pipe.workers.set w y, tables := t } grown).Accounts := by
  refine acc.queueWrite grown claims files ?_ ?_
  · intro dirID due left
    by_cases here : dir.id = dirID
    · subst here
      exact .inl (own (due left) left)
    · exact (due left).release found quiet.1 dirs ids keeps here
  · intro z hz
    rcases mem_setWorker found hz with rfl | old
    · exact .inl quiet.2
    · refine .inr ⟨List.mem_of_mem_eraseIdx old, fun dir _ dirty => ?_⟩
      exact dirty.updateWhere dirs ids fun d _ _ _ => keeps d

theorem Accounts.releaseDir (acc : s.Accounts) (heeded : s.Heeded (.pipeline (.releaseDir w)))
    (grown : s.pipe.tables.Extends pipe.tables) (claims : pipe.Claims)
    (h : s.pipe.releaseDir w = some pipe) : (s.follow pipe grown).Accounts := by
  obtain ⟨x, dir, t, found, releasing, released, rfl⟩ := releaseDir_cases h
  have tables := (ScanTables.releaseDir_spec released).2
  have dirs := congrArg ScanTables.dirs tables
  refine acc.release grown claims found ⟨rfl, trivial⟩ (by rw [tables]) dirs (fun _ => rfl)
    (fun _ flag => flag) ?_
  intro due left
  have queued : IsDirty s.pipe.tables dir.id := by
    rcases releasing_cases releasing with rfl | rfl
    · -- the import of a dir that was not dirty left no such track
      rcases due with queued | ⟨_, unlanded⟩
      · exact queued
      · exact absurd rfl (unlanded _ (List.mem_of_getElem? found))
    · obtain ⟨r, hr, f, hf, id, ofDir, missing⟩ := left
      exact heeded dir (mem_held found rfl) found ⟨r, hr, f, hf, id, ofDir⟩ ⟨f, hf, ofDir, missing⟩
  exact queued.updateWhere dirs (fun _ => rfl) fun _ _ _ _ flag => flag

theorem Accounts.releaseAndRedirty (acc : s.Accounts)
    (grown : s.pipe.tables.Extends pipe.tables) (claims : pipe.Claims)
    (h : s.pipe.releaseAndRedirty w = some pipe) : (s.follow pipe grown).Accounts := by
  obtain ⟨dir, t, found, released, rfl⟩ := releaseAndRedirty_cases h
  have tables := (ScanTables.releaseAndRedirty_spec released).2
  exact acc.release grown claims found ⟨rfl, trivial⟩ (by rw [tables])
    (congrArg ScanTables.dirs tables) (fun _ => rfl) (fun _ _ => rfl)
    fun _ _ => isDirty_of_redirty released

/-- The files read are those that are there. -/
theorem readsLive_dirFiles (wf : t.WellFormed) (dir : ClaimedDir) :
    ReadsLive t (.read dir (t.dirFiles dir.id)) := by
  intro f hf
  obtain ⟨row, hrow, rfl⟩ := List.mem_map.mp ((List.mem_insertionSort _).mp hf)
  obtain ⟨member, here⟩ := List.mem_filter.mp hrow
  simp only [decide_eq_true_eq] at here
  refine ⟨⟨row, member, rfl, here.1⟩, ?_⟩
  rintro ⟨other, hother, same, _, missing⟩
  obtain rfl := wf.fileIDs.eq_of_key hother member same
  rw [here.2] at missing
  cases missing

theorem Accounts.pipeline (acc : s.Accounts) {a : Metadata.Action} (heeded : s.Heeded (.pipeline a))
    (other : ∀ w, a ≠ .importDir w) (h : s.pipe.step (fun _ => ()) a = some pipe) :
    (s.follow pipe (step_extends h)).Accounts := by
  have unheld : BeginsUnheld s.pipe a := by
    cases a with
    | beginScan loc now scanID => exact heeded
    | _ =>
      intro _ _ hit
      cases hit
  have claims := step_claims acc.claims unheld h
  cases a with
  | beginScan loc now scanID => exact acc.beginScan _ claims h
  | syncDir newDirID newFileID payload => exact acc.syncDir _ claims h
  | sweep loc => exact acc.sweep heeded _ claims h
  | dirtyDirs picked => exact acc.dirtyDirs _ claims h
  | releaseDir w => exact acc.releaseDir heeded _ claims h
  | releaseAndRedirty w => exact acc.releaseAndRedirty _ claims h
  | importDir w => exact absurd rfl (other w)
  | onDirty i =>
    obtain ⟨_, rfl⟩ := onDirty_cases h
    exact acc.idle _ claims rfl rfl rfl
  | finishScan loc now progress scanErr =>
    obtain ⟨scanID, rfl⟩ := finishScan_cases h
    exact acc.idle _ claims rfl rfl rfl
  | receiveToken =>
    obtain ⟨_, rfl⟩ := receiveToken_cases h
    exact acc.idle _ claims rfl rfl rfl
  | send =>
    obtain ⟨c, batch, _, rfl⟩ := send_cases h
    exact acc.idle _ claims rfl rfl rfl
  | receive w =>
    obtain ⟨c, rest, found, _, rfl⟩ := receive_cases h
    exact acc.worker _ claims rfl found rfl (.inl rfl) trivial
  | fail w =>
    obtain ⟨dir, found | ⟨files, found⟩, rfl⟩ := fail_cases h
    · exact acc.worker _ claims rfl found rfl (.inl rfl) trivial
    · exact acc.worker _ claims rfl found rfl (.inl rfl) trivial
  | dirFiles w =>
    obtain ⟨dir, found, rfl⟩ := dirFiles_cases h
    exact acc.worker _ claims rfl found rfl (.inl rfl)
      (readsLive_dirFiles acc.claims.wellFormed dir)
  | clearAttempts w =>
    obtain ⟨dir, found, rfl⟩ := clearAttempts_cases h
    exact acc.worker _ claims rfl found rfl (.inr rfl) trivial
  | recordFailure w =>
    obtain ⟨dir, next, attempts, found, rfl | rfl, rfl⟩ := recordFailure_cases h
    · exact acc.worker _ claims rfl found rfl (.inl rfl) trivial
    · exact acc.worker _ claims rfl found rfl (.inl rfl) trivial
  | releaseError w =>
    obtain ⟨x, dir, found, _, rfl⟩ := releaseError_cases h
    exact acc.worker _ claims rfl found rfl (.inl rfl) trivial
  | armRetry w =>
    obtain ⟨found, rfl⟩ := armRetry_cases h
    exact acc.worker _ claims rfl found rfl (.inl rfl) trivial
  | skipRetry w =>
    obtain ⟨found, rfl⟩ := skipRetry_cases h
    exact acc.worker _ claims rfl found rfl (.inl rfl) trivial
  | timerFires =>
    obtain ⟨_, rfl⟩ := timerFires_cases h
    exact acc.idle _ claims rfl rfl rfl

end Steps

/-! ### Steps of the library, and runs -/

/-- After an import all tracks of the dir are of files that were read. -/
theorem Accounts.importDir (acc : s.Accounts) {w : Nat} {res : ParseResult}
    (h : s.importDir rt w res = some s') : s'.Accounts := by
  obtain ⟨dir, files, found, ⟨ofDir, fromFiles⟩, imported, pipe⟩ := importDir_cases h
  have wf := acc.claims.wellFormed
  have live := acc.reads _ (List.mem_of_getElem? found)
  have tables : s'.pipe.tables = s.pipe.tables := by rw [pipe]; rfl
  have parsed : ∀ key view, s'.importer.db.trackAt key = some view →
      (view.owner.1 = dir.id ∧ s.pipe.tables.HasFile key.1 dir.id ∧
        (GoneFrom s.pipe.tables key.1 dir.id → IsDirty s.pipe.tables dir.id)) ∨
      s.importer.db.trackAt key = some view ∧ view.owner.1 ≠ dir.id := by
    intro key view there
    rw [← ofDir]
    refine (Importer.importResult_trackAt imported there).imp_left ?_
    rintro ⟨owner, pa, hpa, pt, hpt, rfl⟩
    obtain ⟨f, hf, same⟩ := List.mem_map.mp (fromFiles pa hpa pt hpt)
    obtain ⟨inside, left⟩ := live f hf
    rw [same, ← ofDir] at inside left
    exact ⟨owner, inside, left⟩
  -- a file is in one dir
  have owner_eq : ∀ fileID d dirID, s.pipe.tables.HasFile fileID d →
      GoneFrom s.pipe.tables fileID dirID → dirID = d := by
    rintro fileID d dirID ⟨f, hf, id, rfl⟩ ⟨g, hg, same, rfl, _⟩
    rw [wf.fileIDs.eq_of_key hg hf (same.trans id.symm)]
  refine ⟨?_, ?_, ?_, ?_⟩
  · rw [pipe]
    exact acc.claims.worker found rfl
  · intro key view there
    rw [tables]
    rcases parsed key view there with ⟨owner, inside, _⟩ | ⟨before, _⟩
    · rw [owner]
      exact inside
    · exact acc.home key view before
  · intro key view dirID there gone
    rw [tables] at gone
    rw [pipe]
    rcases parsed key view there with ⟨_, inside, left⟩ | ⟨before, apart⟩
    · obtain rfl := owner_eq _ _ _ inside gone
      exact .inl (left gone)
    · refine (acc.due key view dirID before gone).imp_right fun ⟨locked, unlanded⟩ =>
        ⟨locked, fun x hx => ?_⟩
      rcases mem_setWorker found hx with rfl | old
      · have home := owner_eq _ _ _ (acc.home key view before) gone
        simpa [Worker.landed, home] using Ne.symm apart
      · exact unlanded x (List.mem_of_mem_eraseIdx old)
  · intro x hx
    rw [tables]
    rw [pipe] at hx
    rcases mem_setWorker found hx with rfl | old
    · trivial
    · exact acc.reads x (List.mem_of_mem_eraseIdx old)

/-- Writes of the library that keep the tracks. -/
theorem Accounts.sameTracks (acc : s.Accounts) (pipe : s'.pipe = s.pipe)
    (kept : Database.Keeps Importer.rows s.importer.db s'.importer.db) : s'.Accounts := by
  have same := Importer.trackAt_of_rows kept
  refine ⟨pipe ▸ acc.claims, ?_, ?_, pipe ▸ acc.reads⟩
  · intro key view found
    rw [pipe]
    exact acc.home key view (same key ▸ found)
  · intro key view dirID found
    rw [pipe]
    exact acc.due key view dirID (same key ▸ found)

theorem step_accounts {a : Action} (acc : s.Accounts) (heeded : s.Heeded a)
    (h : s.step libs a = some s') : s'.Accounts := by
  cases a with
  | insertLocation id uri =>
    obtain ⟨t, inserted, rfl⟩ := insertLocation_cases h
    obtain ⟨dirs, files⟩ := ScanTables.insertLocation_frame inserted
    refine acc.idle _ ?_ dirs files rfl
    refine acc.claims.frame ((ScanTables.insertLocation_extends inserted).wellFormed
      acc.claims.wellFormed) (.refl _) fun c _ locked => ?_
    rw [LockedFor, dirs]
    exact locked
  | restart now n =>
    cases h
    refine ⟨start_claims (ScanTables.abortRunningScans_wellFormed now acc.claims.wellFormed) _ n,
      acc.home, ?_, ?_⟩
    · intro key view dirID found gone
      refine (acc.due key view dirID found gone).imp_right fun ⟨locked, _⟩ => ⟨locked, ?_⟩
      intro x hx
      rw [List.eq_of_mem_replicate hx]
      simp [Worker.landed]
    · intro x hx
      rw [List.eq_of_mem_replicate hx]
      trivial
  | pipeline a =>
    obtain ⟨pipe, taken, other, rfl⟩ := pipeline_cases h
    exact acc.pipeline heeded other taken
  | importDir w res minted => exact acc.importDir h
  | internArtist name minted =>
    obtain ⟨interned, pipe⟩ := internArtist_cases h
    exact acc.sameTracks pipe interned.keeps
  | addImage img =>
    obtain ⟨kept, pipe⟩ := addImage_cases h
    exact acc.sameTracks pipe kept

theorem empty_accounts (n : Nat) : (empty n).Accounts := by
  refine ⟨start_claims ScanTables.empty_wellFormed _ n, ?_, ?_, ?_⟩
  · exact fun key view found => nomatch found
  · exact fun key view dirID found => nomatch found
  · intro x hx
    rw [List.eq_of_mem_replicate hx]
    trivial

/-- A drained queue leaves no ghost unaccounted for. -/
theorem Accounts.noGhosts (acc : s.Accounts) (drained : s.Drained) : s.NoGhosts := by
  intro r hr f hf same
  by_contra gone
  obtain ⟨view, found⟩ := exists_trackAt hr
  have left : GoneFrom s.pipe.tables r.key.1 f.dirID := ⟨f, hf, same, rfl, by simpa using gone⟩
  rcases acc.due _ view _ found left with ⟨d, hd, _, dirty⟩ | ⟨⟨d, hd, _, locked⟩, _⟩
  · rw [(drained d hd).1] at dirty
    cases dirty
  · rw [(drained d hd).2] at locked
    cases locked

/-- While all steps are heeded, no track refers to a missing file once the queue is
drained. -/
theorem no_ghosts (libs : Libraries) (n : Nat) {acts : List Action}
    (heeded : StepsMeet (step libs) Heeded (empty n) acts) :
    Along (step libs) (fun s => s.Drained → s.NoGhosts) (empty n) acts := by
  refine along_of_stepsMeet ?_ ?_ (empty_accounts n) heeded
  · exact fun s a s' acc met h => step_accounts acc met h
  · exact fun s acc drained => acc.noGhosts drained

/-! ### A file that goes, and a dir that goes -/

/-- A scan of location 1 that syncs its root, which has no files, and more. -/
def scanOf (scanID : UUID) (gen : Int) (more : List Action) : List Action :=
  [.pipeline (.beginScan 1 0 scanID),
    .pipeline (.syncDir 9 (fun _ => 0) ⟨1, [], gen, [], [], false⟩)] ++ more

def finishOf : List Action := [.pipeline (.sweep 1), .pipeline (.finishScan 1 9 ⟨1, 0, 1, 0⟩ none)]

/-- The dir is synced with a change of its one file. -/
def changeOf (dirID fileID : UUID) (rel : String) (gen : Int) (changed : List File)
    (missing : List UUID) : List Action :=
  [.pipeline (.syncDir dirID (fun _ => fileID) ⟨1, [rel], gen, changed, missing, true⟩),
    .pipeline (.onDirty 0)]

/-- The dir is parsed, and the import mints the IDs from `n` on. -/
def parseOf (dirID : UUID) (albums : List ParsedAlbum) (n : Nat) : List Action :=
  [.pipeline (.dirtyDirs [dirID]), .pipeline .send, .pipeline (.receive 0), .pipeline (.dirFiles 0),
    .importDir 0 ⟨dirID, albums, []⟩ (Importer.mintedFrom n), .pipeline (.clearAttempts 0),
    .pipeline (.releaseDir 0)]

/-- Two dirs with one album each are found and imported. -/
def albumsImported : List Action :=
  .insertLocation 1 "file:///music" ::
    (scanOf 30 1 (changeOf 10 20 "a" 1 [Database.audioFile "01.flac"] [] ++
        changeOf 11 21 "b" 1 [Database.audioFile "01.flac"] []) ++ finishOf ++
      parseOf 10 [Importer.albumBy "The Band" "Home" 20] 50 ++
      parseOf 11 [Importer.albumBy "The Band" "Away" 21] 60)

/-- The other dir is as it was. -/
def otherKept : List Action := [.pipeline (.syncDir 11 (fun _ => 0) ⟨1, ["b"], 2, [], [], false⟩)]

def fileRemoved : List Action :=
  albumsImported ++ scanOf 31 2 (changeOf 10 20 "a" 2 [] [20] ++ otherKept) ++ finishOf ++
    parseOf 10 [] 70

def asciiLibraries : Libraries := Importer.asciiRuntime.toLibraries

set_option maxRecDepth 4000 in
theorem fileRemoved_noGhosts :
    Along (step asciiLibraries) (fun s => s.Drained → s.NoGhosts) (empty 1) fileRemoved ∧
      (run (step asciiLibraries) (empty 1) fileRemoved).any
        (fun s => decide (s.Drained ∧ s.Lists 11)) = true :=
  ⟨no_ghosts asciiLibraries 1 (by decide), by decide⟩

def dirRemoved : List Action := albumsImported ++ scanOf 31 2 otherKept ++ finishOf

def afterSteps (acts : List Action)
    (enabled : (run (step asciiLibraries) (empty 1) acts).isSome) : Ingest :=
  (run (step asciiLibraries) (empty 1) acts).get enabled

set_option maxRecDepth 4000 in
/-- The dir of an album is gone, and the scan sweeps it. -/
theorem dirRemoved_ghost :
    ¬ ∀ (libs : Libraries) (n : Nat) (acts : List Action) (loc : UUID) (now : Int)
      (progress : Scan.Progress) (s : Ingest), (∀ w, .pipeline (.fail w) ∉ acts) →
      run (step libs) (empty n) (acts ++
        [.pipeline (.sweep loc), .pipeline (.finishScan loc now progress none)]) = some s →
      s.Drained → s.NoGhosts := by
  intro noGhosts
  have ends : run (step asciiLibraries) (empty 1) dirRemoved =
      some (afterSteps dirRemoved (by decide)) := (Option.some_get _).symm
  have unfailed : ∀ w, .pipeline (.fail w) ∉ albumsImported ++ scanOf 31 2 otherKept := by
    simp [albumsImported, scanOf, changeOf, otherKept, finishOf, parseOf]
  have clean := noGhosts asciiLibraries 1 _ 1 9 ⟨1, 0, 1, 0⟩ _ unfailed ends (by decide)
  exact absurd clean (by decide)

end Ingest

end Byom.Metadata
