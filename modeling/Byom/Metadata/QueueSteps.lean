import Byom.Metadata.Ghosts

/-!
# What a step does to the parse queue

A step of the pipeline, all but an import, changes the files of a dir only if it makes the
dir dirty or sweeps it, and a dir that is due stays due until a worker gives up on it.
-/

namespace Byom.Metadata.Pipeline

open Storage Relational Sqlite

variable {Import : Type} {p p' : Pipeline Import} {t t' : ScanTables} {a : Action} {w : Nat}
  {x y : Worker} {dirID fileID : UUID}

def Sweeps (p : Pipeline Import) (a : Action) (dirID : UUID) : Prop :=
  ∃ loc, a = .sweep loc ∧ dirID ∈ p.sweeps loc

/-- A worker releases the dir, which it has failed to parse and which is not dirty. -/
def GivesUp (p : Pipeline Import) (a : Action) (dirID : UUID) : Prop :=
  ¬IsDirty p.tables dirID ∧
    ∃ w dir, a = .releaseDir w ∧ p.workers[w]? = some (.givingUp dir) ∧ dir.id = dirID

structure QueueStep (p : Pipeline Import) (a : Action) (p' : Pipeline Import) : Prop where
  hasFile : ∀ fileID dirID, p.tables.HasFile fileID dirID → p'.tables.HasFile fileID dirID
  rows : ∀ dirID, p'.tables.rowsOf dirID = p.tables.rowsOf dirID ∨ IsDirty p'.tables dirID ∨
    p.Sweeps a dirID
  due : ∀ dirID, p.Due dirID → p'.Due dirID ∨ p.GivesUp a dirID
  reads : ∀ dir files, .read dir files ∈ p'.workers →
    (.read dir files ∈ p.workers ∧ (IsDirty p.tables dir.id → IsDirty p'.tables dir.id)) ∨
      files = p'.tables.dirFiles dir.id

theorem hasFile_iff_rowsOf : t.HasFile fileID dirID ↔ fileID ∈ (t.rowsOf dirID).map FileRow.id := by
  constructor
  · rintro ⟨f, hf, rfl, rfl⟩
    exact List.mem_map_of_mem (List.mem_filter.mpr ⟨hf, by simp⟩)
  · intro listed
    obtain ⟨f, hf, same⟩ := List.mem_map.mp listed
    obtain ⟨member, here⟩ := List.mem_filter.mp hf
    exact ⟨f, member, same, by simpa using here⟩

theorem hasFile_of_files (files : t'.files = t.files) (has : t.HasFile fileID dirID) :
    t'.HasFile fileID dirID := by
  rw [ScanTables.HasFile, files]
  exact has

theorem rowsOf_of_files (files : t'.files = t.files) : t'.rowsOf dirID = t.rowsOf dirID := by
  rw [ScanTables.rowsOf, ScanTables.rowsOf, files]

theorem mem_dirFiles {f : File} :
    f ∈ t.dirFiles dirID ↔ ∃ r ∈ t.rowsOf dirID, r.missing = false ∧ ScanTables.scanFile r = f := by
  unfold ScanTables.dirFiles ScanTables.rowsOf
  rw [List.mem_insertionSort, List.mem_map]
  simp [and_assoc]

theorem hasFile_of_dirFiles {f : File} (listed : f ∈ t.dirFiles dirID) : t.HasFile f.id dirID := by
  obtain ⟨r, hr, _, rfl⟩ := mem_dirFiles.mp listed
  exact hasFile_iff_rowsOf.mpr (List.mem_map_of_mem hr)

/-! ### Kinds of steps -/

/-- Steps that write no dir and no file row. -/
theorem QueueStep.frame (dirs : p'.tables.dirs = p.tables.dirs)
    (files : p'.tables.files = p.tables.files)
    (landed : ∀ z ∈ p'.workers, z.landed ≠ none → ∃ z' ∈ p.workers, z'.landed = z.landed)
    (reads : ∀ dir files, .read dir files ∈ p'.workers → .read dir files ∈ p.workers ∨
      files = p'.tables.dirFiles dir.id) : QueueStep p a p' := by
  have dirty : ∀ dirID, IsDirty p.tables dirID → IsDirty p'.tables dirID := by
    intro dirID
    rw [IsDirty, IsDirty, dirs]
    exact id
  refine ⟨fun _ _ => hasFile_of_files files, fun _ => .inl (rowsOf_of_files files), ?_, ?_⟩
  · intro dirID due
    left
    rcases due with queued | ⟨locked, unlanded⟩
    · exact .inl (dirty dirID queued)
    · refine .inr ⟨by rw [IsLocked, dirs]; exact locked, ?_⟩
      intro z hz same
      obtain ⟨z', hz', there⟩ := landed z hz (by rintro none_; simp [none_] at same)
      exact unlanded z' hz' (there ▸ same)
  · exact fun dir fs hx => (reads dir fs hx).imp_left fun old => ⟨old, dirty dir.id⟩

/-- Steps of the scanner and the dispatcher that write no dir and no file row. -/
theorem QueueStep.idle (dirs : p'.tables.dirs = p.tables.dirs)
    (files : p'.tables.files = p.tables.files) (workers : p'.workers = p.workers) :
    QueueStep p a p' :=
  .frame dirs files (fun z hz _ => ⟨z, workers ▸ hz, rfl⟩) fun _ _ hx => .inl (workers ▸ hx)

/-- Steps of one worker, in memory. -/
theorem QueueStep.worker (tables : p'.tables = p.tables) (found : p.workers[w]? = some x)
    (workers : p'.workers = p.workers.set w y) (landed : y.landed = none ∨ y.landed = x.landed)
    (reads : ∀ dir files, y = .read dir files → files = p.tables.dirFiles dir.id) :
    QueueStep p a p' := by
  have member : ∀ z ∈ p'.workers, z = y ∨ z ∈ p.workers := by
    intro z hz
    rw [workers] at hz
    exact (mem_setWorker found hz).imp_right fun old => List.mem_of_mem_eraseIdx old
  refine .frame (by rw [tables]) (by rw [tables]) ?_ ?_
  · intro z hz some_
    rcases member z hz with rfl | old
    · exact ⟨x, List.mem_of_getElem? found, (landed.resolve_left some_).symm⟩
    · exact ⟨z, old, rfl⟩
  · intro dir fs hz
    rcases member _ hz with same | old
    · rw [tables]
      exact .inr (reads dir fs same.symm)
    · exact .inl old

/-- Steps that write dir and file rows and no worker, keep what is dirty, and unlock a dir
only to make it dirty. -/
theorem QueueStep.scan (workers : p'.workers = p.workers)
    (hasFile : ∀ fileID dirID, p.tables.HasFile fileID dirID → p'.tables.HasFile fileID dirID)
    (rows : ∀ dirID, p'.tables.rowsOf dirID = p.tables.rowsOf dirID ∨ IsDirty p'.tables dirID ∨
      p.Sweeps a dirID)
    (dirty : ∀ dirID, IsDirty p.tables dirID → IsDirty p'.tables dirID)
    (locked : ∀ dirID, IsLocked p.tables dirID →
      IsLocked p'.tables dirID ∨ IsDirty p'.tables dirID) : QueueStep p a p' := by
  refine ⟨hasFile, rows, ?_, ?_⟩
  · intro dirID due
    left
    rcases due with queued | ⟨lock, unlanded⟩
    · exact .inl (dirty dirID queued)
    · rw [← workers] at unlanded
      exact (locked dirID lock).elim (fun lock => .inr ⟨lock, unlanded⟩) .inl
  · exact fun dir fs hx => .inl ⟨workers ▸ hx, dirty dir.id⟩

theorem QueueStep.beginScan {loc scanID : UUID} {now : Int}
    (h : p.beginScan loc now scanID = some p') : QueueStep p a p' := by
  obtain ⟨t, gen, began, rfl⟩ := beginScan_cases h
  obtain ⟨_, files, dirs, _⟩ := ScanTables.beginScan_spec began
  refine .scan rfl (fun _ _ => hasFile_of_files files) (fun _ => .inl (rowsOf_of_files files)) ?_ ?_
  · exact fun dirID queued => queued.updateWhere dirs (fun _ => rfl) fun _ _ _ _ _ => rfl
  · rintro dirID ⟨d, hd, same, lock⟩
    by_cases here : d.locationID = loc
    · refine .inr ⟨{ d with lockedGeneration := none, dirty := true }, ?_, same, rfl⟩
      rw [dirs]
      exact mem_updateWhere.mpr ⟨d, hd, by simp [here, lock]⟩
    · refine .inl ⟨d, ?_, same, lock⟩
      rw [dirs]
      exact mem_updateWhere.mpr ⟨d, hd, by simp [here]⟩

theorem QueueStep.syncDir {newDirID : UUID} {newFileID : Path → UUID} {payload : Scan.SyncPayload}
    (h : p.syncDir newDirID newFileID payload = some p') : QueueStep p a p' := by
  obtain ⟨inside, t, d, synced, truthful, rfl⟩ := syncDir_cases h
  refine .scan rfl (fun _ _ => ScanTables.syncDir_hasFile synced) ?_
    (fun _ => IsDirty.syncDir synced) ?_
  · intro dirID
    by_cases here : dirID = d
    · rcases truthful with dirty | files
      · subst here
        exact .inr (.inl (isDirty_of_payload synced dirty))
      · exact .inl (rowsOf_of_files files)
    · exact .inl (ScanTables.syncDir_rowsOf_ne inside synced here)
  · rintro dirID ⟨row, hrow, same, lock⟩
    left
    refine ⟨_, ScanTables.syncDir_dirs synced ▸ upsertOn_keeps hrow, ?_, ?_⟩
    · split <;> exact same
    · split <;> exact lock

theorem QueueStep.sweep {loc : UUID} (h : p.sweep loc = some p') :
    QueueStep p (.sweep loc) p' := by
  obtain ⟨run, found, rest⟩ := Option.bind_eq_some_iff.mp h
  split at rest
  · cases rest
  · cases rest
    refine .scan rfl (fun _ _ has => has.of_sameRows (ScanTables.sweep_sameRows loc run.gen _))
      ?_ ?_ ?_
    · intro dirID
      by_cases swept : dirID ∈ p.sweeps loc
      · exact .inr (.inr ⟨loc, rfl, swept⟩)
      · left
        rw [sweeps, found] at swept
        apply filter_updateWhere_of_disjoint
        intro f _ hit
        have other : f.dirID ≠ dirID := by
          rintro rfl
          exact swept (by simpa using hit)
        simp [other]
    · exact fun _ queued => queued.updateWhere rfl (fun _ => rfl) fun _ _ _ _ flag => flag
    · intro dirID locked
      exact .inl (locked.updateWhere rfl (fun _ => rfl) fun _ _ _ _ lock => lock)

/-- A dir that is swept has nothing left to read. -/
theorem dirFiles_of_sweep {loc : UUID} (h : p.sweep loc = some p') (swept : dirID ∈ p.sweeps loc) :
    p'.tables.dirFiles dirID = [] := by
  obtain ⟨run, found, rest⟩ := Option.bind_eq_some_iff.mp h
  split at rest
  · cases rest
  · cases rest
    rw [sweeps, found] at swept
    apply List.eq_nil_iff_forall_not_mem.mpr
    intro f listed
    obtain ⟨r, hr, live, _⟩ := mem_dirFiles.mp listed
    obtain ⟨member, here⟩ := List.mem_filter.mp hr
    obtain ⟨old, hold, rfl⟩ := mem_updateWhere.mp member
    by_cases hit : old.dirID ∈ (p.tables.dirs.filter (ScanTables.unseen loc run.gen)).map DirRow.id
    · simp [hit] at live
    · simp only [hit, decide_false, Bool.false_eq_true, if_false, decide_eq_true_eq] at here
      exact hit (here ▸ swept)

theorem hasFile_of_sweep {loc : UUID} (h : p.sweep loc = some p')
    (has : p'.tables.HasFile fileID dirID) : p.tables.HasFile fileID dirID := by
  obtain ⟨gen, rfl⟩ := sweep_cases h
  obtain ⟨f, hf, id, owner⟩ := has
  obtain ⟨old, hold, rfl⟩ := mem_updateWhere.mp hf
  refine ⟨old, hold, ?_, ?_⟩
  · rw [← id]
    split <;> rfl
  · rw [← owner]
    split <;> rfl

theorem QueueStep.dirtyDirs (claims : p.Claims) {picked : List UUID}
    (h : p.dirtyDirs picked = some p') : QueueStep p a p' := by
  obtain ⟨_, picks, rfl⟩ := dirtyDirs_cases h
  refine ⟨fun _ _ => hasFile_of_files rfl, fun _ => .inl rfl, ?_, ?_⟩
  · exact fun dirID due => .inl (due.dirtyDirs claims picks rfl rfl)
  · exact fun dir files hx => .inl ⟨hx, fun dirty => dirty.dirtyDirs (claims.notPicked picks hx rfl)⟩

/-- A release of a claim, which unlocks no other dir and keeps what is dirty. -/
theorem QueueStep.release {dir : ClaimedDir} {set : DirRow → DirRow}
    (found : p.workers[w]? = some x) (quiet : y.landed = none)
    (unread : ∀ dir files, y ≠ .read dir files) (files : t.files = p.tables.files)
    (dirs : t.dirs = updateWhere (ScanTables.lockedBy dir.id dir.lockedGeneration) set
      p.tables.dirs)
    (ids : ∀ d, (set d).id = d.id) (keeps : ∀ d, d.dirty = true → (set d).dirty = true)
    (own : p.Due dir.id → IsDirty t dir.id ∨ p.GivesUp a dir.id) :
    QueueStep p a { p with workers := p.workers.set w y, tables := t } := by
  refine ⟨fun _ _ => hasFile_of_files files, fun _ => .inl (rowsOf_of_files files), ?_, ?_⟩
  · intro dirID due
    by_cases here : dir.id = dirID
    · subst here
      exact (own due).imp_left .inl
    · exact .inl (due.release found quiet dirs ids keeps here)
  · intro dir fs hz
    rcases mem_setWorker found hz with same | old
    · exact absurd same.symm (unread dir fs)
    · refine .inl ⟨List.mem_of_mem_eraseIdx old, fun dirty => ?_⟩
      exact dirty.updateWhere dirs ids fun d _ _ _ => keeps d

theorem QueueStep.releaseDir (h : p.releaseDir w = some p') : QueueStep p (.releaseDir w) p' := by
  obtain ⟨x, dir, t, found, releasing, released, rfl⟩ := releaseDir_cases h
  have tables := (ScanTables.releaseDir_spec released).2
  have dirs := congrArg ScanTables.dirs tables
  refine .release found rfl nofun (by rw [tables]) dirs (fun _ => rfl) (fun _ flag => flag) ?_
  intro due
  by_cases queued : IsDirty p.tables dir.id
  · exact .inl (queued.updateWhere dirs (fun _ => rfl) fun _ _ _ _ flag => flag)
  · obtain ⟨_, unlanded⟩ := due.resolve_left queued
    rcases releasing_cases releasing with rfl | rfl
    · exact absurd rfl (unlanded _ (List.mem_of_getElem? found))
    · exact .inr ⟨queued, w, dir, rfl, found, rfl⟩

theorem QueueStep.releaseAndRedirty (h : p.releaseAndRedirty w = some p') : QueueStep p a p' := by
  obtain ⟨dir, t, found, released, rfl⟩ := releaseAndRedirty_cases h
  have tables := (ScanTables.releaseAndRedirty_spec released).2
  exact .release found rfl nofun (by rw [tables]) (congrArg ScanTables.dirs tables) (fun _ => rfl)
    (fun _ _ => rfl) fun _ => .inl (isDirty_of_redirty released)

theorem step_queueStep {importOf : List File → Import} (claims : p.Claims)
    (other : ∀ w, a ≠ .importDir w) (h : p.step importOf a = some p') : QueueStep p a p' := by
  cases a with
  | beginScan loc now scanID => exact .beginScan h
  | syncDir newDirID newFileID payload => exact .syncDir h
  | sweep loc => exact .sweep h
  | dirtyDirs picked => exact .dirtyDirs claims h
  | releaseDir w => exact .releaseDir h
  | releaseAndRedirty w => exact .releaseAndRedirty h
  | importDir w => exact absurd rfl (other w)
  | onDirty i =>
    obtain ⟨_, rfl⟩ := onDirty_cases h
    exact .idle rfl rfl rfl
  | finishScan loc now progress scanErr =>
    obtain ⟨scanID, rfl⟩ := finishScan_cases h
    exact .idle rfl rfl rfl
  | receiveToken =>
    obtain ⟨_, rfl⟩ := receiveToken_cases h
    exact .idle rfl rfl rfl
  | send =>
    obtain ⟨c, batch, _, rfl⟩ := send_cases h
    exact .idle rfl rfl rfl
  | receive w =>
    obtain ⟨c, rest, found, _, rfl⟩ := receive_cases h
    exact .worker rfl found rfl (.inl rfl) nofun
  | fail w =>
    obtain ⟨dir, found | ⟨files, found⟩, rfl⟩ := fail_cases h
    · exact .worker rfl found rfl (.inl rfl) nofun
    · exact .worker rfl found rfl (.inl rfl) nofun
  | dirFiles w =>
    obtain ⟨dir, found, rfl⟩ := dirFiles_cases h
    refine .worker rfl found rfl (.inl rfl) ?_
    rintro dir files ⟨⟩
    rfl
  | clearAttempts w =>
    obtain ⟨dir, found, rfl⟩ := clearAttempts_cases h
    exact .worker rfl found rfl (.inr rfl) nofun
  | recordFailure w =>
    obtain ⟨dir, next, attempts, found, rfl | rfl, rfl⟩ := recordFailure_cases h
    · exact .worker rfl found rfl (.inl rfl) nofun
    · exact .worker rfl found rfl (.inl rfl) nofun
  | releaseError w =>
    obtain ⟨x, dir, found, _, rfl⟩ := releaseError_cases h
    exact .worker rfl found rfl (.inl rfl) nofun
  | armRetry w =>
    obtain ⟨found, rfl⟩ := armRetry_cases h
    exact .worker rfl found rfl (.inl rfl) nofun
  | skipRetry w =>
    obtain ⟨found, rfl⟩ := skipRetry_cases h
    exact .worker rfl found rfl (.inl rfl) nofun
  | timerFires =>
    obtain ⟨_, rfl⟩ := timerFires_cases h
    exact .idle rfl rfl rfl

end Byom.Metadata.Pipeline
