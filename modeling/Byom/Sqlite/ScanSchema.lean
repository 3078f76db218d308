import Byom.Sqlite.ScanStore

/-!
# The constraints of the storage tables

`WellFormed` collects what the schema enforces, and that stored times fit their
column. Every method of the two stores keeps it. Most methods rewrite only
columns no constraint reads; `SameRows` covers these.
-/

namespace Byom.Sqlite.ScanTables

open Storage Relational

structure WellFormed (t : ScanTables) : Prop where
  locationIDs : UniqueOn LocationRow.id t.locations
  scanIDs : UniqueOn ScanRow.id t.scans
  dirIDs : UniqueOn DirRow.id t.dirs
  dirKeys : UniqueOn DirRow.key t.dirs
  dirLocations : ∀ d ∈ t.dirs, ∃ l ∈ t.locations, l.id = d.locationID
  fileIDs : UniqueOn FileRow.id t.files
  fileKeys : UniqueOn FileRow.key t.files
  fileDirs : ∀ f ∈ t.files, ∃ d ∈ t.dirs, d.id = f.dirID
  stored : ∀ f ∈ t.files, f.info.stored = f.info

theorem empty_wellFormed : empty.WellFormed := by
  constructor <;> simp [empty]

/-- The columns that constraints read. -/
def dirIdent (d : DirRow) : UUID × UUID × Path := (d.id, d.locationID, d.relPath)

def fileIdent (f : FileRow) : UUID × UUID × Path × FileInfo := (f.id, f.dirID, f.name, f.info)

/-- `t` and `t'` have the same locations, dirs and files, in the same order. -/
structure SameRows (t t' : ScanTables) : Prop where
  locations : t'.locations.map LocationRow.id = t.locations.map LocationRow.id
  dirs : t'.dirs.map dirIdent = t.dirs.map dirIdent
  files : t'.files.map fileIdent = t.files.map fileIdent

section SameRows

variable {t t' : ScanTables}

theorem SameRows.dirIDs_eq (same : SameRows t t') :
    t'.dirs.map DirRow.id = t.dirs.map DirRow.id := by
  simpa [dirIdent, Function.comp_def] using congrArg (List.map Prod.fst) same.dirs

theorem SameRows.dirKeys_eq (same : SameRows t t') :
    t'.dirs.map DirRow.key = t.dirs.map DirRow.key := by
  have read : ∀ rows : List DirRow, rows.map DirRow.key = (rows.map dirIdent).map Prod.snd :=
    fun rows => by rw [List.map_map]; rfl
  rw [read, read, same.dirs]

theorem SameRows.fileIDs_eq (same : SameRows t t') :
    t'.files.map FileRow.id = t.files.map FileRow.id := by
  simpa [fileIdent, Function.comp_def] using congrArg (List.map Prod.fst) same.files

theorem SameRows.fileKeys_eq (same : SameRows t t') :
    t'.files.map FileRow.key = t.files.map FileRow.key := by
  have read : ∀ rows : List FileRow, rows.map FileRow.key =
      (rows.map fileIdent).map fun i => (i.2.1, i.2.2.1) :=
    fun rows => by rw [List.map_map]; rfl
  rw [read, read, same.files]

theorem SameRows.exists_file (same : SameRows t t') {f : FileRow} (hf : f ∈ t'.files) :
    ∃ old ∈ t.files, fileIdent old = fileIdent f := by
  have listed : fileIdent f ∈ t.files.map fileIdent := by
    rw [← same.files]
    exact List.mem_map_of_mem hf
  exact List.mem_map.mp listed

theorem SameRows.exists_dir (same : SameRows t t') {d : DirRow} (hd : d ∈ t'.dirs) :
    ∃ old ∈ t.dirs, dirIdent old = dirIdent d := by
  have listed : dirIdent d ∈ t.dirs.map dirIdent := by
    rw [← same.dirs]
    exact List.mem_map_of_mem hd
  exact List.mem_map.mp listed

theorem SameRows.wellFormed (same : SameRows t t') (scanIDs : UniqueOn ScanRow.id t'.scans)
    (wf : t.WellFormed) : t'.WellFormed where
  locationIDs := by
    unfold UniqueOn
    rw [same.locations]
    exact wf.locationIDs
  scanIDs := scanIDs
  dirIDs := by
    unfold UniqueOn
    rw [same.dirIDs_eq]
    exact wf.dirIDs
  dirKeys := by
    unfold UniqueOn
    rw [same.dirKeys_eq]
    exact wf.dirKeys
  dirLocations := by
    intro d hd
    obtain ⟨old, hold, ident⟩ := same.exists_dir hd
    obtain ⟨l, hl, owner⟩ := wf.dirLocations old hold
    have listed : l.id ∈ t'.locations.map LocationRow.id := by
      rw [same.locations]
      exact List.mem_map_of_mem hl
    obtain ⟨l', hl', sameID⟩ := List.mem_map.mp listed
    refine ⟨l', hl', ?_⟩
    rw [sameID, owner]
    exact congrArg (fun i => i.2.1) ident
  fileIDs := by
    unfold UniqueOn
    rw [same.fileIDs_eq]
    exact wf.fileIDs
  fileKeys := by
    unfold UniqueOn
    rw [same.fileKeys_eq]
    exact wf.fileKeys
  fileDirs := by
    intro f hf
    obtain ⟨old, hold, ident⟩ := same.exists_file hf
    obtain ⟨d, hd, owner⟩ := wf.fileDirs old hold
    have listed : d.id ∈ t'.dirs.map DirRow.id := by
      rw [same.dirIDs_eq]
      exact List.mem_map_of_mem hd
    obtain ⟨d', hd', sameID⟩ := List.mem_map.mp listed
    refine ⟨d', hd', ?_⟩
    rw [sameID, owner]
    exact congrArg (fun i => i.2.1) ident
  stored := by
    intro f hf
    obtain ⟨old, hold, ident⟩ := same.exists_file hf
    have info : old.info = f.info := congrArg (fun i => i.2.2.2) ident
    rw [← info]
    exact wf.stored old hold

end SameRows

/-! ### The statements that rewrite no constrained column -/

section Updates

variable {t t' : ScanTables}

theorem sameRows_of_dirs {p : DirRow → Bool} {set : DirRow → DirRow}
    (keeps : ∀ d, dirIdent (set d) = dirIdent d) :
    SameRows t { t with dirs := updateWhere p set t.dirs } :=
  ⟨rfl, map_key_updateWhere keeps _, rfl⟩

theorem sameRows_of_files {p : FileRow → Bool} {set : FileRow → FileRow}
    (keeps : ∀ f, fileIdent (set f) = fileIdent f) :
    SameRows t { t with files := updateWhere p set t.files } :=
  ⟨rfl, rfl, map_key_updateWhere keeps _⟩

theorem beginScan_spec {now : Int} {scanID loc : UUID} {gen : Int}
    (h : beginScan now scanID loc t = .ok (t', gen)) :
    SameRows t t' ∧ t'.files = t.files ∧
      t'.dirs = updateWhere (fun d => d.locationID = loc ∧ d.lockedGeneration.isSome)
        (fun d => { d with lockedGeneration := none, dirty := true }) t.dirs ∧
      (t.WellFormed → t'.WellFormed) ∧
      ∃ row, lookup LocationRow.id loc t.locations = some row ∧ gen = row.scanGeneration + 1 := by
  unfold beginScan at h
  cases found : lookup LocationRow.id loc t.locations with
  | none => simp [found] at h
  | some row =>
    simp only [found] at h
    split at h
    · cases h
    · rename_i fresh
      injection h with h
      injection h with tables generation
      have same : SameRows t t' := by
        subst tables
        refine ⟨?_, ?_, rfl⟩
        · apply map_key_updateWhere
          exact fun _ => rfl
        · apply map_key_updateWhere
          exact fun _ => rfl
      subst tables
      refine ⟨same, rfl, rfl, ?_, row, rfl, generation.symm⟩
      intro wf
      refine same.wellFormed ?_ wf
      apply UniqueOn.append
      · apply wf.scanIDs.updateWhere
        exact fun _ => rfl
      · intro s hs used
        obtain ⟨old, hold, rfl⟩ := mem_updateWhere.mp hs
        apply fresh
        refine List.any_eq_true.mpr ⟨old, hold, ?_⟩
        split at used
        · simpa using used
        · simpa using used

theorem finishScan_wellFormed (now : Int) (scanID : UUID) (progress : Scan.Progress)
    (scanErr : Option Scan.ScanError) (wf : t.WellFormed) :
    (finishScan now scanID progress scanErr t).WellFormed := by
  have same : SameRows t (finishScan now scanID progress scanErr t) := ⟨rfl, rfl, rfl⟩
  exact same.wellFormed (wf.scanIDs.updateWhere fun _ => rfl) wf

theorem abortRunningScans_wellFormed (now : Int) (wf : t.WellFormed) :
    (abortRunningScans now t).WellFormed := by
  have same : SameRows t (abortRunningScans now t) := ⟨rfl, rfl, rfl⟩
  exact same.wellFormed (wf.scanIDs.updateWhere fun _ => rfl) wf

theorem markMissingFiles_sameRows (ids : List UUID) (t : ScanTables) :
    SameRows t (markMissingFiles ids t) := sameRows_of_files fun _ => rfl

theorem sweep_sameRows (loc : UUID) (gen : Int) (t : ScanTables) :
    SameRows t (sweep loc gen t).1 := by
  refine ⟨rfl, ?_, ?_⟩
  · apply map_key_updateWhere
    exact fun _ => rfl
  · apply map_key_updateWhere
    exact fun _ => rfl

theorem dirtyDirs_sameRows (picked : List UUID) (t : ScanTables) :
    SameRows t (dirtyDirs picked t).1 := sameRows_of_dirs fun _ => rfl

theorem dirtyDirs_wellFormed (picked : List UUID) (wf : t.WellFormed) :
    (dirtyDirs picked t).1.WellFormed :=
  (dirtyDirs_sameRows picked t).wellFormed wf.scanIDs wf

theorem sweep_wellFormed (loc : UUID) (gen : Int) (wf : t.WellFormed) :
    (sweep loc gen t).1.WellFormed :=
  (sweep_sameRows loc gen t).wellFormed wf.scanIDs wf

theorem releaseDir_spec {dirID : UUID} {gen : Int} (h : releaseDir dirID gen t = .ok t') :
    (∃ d ∈ t.dirs, d.id = dirID ∧ d.lockedGeneration = some gen) ∧
      t' = { t with
        dirs := updateWhere (lockedBy dirID gen)
          (fun d => { d with lockedGeneration := none }) t.dirs } := by
  unfold releaseDir at h
  split at h
  · rename_i locked
    injection h with h
    exact ⟨by simpa [lockedBy] using locked, h.symm⟩
  · cases h

theorem releaseAndRedirty_spec {dirID : UUID} {gen : Int}
    (h : releaseAndRedirty dirID gen t = .ok t') :
    (∃ d ∈ t.dirs, d.id = dirID ∧ d.lockedGeneration = some gen) ∧
      t' = { t with
        dirs := updateWhere (lockedBy dirID gen)
          (fun d => { d with lockedGeneration := none, dirty := true }) t.dirs } := by
  unfold releaseAndRedirty at h
  split at h
  · rename_i locked
    injection h with h
    exact ⟨by simpa [lockedBy] using locked, h.symm⟩
  · cases h

theorem releaseDir_wellFormed {dirID : UUID} {gen : Int} (h : releaseDir dirID gen t = .ok t')
    (wf : t.WellFormed) : t'.WellFormed := by
  obtain ⟨_, rfl⟩ := releaseDir_spec h
  refine SameRows.wellFormed ?_ wf.scanIDs wf
  apply sameRows_of_dirs
  exact fun _ => rfl

theorem releaseAndRedirty_wellFormed {dirID : UUID} {gen : Int}
    (h : releaseAndRedirty dirID gen t = .ok t') (wf : t.WellFormed) : t'.WellFormed := by
  obtain ⟨_, rfl⟩ := releaseAndRedirty_spec h
  refine SameRows.wellFormed ?_ wf.scanIDs wf
  apply sameRows_of_dirs
  exact fun _ => rfl

end Updates

/-! ### The rows `SyncDir` writes -/

section SyncDir

variable {t t' : ScanTables} {newDirID : UUID} {newFileID : Path → UUID} {p : Scan.SyncPayload}
  {d : UUID}

@[simp] theorem newDir_key (newDirID : UUID) (p : Scan.SyncPayload) :
    (newDir newDirID p).key = (p.locationID, p.relPath) := rfl

@[simp] theorem resyncDir_key (p : Scan.SyncPayload) (r : DirRow) : (resyncDir p r).key = r.key := rfl

@[simp] theorem resyncDir_id (p : Scan.SyncPayload) (r : DirRow) : (resyncDir p r).id = r.id := rfl

@[simp] theorem newFile_key (newFileID : Path → UUID) (d : UUID) (f : File) :
    (newFile newFileID d f).key = (d, f.name) := rfl

@[simp] theorem refreshFile_key (f : File) (r : FileRow) : (refreshFile f r).key = r.key := rfl

@[simp] theorem refreshFile_id (f : File) (r : FileRow) : (refreshFile f r).id = r.id := rfl

theorem upsertDir_spec (h : upsertDir newDirID p t = .ok (t', d)) :
    t' = { t with dirs := upsertOn DirRow.key (resyncDir p) (newDir newDirID p) t.dirs } ∧
      ((∃ row, lookup DirRow.key (p.locationID, p.relPath) t.dirs = some row ∧ row.id = d) ∨
        lookup DirRow.key (p.locationID, p.relPath) t.dirs = none ∧ d = newDirID ∧
          (∀ row ∈ t.dirs, row.id ≠ newDirID) ∧ ∃ l ∈ t.locations, l.id = p.locationID) := by
  unfold upsertDir at h
  cases found : lookup DirRow.key (p.locationID, p.relPath) t.dirs with
  | some row =>
    simp only [found] at h
    injection h with h
    injection h with tables id
    exact ⟨tables.symm, .inl ⟨row, rfl, id⟩⟩
  | none =>
    simp only [found] at h
    split at h
    · cases h
    · rename_i fresh
      split at h
      · cases h
      · rename_i located
        injection h with h
        injection h with tables id
        refine ⟨tables.symm, .inr ⟨rfl, id.symm, by simpa using fresh, ?_⟩⟩
        simpa using located

theorem upsertDir_dirID (h : upsertDir newDirID p t = .ok (t', d)) :
    t'.dirID p.locationID p.relPath = some d := by
  obtain ⟨rfl, found | ⟨found, rfl, _⟩⟩ := upsertDir_spec h
  · obtain ⟨row, found, rfl⟩ := found
    have := lookup_upsertOn_self (newDir newDirID p) t.dirs (resyncDir_key p)
    simp only [newDir_key, upserted] at this
    simp [dirID, this, found]
  · have := lookup_upsertOn_self (newDir d p) t.dirs (resyncDir_key p)
    simp only [newDir_key, upserted, found, Option.map_none, Option.getD_none] at this
    unfold dirID
    rw [this]
    rfl

theorem upsertDir_wellFormed (h : upsertDir newDirID p t = .ok (t', d)) (wf : t.WellFormed) :
    t'.WellFormed := by
  obtain ⟨rfl, cases⟩ := upsertDir_spec h
  have ids : ∀ row ∈ t.dirs,
      ∃ row' ∈ upsertOn DirRow.key (resyncDir p) (newDir newDirID p) t.dirs, row'.id = row.id := by
    intro row hrow
    refine ⟨_, upsertOn_keeps hrow, ?_⟩
    split <;> rfl
  refine { wf with dirIDs := ?_, dirKeys := ?_, dirLocations := ?_, fileDirs := ?_ }
  · rcases cases with ⟨old, found, _⟩ | ⟨found, _, fresh, _⟩
    · rw [upsertOn_of_lookup (newDir newDirID p) found]
      exact wf.dirIDs.updateWhere fun _ => rfl
    · rw [upsertOn_of_absent (newDir newDirID p) found]
      exact wf.dirIDs.append fresh
  · exact wf.dirKeys.upsertOn (resyncDir_key p)
  · intro row hrow
    rcases mem_upsertOn hrow with ⟨rfl, _⟩ | ⟨old, _⟩ | ⟨old, hold, _, rfl⟩
    · rcases cases with ⟨old, found, _⟩ | ⟨_, _, _, located⟩
      · obtain ⟨l, hl, owner⟩ := wf.dirLocations old (mem_of_lookup found)
        refine ⟨l, hl, owner.trans ?_⟩
        exact congrArg Prod.fst (key_of_lookup found)
      · exact located
    · exact wf.dirLocations row old
    · exact wf.dirLocations old hold
  · intro f hf
    obtain ⟨row, hrow, owner⟩ := wf.fileDirs f hf
    obtain ⟨row', hrow', same⟩ := ids row hrow
    exact ⟨row', hrow', same.trans owner⟩

theorem upsertFile_spec {f : File} (h : upsertFile newFileID d f t = .ok t') :
    t' = { t with files := upsertOn FileRow.key (refreshFile f) (newFile newFileID d f) t.files } ∧
      (lookup FileRow.key (d, f.name) t.files = none →
        ∀ r ∈ t.files, r.id ≠ (newFile newFileID d f).id) := by
  unfold upsertFile at h
  simp only at h
  split at h
  · cases h
  · rename_i fresh
    injection h with h
    refine ⟨h.symm, ?_⟩
    intro absent r hr used
    exact fresh ⟨by simp [absent], List.any_eq_true.mpr ⟨r, hr, by simpa using used⟩⟩

theorem FileInfo.stored_stored (i : FileInfo) : i.stored.stored = i.stored := by
  simp [FileInfo.stored]

theorem upsertFile_wellFormed {f : File} (h : upsertFile newFileID d f t = .ok t')
    (owner : ∃ row ∈ t.dirs, row.id = d) (wf : t.WellFormed) : t'.WellFormed := by
  obtain ⟨rfl, fresh⟩ := upsertFile_spec h
  refine { wf with fileIDs := ?_, fileKeys := ?_, fileDirs := ?_, stored := ?_ }
  · cases found : lookup FileRow.key (d, f.name) t.files with
    | some old =>
      rw [upsertOn_of_lookup (newFile newFileID d f) found]
      exact wf.fileIDs.updateWhere fun _ => rfl
    | none =>
      rw [upsertOn_of_absent (newFile newFileID d f) found]
      exact wf.fileIDs.append (fresh found)
  · exact wf.fileKeys.upsertOn (refreshFile_key f)
  · intro r hr
    rcases mem_upsertOn hr with ⟨rfl, _⟩ | ⟨old, _⟩ | ⟨old, hold, _, rfl⟩
    · exact owner
    · exact wf.fileDirs r old
    · exact wf.fileDirs old hold
  · intro r hr
    rcases mem_upsertOn hr with ⟨rfl, _⟩ | ⟨old, _⟩ | ⟨old, hold, _, rfl⟩
    · exact FileInfo.stored_stored f.info
    · exact wf.stored r old
    · exact FileInfo.stored_stored f.info

theorem upsertFiles_cons {f : File} {fs : List File}
    (h : upsertFiles newFileID d (f :: fs) t = .ok t') :
    ∃ u, upsertFile newFileID d f t = .ok u ∧ upsertFiles newFileID d fs u = .ok t' := by
  unfold upsertFiles at h
  cases first : upsertFile newFileID d f t with
  | error e => simp [first, bind, Except.bind] at h
  | ok u => exact ⟨u, rfl, by simpa only [first, bind, Except.bind] using h⟩

theorem upsertFiles_frame {fs : List File} (h : upsertFiles newFileID d fs t = .ok t') :
    t'.dirs = t.dirs ∧ t'.locations = t.locations ∧ t'.scans = t.scans := by
  induction fs generalizing t with
  | nil => cases h; exact ⟨rfl, rfl, rfl⟩
  | cons f fs ih =>
    obtain ⟨u, first, rest⟩ := upsertFiles_cons h
    obtain ⟨rfl, _⟩ := upsertFile_spec first
    have later := ih rest
    exact later

theorem upsertFiles_wellFormed {fs : List File} (h : upsertFiles newFileID d fs t = .ok t')
    (owner : ∃ row ∈ t.dirs, row.id = d) (wf : t.WellFormed) : t'.WellFormed := by
  induction fs generalizing t with
  | nil => cases h; exact wf
  | cons f fs ih =>
    obtain ⟨u, first, rest⟩ := upsertFiles_cons h
    have next := upsertFile_wellFormed first owner wf
    have rows := (upsertFile_spec first).1
    refine ih rest ?_ next
    rw [rows]
    exact owner

/-- `SyncDir` is its three statements, one after the other. -/
theorem syncDir_spec (h : syncDir newDirID newFileID p t = .ok (t', d)) :
    ∃ u, upsertDir newDirID p t = .ok (u, d) ∧
      upsertFiles newFileID d p.changed (markMissingFiles p.missing u) = .ok t' := by
  unfold syncDir at h
  cases first : upsertDir newDirID p t with
  | error e => simp [first, bind, Except.bind] at h
  | ok result =>
    obtain ⟨u, id⟩ := result
    simp only [first, bind, Except.bind] at h
    cases second : upsertFiles newFileID id p.changed (markMissingFiles p.missing u) with
    | error e => simp [second] at h
    | ok v =>
      simp only [second, pure, Except.pure] at h
      injection h with h
      injection h with tables same
      subst tables same
      exact ⟨u, rfl, second⟩

theorem exists_dir_of_dirID {loc : UUID} {rel : Path} (h : t.dirID loc rel = some d) :
    ∃ row ∈ t.dirs, row.id = d ∧ row.key = (loc, rel) := by
  obtain ⟨row, found, rfl⟩ := Option.map_eq_some_iff.mp h
  exact ⟨row, mem_of_lookup found, rfl, key_of_lookup found⟩

theorem syncDir_wellFormed (h : syncDir newDirID newFileID p t = .ok (t', d))
    (wf : t.WellFormed) : t'.WellFormed := by
  obtain ⟨u, first, second⟩ := syncDir_spec h
  have wfU := upsertDir_wellFormed first wf
  obtain ⟨row, hrow, same, _⟩ := exists_dir_of_dirID (upsertDir_dirID first)
  have marked := (markMissingFiles_sameRows p.missing u).wellFormed wfU.scanIDs wfU
  exact upsertFiles_wellFormed second ⟨row, hrow, same⟩ marked

theorem insertLocation_frame {id : UUID} {uri : String} (h : insertLocation id uri t = .ok t') :
    t'.dirs = t.dirs ∧ t'.files = t.files := by
  unfold insertLocation at h
  split at h
  · cases h
  · cases h
    exact ⟨rfl, rfl⟩

theorem insertLocation_wellFormed {id : UUID} {uri : String}
    (h : insertLocation id uri t = .ok t') (wf : t.WellFormed) : t'.WellFormed := by
  unfold insertLocation at h
  split at h
  · cases h
  · rename_i fresh
    injection h with h
    subst h
    refine { wf with locationIDs := ?_, dirLocations := ?_ }
    · apply wf.locationIDs.append
      intro l hl used
      exact fresh (List.any_eq_true.mpr ⟨l, hl, by simpa using .inl used⟩)
    · intro row hrow
      obtain ⟨l, hl, owner⟩ := wf.dirLocations row hrow
      exact ⟨l, List.mem_append_left _ hl, owner⟩

end SyncDir

end Byom.Sqlite.ScanTables
