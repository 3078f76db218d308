import Byom.Metadata.Claims

/-!
# No stale import wins

Between a claim and its release the library holds the import of what the worker
read, or the dir is dirty again. This needs claims to exclude each other, so it
holds along the same runs.
-/

namespace Byom.Metadata.Pipeline

open Storage Relational Sqlite Transition

variable {Import : Type} {importOf : List File → Import} {s s' : Pipeline Import}
  {t t' : ScanTables} {c : ClaimedDir} {w : Nat} {x y : Worker}

/-- The library has the import of the dir's current file rows. -/
def Current (importOf : List File → Import) (s : Pipeline Import) (dirID : UUID) : Prop :=
  s.library dirID = importOf (s.tables.dirFiles dirID)

/-- Neither dirty nor locked, and no attempt has failed since the file rows changed. -/
def Settled (s : Pipeline Import) (d : DirRow) : Prop :=
  d.dirty = false ∧ d.lockedGeneration = none ∧ s.failedSince d.id = false

/-- No scan is in flight and no worker holds a claim. -/
def Quiescent (s : Pipeline Import) : Prop := s.scanning = [] ∧ s.held = []

/-- Every settled dir has its current import. -/
def AllCurrent (importOf : List File → Import) (s : Pipeline Import) : Prop :=
  ∀ d ∈ s.tables.dirs, s.Settled d → Current importOf s d.id

instance [DecidableEq Import] : DecidablePred (AllCurrent importOf : Pipeline Import → Prop) := fun s =>
  inferInstanceAs (Decidable (∀ d ∈ s.tables.dirs, (_ ∧ _ ∧ _) → _ = _))

instance [DecidableEq Import] : DecidablePred fun s : Pipeline Import =>
    s.Quiescent → AllCurrent importOf s := fun _ =>
  inferInstanceAs (Decidable ((_ = _ ∧ _ = _) → _))

def isSweep : Action → Bool
  | .sweep _ => true
  | _ => false

/-- Sweeps are left out, and a scan begins while no claim on its location is out. -/
def Undisturbed (s : Pipeline Import) (a : Action) : Prop :=
  isSweep a = false ∧ s.BeginsUnheld a

instance (s : Pipeline Import) (a : Action) : Decidable (s.Undisturbed a) :=
  inferInstanceAs (Decidable (_ ∧ _))

/-! ### The invariant -/

def IsDirty (t : ScanTables) (dirID : UUID) : Prop := ∃ d ∈ t.dirs, d.id = dirID ∧ d.dirty = true

/-- What a worker has done is up to date, unless its dir is dirty again. -/
def WorkerFresh (importOf : List File → Import) (s : Pipeline Import) : Worker → Prop
  | .read dir files => files = s.tables.dirFiles dir.id ∨ IsDirty s.tables dir.id
  | .imported dir => Current importOf s dir.id ∨ IsDirty s.tables dir.id
  | .cleared dir => Current importOf s dir.id ∨ IsDirty s.tables dir.id
  | .failed dir => s.failedSince dir.id = true ∨ IsDirty s.tables dir.id
  | .givingUp dir => s.failedSince dir.id = true ∨ IsDirty s.tables dir.id
  | _ => True

structure Fresh (importOf : List File → Import) (s : Pipeline Import) : Prop where
  claims : s.Claims
  settled : AllCurrent importOf s
  workers : ∀ x ∈ s.workers, WorkerFresh importOf s x
  absent : ∀ id, (∀ d ∈ s.tables.dirs, d.id ≠ id) → s.library id = importOf []

/-- A step leaves a dir as fresh as it was: it is dirty afterwards, or nothing that
freshness reads has changed. -/
structure Keeps (s s' : Pipeline Import) (dirID : UUID) : Prop where
  dirty : IsDirty s.tables dirID → IsDirty s'.tables dirID
  same : (s'.tables.dirFiles dirID = s.tables.dirFiles dirID ∧
      s'.library dirID = s.library dirID ∧
      (s.failedSince dirID = true → s'.failedSince dirID = true)) ∨ IsDirty s'.tables dirID

theorem Keeps.of_eq {dirID : UUID} (files : s'.tables.dirFiles dirID = s.tables.dirFiles dirID)
    (library : s'.library dirID = s.library dirID)
    (failed : s.failedSince dirID = true → s'.failedSince dirID = true)
    (dirty : IsDirty s.tables dirID → IsDirty s'.tables dirID) : Keeps s s' dirID :=
  ⟨dirty, .inl ⟨files, library, failed⟩⟩

theorem WorkerFresh.keep (fresh : WorkerFresh importOf s x)
    (keeps : ∀ dir, x.claim = some dir → Keeps s s' dir.id) : WorkerFresh importOf s' x := by
  cases x with
  | idle => trivial
  | claimed dir => trivial
  | redirtying dir => trivial
  | redirtied => trivial
  | read dir files =>
    obtain ⟨dirty, ⟨same, _, _⟩ | again⟩ := keeps dir rfl
    · rcases fresh with fresh | again
      · exact .inl (fresh.trans same.symm)
      · exact .inr (dirty again)
    · exact .inr again
  | imported dir =>
    obtain ⟨dirty, ⟨same, library, _⟩ | again⟩ := keeps dir rfl
    · rcases fresh with fresh | again
      · left
        unfold Current
        rw [same, library]
        exact fresh
      · exact .inr (dirty again)
    · exact .inr again
  | cleared dir =>
    obtain ⟨dirty, ⟨same, library, _⟩ | again⟩ := keeps dir rfl
    · rcases fresh with fresh | again
      · left
        unfold Current
        rw [same, library]
        exact fresh
      · exact .inr (dirty again)
    · exact .inr again
  | failed dir =>
    obtain ⟨dirty, ⟨_, _, failed⟩ | again⟩ := keeps dir rfl
    · exact fresh.imp failed dirty
    · exact .inr again
  | givingUp dir =>
    obtain ⟨dirty, ⟨_, _, failed⟩ | again⟩ := keeps dir rfl
    · exact fresh.imp failed dirty
    · exact .inr again

/-- After `setWorker`, a worker is the new one or one of the others. -/
theorem mem_setWorker (found : s.workers[w]? = some x) {z : Worker}
    (hz : z ∈ (s.setWorker w y).workers) : z = y ∨ z ∈ s.workers.eraseIdx w := by
  obtain ⟨inside, _⟩ := List.getElem?_eq_some_iff.mp found
  have perm := List.set_perm_cons_eraseIdx inside y
  exact List.mem_cons.mp (perm.mem_iff.mp hz)

/-- The other workers hold other dirs. -/
theorem Claims.others (claims : s.Claims) (found : s.workers[w]? = some x)
    (had : x.claim = some c) {z : Worker} (hz : z ∈ s.workers.eraseIdx w) {dir : ClaimedDir}
    (holds : z.claim = some dir) : dir.id ≠ c.id := by
  obtain ⟨inside, here⟩ := List.getElem?_eq_some_iff.mp found
  have perm := (List.getElem_cons_eraseIdx_perm inside).filterMap Worker.claim
  rw [here, List.filterMap_cons_some had] at perm
  have all := claims.leases.exclusive
  unfold held at all
  rw [List.map_append, List.nodup_append] at all
  have nodup := ((perm.map ClaimedDir.id).nodup_iff.mpr all.2.1)
  intro same
  apply (List.nodup_cons.mp nodup).1
  have listed : dir ∈ (s.workers.eraseIdx w).filterMap Worker.claim :=
    List.mem_filterMap.mpr ⟨z, hz, holds⟩
  exact same ▸ List.mem_map_of_mem listed

/-- The dir of a claim is locked, so it is not settled. -/
theorem Claims.locked (claims : s.Claims) (hc : c ∈ s.held) {d : DirRow}
    (hd : d ∈ s.tables.dirs) (same : d.id = c.id) :
    d.lockedGeneration = some c.lockedGeneration := by
  obtain ⟨row, hrow, id, _, locked⟩ := claims.leases.backed c hc
  obtain rfl := claims.wellFormed.dirIDs.eq_of_key hd hrow (same.trans id.symm)
  exact locked

theorem mem_held (found : s.workers[w]? = some x) (had : x.claim = some c) : c ∈ s.held := by
  unfold held
  apply List.mem_append_right
  exact List.mem_filterMap.mpr ⟨x, List.mem_of_getElem? found, had⟩

/-! ### Steps that write no table -/

/-- A worker moves on; the tables and the library stay as they were. -/
theorem Fresh.worker (fresh : Fresh importOf s) (claims : s'.Claims)
    (tables : s'.tables = s.tables) (library : s'.library = s.library)
    (failed : s'.failedSince = s.failedSince) (workers : s'.workers = s.workers.set w y)
    (found : s.workers[w]? = some x) (new : WorkerFresh importOf s y) : Fresh importOf s' := by
  have keeps : ∀ id, Keeps s s' id := by
    intro id
    refine .of_eq (by rw [tables]) (by rw [library]) ?_ ?_
    · rw [failed]
      exact fun flag => flag
    · rw [tables]
      exact fun dirty => dirty
  refine ⟨claims, ?_, ?_, ?_⟩
  · intro d hd settled
    unfold Settled at settled
    unfold Current
    rw [failed] at settled
    rw [tables] at hd
    rw [tables, library]
    exact fresh.settled d hd settled
  · intro z hz
    rw [workers] at hz
    rcases mem_setWorker found hz with rfl | other
    · exact new.keep fun dir _ => keeps dir.id
    · have before := fresh.workers z ((List.eraseIdx_sublist ..).subset other)
      exact before.keep fun dir _ => keeps dir.id
  · intro id gone
    rw [tables] at gone
    rw [library]
    exact fresh.absent id gone

theorem IsDirty.updateWhere {id : UUID} {p : DirRow → Bool} {set : DirRow → DirRow}
    (dirty : IsDirty t id) (dirs : t'.dirs = updateWhere p set t.dirs)
    (ids : ∀ d, (set d).id = d.id)
    (keeps : ∀ d ∈ t.dirs, d.id = id → p d = true → d.dirty = true → (set d).dirty = true) :
    IsDirty t' id := by
  obtain ⟨d, hd, same, flag⟩ := dirty
  refine ⟨if p d then set d else d, ?_, ?_⟩
  · rw [dirs]
    exact mem_updateWhere.mpr ⟨d, hd, rfl⟩
  · by_cases hit : p d = true
    · rw [if_pos hit, ids]
      exact ⟨same, keeps d hd same hit flag⟩
    · rw [if_neg hit]
      exact ⟨same, flag⟩

theorem absent_updateWhere {p : DirRow → Bool} {set : DirRow → DirRow} {id : UUID}
    (dirs : t'.dirs = updateWhere p set t.dirs) (ids : ∀ d, (set d).id = d.id)
    (gone : ∀ d ∈ t'.dirs, d.id ≠ id) : ∀ d ∈ t.dirs, d.id ≠ id := by
  intro d hd
  have listed : (if p d then set d else d) ∈ t'.dirs := by
    rw [dirs]
    exact mem_updateWhere.mpr ⟨d, hd, rfl⟩
  have apart := gone _ listed
  by_cases hit : p d = true
  · rwa [if_pos hit, ids] at apart
  · rwa [if_neg hit] at apart

/-! ### Steps that write the queue columns -/

/-- A write of the queue columns keeps everything fresh if the dirs it touches end
up dirty, locked, or freed by a worker whose dir is accounted for. -/
theorem Fresh.queueWrite (fresh : Fresh importOf s) {p : DirRow → Bool} {set : DirRow → DirRow}
    (claims : s'.Claims) (files : s'.tables.files = s.tables.files)
    (dirs : s'.tables.dirs = updateWhere p set s.tables.dirs) (ids : ∀ d, (set d).id = d.id)
    (library : s'.library = s.library) (failed : s'.failedSince = s.failedSince)
    (touched : ∀ d ∈ s.tables.dirs, p d = true → s'.Settled (set d) → Current importOf s d.id)
    (dirty : ∀ z ∈ s'.workers, ∀ dir, z.claim = some dir → ∀ d ∈ s.tables.dirs, d.id = dir.id →
      p d = true → d.dirty = true → (set d).dirty = true)
    (workers : ∀ z ∈ s'.workers, WorkerFresh importOf s z) : Fresh importOf s' := by
  have sameFiles : ∀ id, s'.tables.dirFiles id = s.tables.dirFiles id := by
    intro id
    apply ScanTables.dirFiles_of_rowsOf
    unfold ScanTables.rowsOf
    rw [files]
  refine ⟨claims, ?_, ?_, ?_⟩
  · intro d hd settled
    rw [dirs] at hd
    obtain ⟨old, hold, rfl⟩ := mem_updateWhere.mp hd
    have current : Current importOf s old.id := by
      by_cases hit : p old = true
      · rw [if_pos hit] at settled
        exact touched old hold hit settled
      · rw [if_neg hit] at settled
        refine fresh.settled old hold ?_
        unfold Settled at settled ⊢
        rwa [failed] at settled
    have sameID : (if p old then set old else old).id = old.id := by
      by_cases hit : p old = true
      · rw [if_pos hit, ids]
      · rw [if_neg hit]
    unfold Current
    rw [sameID, library, sameFiles]
    exact current
  · intro z hz
    refine (workers z hz).keep ?_
    intro dir holds
    refine .of_eq (sameFiles _) (congrFun library _) (fun flag => by rw [failed]; exact flag) ?_
    intro flag
    exact flag.updateWhere dirs ids (dirty z hz dir holds)
  · intro id gone
    rw [library]
    exact fresh.absent id (absent_updateWhere dirs ids gone)

/-- A release unlocks the dir of a worker that is fresh. -/
theorem Fresh.releaseDir (fresh : Fresh importOf s) {dir : ClaimedDir}
    (claims : Claims { s with workers := s.workers.set w .idle, tables := t })
    (found : s.workers[w]? = some x) (releasing : x.releasing = some dir)
    (released : s.tables.releaseDir dir.id dir.lockedGeneration = .ok t) :
    Fresh importOf { s with workers := s.workers.set w .idle, tables := t } := by
  obtain ⟨_, rfl⟩ := ScanTables.releaseDir_spec released
  have own := fresh.workers x (List.mem_of_getElem? found)
  refine fresh.queueWrite claims rfl rfl (fun _ => rfl) rfl rfl ?_ ?_ ?_
  · intro d hd hit settled
    have sameID : d.id = dir.id := (lockedBy_iff.mp hit).1
    have clean : ¬ IsDirty s.tables dir.id := by
      rintro ⟨row, hrow, id, flag⟩
      obtain rfl := fresh.claims.wellFormed.dirIDs.eq_of_key hd hrow (sameID.trans id.symm)
      have off : d.dirty = false := settled.1
      rw [flag] at off
      cases off
    have notFailed : s.failedSince dir.id = false := by
      rw [← sameID]
      exact settled.2.2
    rw [sameID]
    rcases releasing_cases releasing with rfl | rfl
    · exact own.resolve_right clean
    · have failed := own.resolve_right clean
      rw [notFailed] at failed
      cases failed
  · exact fun _ _ _ _ _ _ _ _ flag => flag
  · intro z hz
    rcases mem_setWorker found hz with rfl | other
    · trivial
    · exact fresh.workers z ((List.eraseIdx_sublist ..).subset other)

theorem Fresh.releaseAndRedirty (fresh : Fresh importOf s) {dir : ClaimedDir}
    (claims : Claims { s with workers := s.workers.set w .redirtied, tables := t })
    (found : s.workers[w]? = some (.redirtying dir))
    (released : s.tables.releaseAndRedirty dir.id dir.lockedGeneration = .ok t) :
    Fresh importOf { s with workers := s.workers.set w .redirtied, tables := t } := by
  obtain ⟨_, rfl⟩ := ScanTables.releaseAndRedirty_spec released
  refine fresh.queueWrite claims rfl rfl (fun _ => rfl) rfl rfl ?_ ?_ ?_
  · intro d _ _ settled
    have clean : true = false := settled.1
    cases clean
  · exact fun _ _ _ _ _ _ _ _ _ => rfl
  · intro z hz
    rcases mem_setWorker found hz with rfl | other
    · trivial
    · exact fresh.workers z ((List.eraseIdx_sublist ..).subset other)

/-- `BeginScan` makes dirty whatever it unlocks. -/
theorem Fresh.beginScan (fresh : Fresh importOf s) (claims : s'.Claims) {loc : UUID}
    (files : s'.tables.files = s.tables.files)
    (dirs : s'.tables.dirs =
      updateWhere (fun d => d.locationID = loc ∧ d.lockedGeneration.isSome)
        (fun d => { d with lockedGeneration := none, dirty := true }) s.tables.dirs)
    (library : s'.library = s.library) (failed : s'.failedSince = s.failedSince)
    (workers : s'.workers = s.workers) : Fresh importOf s' := by
  refine fresh.queueWrite claims files dirs (fun _ => rfl) library failed ?_ ?_ ?_
  · intro d _ _ settled
    have clean : true = false := settled.1
    cases clean
  · exact fun _ _ _ _ _ _ _ _ _ => rfl
  · rw [workers]
    exact fresh.workers

/-- `DirtyDirs` clears the flag of dirs that no worker holds. -/
theorem Fresh.dirtyDirs (fresh : Fresh importOf s) (claims : s'.Claims) {picked : List UUID}
    (picks : s.tables.Picks s.workers.length picked)
    (tables : s'.tables = (s.tables.dirtyDirs picked).1) (library : s'.library = s.library)
    (failed : s'.failedSince = s.failedSince) (workers : s'.workers = s.workers) :
    Fresh importOf s' := by
  obtain ⟨_, _, free⟩ := dirtyDirs_claim fresh.claims.wellFormed picks
  have files : s'.tables.files = s.tables.files := by
    rw [tables]
    rfl
  have dirs : s'.tables.dirs = updateWhere (fun d => d.id ∈ picked)
      (fun d => { d with dirty := false, lockedGeneration := some d.seenGeneration })
      s.tables.dirs := by
    rw [tables]
    rfl
  refine fresh.queueWrite claims files dirs (fun _ => rfl) library failed ?_ ?_ ?_
  · intro d _ _ settled
    have unlocked := settled.2.1
    simp at unlocked
  · intro z hz dir holds d hd same hit _
    rw [workers] at hz
    obtain ⟨i, _, here⟩ := List.getElem_of_mem hz
    have out := mem_held (List.getElem?_eq_some_iff.mpr ⟨_, here⟩) holds
    have locked := fresh.claims.locked out hd same
    simp only [decide_eq_true_eq] at hit
    obtain ⟨row, hrow, id, _, unlocked⟩ := free d.id hit
    obtain rfl := fresh.claims.wellFormed.dirIDs.eq_of_key hrow hd id
    rw [unlocked] at locked
    cases locked
  · rw [workers]
    exact fresh.workers

/-! ### Steps that write the library, the ghost flag or the file rows -/

/-- An import of what the worker read; its dir is locked, and the other workers
hold other dirs. -/
theorem Fresh.importDir (fresh : Fresh importOf s) {dir : ClaimedDir} {files : List File}
    (claims : Claims { s with
      workers := s.workers.set w (.imported dir)
      library := Function.update s.library dir.id (importOf files) })
    (found : s.workers[w]? = some (.read dir files)) :
    Fresh importOf { s with
      workers := s.workers.set w (.imported dir)
      library := Function.update s.library dir.id (importOf files) } := by
  have out : dir ∈ s.held := mem_held found rfl
  refine ⟨claims, ?_, ?_, ?_⟩
  · intro d hd settled
    have apart : d.id ≠ dir.id := by
      intro same
      have locked := fresh.claims.locked out hd same
      rw [settled.2.1] at locked
      cases locked
    exact (Function.update_of_ne apart ..).trans (fresh.settled d hd settled)
  · intro z hz
    rcases mem_setWorker found hz with rfl | other
    · have own : files = s.tables.dirFiles dir.id ∨ IsDirty s.tables dir.id :=
        fresh.workers _ (List.mem_of_getElem? found)
      rcases own with same | again
      · left
        subst same
        exact Function.update_self ..
      · exact .inr again
    · refine (fresh.workers z ((List.eraseIdx_sublist ..).subset other)).keep ?_
      intro held holds
      have apart := fresh.claims.others found rfl other holds
      exact .of_eq rfl (Function.update_of_ne apart ..) id id
  · intro id gone
    have apart : id ≠ dir.id := by
      rintro rfl
      obtain ⟨row, hrow, same, _⟩ := fresh.claims.leases.backed dir out
      exact gone row hrow same
    exact (Function.update_of_ne apart ..).trans (fresh.absent id gone)

theorem Fresh.fail (fresh : Fresh importOf s) {dir : ClaimedDir}
    (claims : Claims { s with
      workers := s.workers.set w (.failed dir)
      failedSince := Function.update s.failedSince dir.id true })
    (found : s.workers[w]? = some x) :
    Fresh importOf { s with
      workers := s.workers.set w (.failed dir)
      failedSince := Function.update s.failedSince dir.id true } := by
  have mono : ∀ id, s.failedSince id = true →
      Function.update s.failedSince dir.id true id = true := by
    intro id flag
    by_cases same : id = dir.id
    · rw [same, Function.update_self]
    · rwa [Function.update_of_ne same]
  refine ⟨claims, ?_, ?_, fresh.absent⟩
  · intro d hd settled
    refine fresh.settled d hd ⟨settled.1, settled.2.1, ?_⟩
    by_contra flag
    have still := mono d.id (by simpa using flag)
    have off : Function.update s.failedSince dir.id true d.id = false := settled.2.2
    rw [off] at still
    cases still
  · intro z hz
    rcases mem_setWorker found hz with rfl | other
    · left
      exact Function.update_self ..
    · refine (fresh.workers z ((List.eraseIdx_sublist ..).subset other)).keep ?_
      exact fun held _ => .of_eq rfl rfl (mono held.id) id

section SyncDir

variable {newDirID dirID : UUID} {newFileID : Path → UUID} {p : Scan.SyncPayload}

theorem IsDirty.syncDir (h : t.syncDir newDirID newFileID p = .ok (t', dirID)) {id : UUID}
    (dirty : IsDirty t id) : IsDirty t' id := by
  obtain ⟨d, hd, same, flag⟩ := dirty
  refine ⟨_, ScanTables.syncDir_dirs h ▸ upsertOn_keeps hd, ?_, ?_⟩
  · split <;> exact same
  · split
    · simp [ScanTables.resyncDir, flag]
    · exact flag

theorem isDirty_of_payload (h : t.syncDir newDirID newFileID p = .ok (t', dirID))
    (dirty : p.dirty = true) : IsDirty t' dirID := by
  obtain ⟨row, found, id⟩ := Option.map_eq_some_iff.mp (ScanTables.syncDir_dirID h)
  refine ⟨row, mem_of_lookup found, id, ?_⟩
  have written := lookup_upsertOn_self (ScanTables.newDir newDirID p) t.dirs
    (ScanTables.resyncDir_key p)
  rw [upserted, ScanTables.newDir_key, ← ScanTables.syncDir_dirs h, found] at written
  cases old : lookup DirRow.key (p.locationID, p.relPath) t.dirs with
  | none =>
    rw [old] at written
    obtain rfl := Option.some.inj written
    exact dirty
  | some d =>
    rw [old] at written
    obtain rfl := Option.some.inj written
    simp [ScanTables.resyncDir, dirty]

/-- The ghost flag after a sync: unchanged unless the dir's file rows changed, and
then the dir is dirty. -/
theorem Fresh.syncDir (fresh : Fresh importOf s) (claims : s'.Claims)
    (inside : s.tables.MissingInside p)
    (h : s.tables.syncDir newDirID newFileID p = .ok (s'.tables, dirID))
    (truthful : p.dirty = true ∨ s'.tables.files = s.tables.files)
    (library : s'.library = s.library) (workers : s'.workers = s.workers)
    (failed : s'.failedSince =
      if s'.tables.rowsOf dirID = s.tables.rowsOf dirID then s.failedSince
      else Function.update s.failedSince dirID false) : Fresh importOf s' := by
  have wf := fresh.claims.wellFormed
  have sameFiles : ∀ id, id ≠ dirID ∨ p.dirty = false →
      s'.tables.dirFiles id = s.tables.dirFiles id := by
    intro id apart
    apply ScanTables.dirFiles_of_rowsOf
    rcases apart with other | clean
    · exact ScanTables.syncDir_rowsOf_ne inside h other
    · unfold ScanTables.rowsOf
      rw [truthful.resolve_left (by simp [clean])]
  have sameFlag : ∀ id, id ≠ dirID ∨ p.dirty = false → s'.failedSince id = s.failedSince id := by
    intro id apart
    rw [failed]
    split
    · rfl
    · rename_i changed
      rcases apart with other | clean
      · exact Function.update_of_ne other ..
      · refine absurd ?_ changed
        unfold ScanTables.rowsOf
        rw [truthful.resolve_left (by simp [clean])]
  have current : ∀ id, id ≠ dirID ∨ p.dirty = false → Current importOf s id →
      Current importOf s' id := by
    intro id apart before
    unfold Current
    rw [library, sameFiles id apart]
    exact before
  refine ⟨claims, ?_, ?_, ?_⟩
  · intro d hd settled
    obtain ⟨clean, unlocked, notFailed⟩ := settled
    have target := ScanTables.syncDir_dirID h
    rw [ScanTables.syncDir_dirs h] at hd
    rcases mem_upsertOn hd with ⟨rfl, absent⟩ | ⟨old, other⟩ | ⟨old, hold, same, rfl⟩
    · -- A new dir that is not dirty has no files, and nothing was imported for it.
      obtain ⟨u, first, _⟩ := ScanTables.syncDir_spec h
      obtain ⟨_, ⟨row, found, _⟩ | ⟨_, rfl, unused, _⟩⟩ := ScanTables.upsertDir_spec first
      · rw [ScanTables.newDir_key, found] at absent
        cases absent
      · have noFiles : s.tables.dirFiles dirID = [] := by
          have noRows : s.tables.rowsOf dirID = [] := by
            apply List.filter_eq_nil_iff.mpr
            intro f hf owned
            obtain ⟨row, hrow, owner⟩ := wf.fileDirs f hf
            exact unused row hrow (owner.trans (by simpa using owned))
          have empty : (ScanTables.empty).dirFiles dirID = [] := rfl
          rw [← empty]
          exact ScanTables.dirFiles_of_rowsOf noRows
        refine current dirID (.inr clean) ?_
        unfold Current
        rw [noFiles]
        exact fresh.absent dirID unused
    · have apart : d.id ≠ dirID := by
        intro same
        obtain ⟨row, hrow, id, key⟩ := ScanTables.exists_dir_of_dirID target
        have inNew : d ∈ s'.tables.dirs := by
          rw [ScanTables.syncDir_dirs h]
          exact hd
        obtain rfl := claims.wellFormed.dirIDs.eq_of_key inNew hrow (same.trans id.symm)
        exact other key
      refine current d.id (.inl apart) (fresh.settled d old ⟨clean, unlocked, ?_⟩)
      rw [← sameFlag d.id (.inl apart)]
      exact notFailed
    · have notDirty : p.dirty = false ∧ old.dirty = false := by
        have flag : (if p.dirty then true else old.dirty) = false := clean
        cases dirty : p.dirty with
        | true => simp [dirty] at flag
        | false => simpa [dirty] using flag
      refine current old.id (.inr notDirty.1) (fresh.settled old hold ⟨notDirty.2, unlocked, ?_⟩)
      rw [← sameFlag old.id (.inr notDirty.1)]
      exact notFailed
  · rw [workers]
    intro z hz
    refine (fresh.workers z hz).keep ?_
    intro dir _
    refine ⟨fun dirty => dirty.syncDir h, ?_⟩
    by_cases apart : dir.id ≠ dirID ∨ p.dirty = false
    · refine .inl ⟨sameFiles _ apart, congrFun library _, ?_⟩
      rw [sameFlag _ apart]
      exact id
    · right
      have both : dir.id = dirID ∧ p.dirty = true := by simpa using apart
      rw [both.1]
      exact isDirty_of_payload h both.2
  · intro id gone
    rw [library]
    apply fresh.absent id
    intro d hd same
    refine gone _ (ScanTables.syncDir_dirs h ▸ upsertOn_keeps hd) ?_
    split <;> exact same

end SyncDir

/-! ### Runs -/

/-- The library an earlier process left: the dirs that are neither dirty nor locked
have their import, and dirs that do not exist have that of no files. -/
structure UpToDate (importOf : List File → Import) (t : ScanTables) (library : UUID → Import) :
    Prop where
  dirs : ∀ d ∈ t.dirs, d.dirty = false → d.lockedGeneration = none →
    library d.id = importOf (t.dirFiles d.id)
  absent : ∀ id, (∀ d ∈ t.dirs, d.id ≠ id) → library id = importOf []

theorem start_fresh (wf : t.WellFormed) {library : UUID → Import}
    (upToDate : UpToDate importOf t library) (n : Nat) :
    Fresh importOf (start t library n) where
  claims := start_claims wf library n
  settled := fun d hd settled => upToDate.dirs d hd settled.1 settled.2.1
  workers := by
    intro x hx
    rw [List.eq_of_mem_replicate hx]
    trivial
  absent := upToDate.absent

theorem step_fresh {a : Action} (fresh : Fresh importOf s) (undisturbed : s.Undisturbed a)
    (h : s.step importOf a = some s') : Fresh importOf s' := by
  have claims := step_claims fresh.claims undisturbed.2 h
  cases a with
  | beginScan loc now scanID =>
    obtain ⟨t, gen, began, rfl⟩ := beginScan_cases h
    obtain ⟨_, files, dirs, _⟩ := ScanTables.beginScan_spec began
    exact fresh.beginScan claims files dirs rfl rfl rfl
  | syncDir newDirID newFileID payload =>
    obtain ⟨inside, t, dirID, synced, truthful, rfl⟩ := syncDir_cases h
    exact fresh.syncDir claims inside synced truthful rfl rfl rfl
  | onDirty i =>
    obtain ⟨_, rfl⟩ := onDirty_cases h
    exact { fresh with claims }
  | sweep loc =>
    have none_ : true = false := undisturbed.1
    cases none_
  | finishScan loc now progress scanErr =>
    obtain ⟨scanID, rfl⟩ := finishScan_cases h
    exact { fresh with claims }
  | receiveToken =>
    obtain ⟨_, rfl⟩ := receiveToken_cases h
    exact { fresh with claims }
  | dirtyDirs picked =>
    obtain ⟨_, picks, rfl⟩ := dirtyDirs_cases h
    exact fresh.dirtyDirs claims picks rfl rfl rfl rfl
  | send =>
    obtain ⟨c, batch, _, rfl⟩ := send_cases h
    exact { fresh with claims }
  | receive w =>
    obtain ⟨c, rest, found, _, rfl⟩ := receive_cases h
    exact fresh.worker claims rfl rfl rfl rfl found trivial
  | fail w =>
    obtain ⟨dir, found | ⟨files, found⟩, rfl⟩ := fail_cases h
    · exact fresh.fail claims found
    · exact fresh.fail claims found
  | dirFiles w =>
    obtain ⟨dir, found, rfl⟩ := dirFiles_cases h
    exact fresh.worker claims rfl rfl rfl rfl found (.inl rfl)
  | importDir w =>
    obtain ⟨dir, files, found, rfl⟩ := importDir_cases h
    exact fresh.importDir claims found
  | clearAttempts w =>
    obtain ⟨dir, found, rfl⟩ := clearAttempts_cases h
    have before : WorkerFresh importOf s (.imported dir) :=
      fresh.workers _ (List.mem_of_getElem? found)
    exact fresh.worker claims rfl rfl rfl rfl found before
  | recordFailure w =>
    obtain ⟨dir, next, attempts, found, counted, rfl⟩ := recordFailure_cases h
    have before : WorkerFresh importOf s (.failed dir) :=
      fresh.workers _ (List.mem_of_getElem? found)
    rcases counted with rfl | rfl
    · exact fresh.worker claims rfl rfl rfl rfl found before
    · exact fresh.worker claims rfl rfl rfl rfl found trivial
  | releaseDir w =>
    obtain ⟨x, dir, t, found, releasing, released, rfl⟩ := releaseDir_cases h
    exact fresh.releaseDir claims found releasing released
  | releaseAndRedirty w =>
    obtain ⟨dir, t, found, released, rfl⟩ := releaseAndRedirty_cases h
    exact fresh.releaseAndRedirty claims found released
  | releaseError w =>
    obtain ⟨x, dir, found, had, rfl⟩ := releaseError_cases h
    exact fresh.worker claims rfl rfl rfl rfl found trivial
  | armRetry w =>
    obtain ⟨found, rfl⟩ := armRetry_cases h
    exact fresh.worker claims rfl rfl rfl rfl found trivial
  | skipRetry w =>
    obtain ⟨found, rfl⟩ := skipRetry_cases h
    exact fresh.worker claims rfl rfl rfl rfl found trivial
  | timerFires =>
    obtain ⟨_, rfl⟩ := timerFires_cases h
    exact { fresh with claims }

/-- While every scan begins with no claim out on its location, and no sweep runs, no
quiescent state has a stale import. -/
theorem no_stale_import (wf : t.WellFormed) {library : UUID → Import}
    (upToDate : UpToDate importOf t library) (n : Nat) {acts : List Action}
    (undisturbed : StepsMeet (step importOf) Undisturbed (start t library n) acts) :
    Along (step importOf) (fun s => s.Quiescent → AllCurrent importOf s) (start t library n)
      acts := by
  refine along_of_stepsMeet ?_ ?_ (start_fresh wf upToDate n) undisturbed
  · exact fun s a s' fresh met h => step_fresh fresh met h
  · exact fun s fresh _ => fresh.settled

/-! ### A slow worker beside a scan -/

theorem oneDirty_upToDate : UpToDate id oneDirty fun _ => [] := by
  refine ⟨?_, fun _ _ => rfl⟩
  intro d hd clean
  obtain rfl := List.mem_singleton.mp hd
  cases clean

def parseAndRelease (w : Nat) : List Action :=
  [.dirFiles w, .importDir w, .clearAttempts w, .releaseDir w]

/-- The scan of location 1 that finds the one file changed. -/
def scanOfChange : List Action :=
  [.beginScan 1 0 30,
    .syncDir 40 (fun _ => 50)
      ⟨1, ["Album"], 2, [⟨20, ["01.flac"], .audio, ⟨2000, 6⟩, false⟩], [], true⟩,
    .onDirty 0]

def parseThenScan : List Action :=
  claimAndSend 0 ++ parseAndRelease 0 ++ scanOfChange ++ claimAndSend 1 ++ parseAndRelease 1 ++
    [.finishScan 1 9 ⟨0, 0, 0, 0⟩ none]

theorem parseThenScan_current :
    Along (step id) (fun s => s.Quiescent → AllCurrent id s) twoWorkers parseThenScan :=
  no_stale_import oneDirty_wellFormed oneDirty_upToDate 2 (by decide)

/-- Worker 0 reads the old file, worker 1 reads and imports the new one, and then
worker 0 imports the old one and finds its lock lost. -/
def slowWorker : List Action :=
  claimAndSend 0 ++ .dirFiles 0 :: scanOfChange ++ claimAndSend 1 ++ parseAndRelease 1 ++
    [.importDir 0, .clearAttempts 0, .releaseError 0, .finishScan 1 9 ⟨0, 0, 0, 0⟩ none]

theorem slowWorker_leavesStale :
    ¬ ∀ (t : ScanTables) (library : UUID → List File) (n : Nat) (acts : List Action),
      t.WellFormed → UpToDate id t library →
      StepsMeet (step id) (fun _ a => isSweep a = false) (start t library n) acts →
      Along (step id) (fun s => s.Quiescent → AllCurrent id s) (start t library n) acts := by
  intro current
  have run := current oneDirty (fun _ => []) 2 slowWorker oneDirty_wellFormed oneDirty_upToDate
    (by decide)
  exact absurd run (by decide)

end Byom.Metadata.Pipeline
